import Conformance.Time
import Mathlib.Tactic.SplitIfs

/-!
# The calendar and its count of days

A date is seen as a day of a year that starts in March (`ofMarch`), where the
leap day comes last. `exists_march` finds the year and the day that `civil`
finds for a number, and `dayNumber_ofMarch` counts them back, so that the two
conversions agree (`dayNumber_civil`) and `civil` only gives dates there are.
-/

namespace Conformance.Date

/-- The number of the day in front of which a year starts in March. -/
def marchStart (year : Int) : Int := 365 * year + year / 4 - year / 100 + year / 400 - 719468

def ofMarch (year day : Int) : Date :=
  let monthFromMarch := (5 * day + 2) / 153
  let month := if monthFromMarch < 10 then monthFromMarch + 3 else monthFromMarch - 9
  ⟨year + if month ≤ 2 then 1 else 0, month.toNat, (day - (153 * monthFromMarch + 2) / 5 + 1).toNat⟩

/-- A day of an era as centuries, cycles of four years, years and days. Only the last year of a
cycle has a day more, and of the last cycles of centuries only the last one. -/
structure Cycles (n g u s k : Int) : Prop where
  century : 0 ≤ g ∧ g ≤ 3
  cycle : 0 ≤ u ∧ u ≤ 24
  year : 0 ≤ s ∧ s ≤ 3
  day : 0 ≤ k ∧ k ≤ 365
  sum : n = 36524 * g + 1461 * u + 365 * s + k
  leap : k = 365 → s = 3 ∧ (u = 24 → g = 3)

theorem exists_cycles {n : Int} (hn : 0 ≤ n ∧ n ≤ 146096) : ∃ g u s k, Cycles n g u s k := by
  obtain ⟨g, hg⟩ : ∃ g, g = min (n / 36524) 3 := ⟨_, rfl⟩
  obtain ⟨u, hu⟩ : ∃ u, u = (n - 36524 * g) / 1461 := ⟨_, rfl⟩
  obtain ⟨s, hs⟩ : ∃ s, s = min ((n - 36524 * g - 1461 * u) / 365) 3 := ⟨_, rfl⟩
  refine ⟨g, u, s, n - 36524 * g - 1461 * u - 365 * s, ?_, ?_, ?_, ?_, ?_, ?_⟩ <;> omega

/-- The quotients that `civil` takes find the year of a day. -/
theorem Cycles.yearOfEra {n g u s k : Int} (h : Cycles n g u s k) :
    (n - n / 1460 + n / 36524 - n / 146096) / 365 = 100 * g + 4 * u + s := by
  obtain ⟨hg, hu, hs, hk, hn, hleap⟩ := h
  have hlast : n / 146096 = if n = 146096 then 1 else 0 := by split <;> omega
  have hcenturies : n / 36524 = if n = 146096 then 4 else g := by split <;> omega
  have hcycles : n / 1460 = 25 * g + u + if s = 3 ∧ 365 ≤ 24 * g + u + k then 1 else 0 := by
    split <;> omega
  rw [hlast, hcenturies, hcycles]
  split <;> split <;> omega

theorem isLeapYear_iff (year : Int) :
    isLeapYear year = true ↔ year % 4 = 0 ∧ (year % 100 ≠ 0 ∨ year % 400 = 0) := by
  simp [isLeapYear]

theorem Cycles.dayOfYear {n g u s k : Int} (h : Cycles n g u s k) :
    n - (365 * (100 * g + 4 * u + s) + (100 * g + 4 * u + s) / 4 -
      (100 * g + 4 * u + s) / 100) = k := by
  obtain ⟨hg, hu, hs, hk, hn, hleap⟩ := h
  omega

theorem Cycles.isLeapYear {n g u s k : Int} (h : Cycles n g u s k) (hlast : k = 365) (era : Int) :
    isLeapYear (100 * g + 4 * u + s + era * 400 + 1) = true := by
  obtain ⟨hg, hu, hs, hk, hn, hleap⟩ := h
  obtain ⟨rfl, hcentury⟩ := hleap hlast
  rw [isLeapYear_iff]
  omega

theorem Cycles.marchStart_add {n g u s k : Int} (h : Cycles n g u s k) (era : Int) :
    marchStart (100 * g + 4 * u + s + era * 400) + k = n + era * 146097 - 719468 := by
  obtain ⟨hg, hu, hs, hk, hn, hleap⟩ := h
  have hfour : (100 * g + 4 * u + s + era * 400) / 4 = 25 * g + u + era * 100 := by omega
  have hcentury : (100 * g + 4 * u + s + era * 400) / 100 = g + era * 4 := by omega
  have hera : (100 * g + 4 * u + s + era * 400) / 400 = era := by omega
  rw [marchStart, hfour, hcentury, hera]
  omega

/-- Every number is that of a day of a year that starts in March. -/
theorem exists_march (days : Int) :
    ∃ year day, civil days = ofMarch year day ∧ days = marchStart year + day ∧
      (0 ≤ day ∧ day ≤ 365) ∧ (day = 365 → isLeapYear (year + 1) = true) := by
  obtain ⟨era, hera⟩ : ∃ era, era = (days + 719468) / 146097 := ⟨_, rfl⟩
  obtain ⟨n, hn⟩ : ∃ n, n = days + 719468 - era * 146097 := ⟨_, rfl⟩
  obtain ⟨g, u, s, k, hcycles⟩ := exists_cycles (n := n) (by omega)
  refine ⟨100 * g + 4 * u + s + era * 400, k, ?_, ?_, hcycles.day,
    fun hlast => hcycles.isLeapYear hlast era⟩
  · rw [civil, Int.fdiv_eq_ediv_of_nonneg _ (by decide), ← hera, ← hn]
    simp only [hcycles.yearOfEra, hcycles.dayOfYear]
    rfl
  · rw [hcycles.marchStart_add]
    omega

/-- The number of a date, from the start of its year in March. -/
theorem dayNumber_eq (d : Date) :
    d.dayNumber = marchStart (if d.month ≤ 2 then d.year - 1 else d.year) +
      ((153 * (((d.month : Int) + 9) % 12) + 2) / 5 + d.day - 1) := by
  simp only [dayNumber, marchStart]
  generalize (if d.month ≤ 2 then d.year - 1 else d.year) = year
  rw [Int.fdiv_eq_ediv_of_nonneg _ (by decide)]
  generalize (153 * (((d.month : Int) + 9) % 12) + 2) / 5 = days
  omega

theorem ofMarch_of_lt {year day : Int} (h : (5 * day + 2) / 153 < 10) (hday : 0 ≤ day) :
    ofMarch year day = ⟨year, ((5 * day + 2) / 153 + 3).toNat,
      (day - (153 * ((5 * day + 2) / 153) + 2) / 5 + 1).toNat⟩ := by
  simp only [ofMarch, if_pos h]
  rw [if_neg (by omega), Int.add_zero]

theorem ofMarch_of_le {year day : Int} (h : 10 ≤ (5 * day + 2) / 153) (hday : day ≤ 365) :
    ofMarch year day = ⟨year + 1, ((5 * day + 2) / 153 - 9).toNat,
      (day - (153 * ((5 * day + 2) / 153) + 2) / 5 + 1).toNat⟩ := by
  simp only [ofMarch, if_neg (Int.not_lt.2 h)]
  rw [if_pos (by omega)]

theorem dayNumber_ofMarch {year day : Int} (hday : 0 ≤ day ∧ day ≤ 365) :
    (ofMarch year day).dayNumber = marchStart year + day := by
  rw [dayNumber_eq]
  by_cases h : (5 * day + 2) / 153 < 10
  · have hmonth : ((((5 * day + 2) / 153 + 3).toNat : Int) + 9) % 12 = (5 * day + 2) / 153 := by
      omega
    rw [ofMarch_of_lt h hday.1]
    simp only [hmonth]
    rw [if_neg (by omega)]
    omega
  · have hmonth : ((((5 * day + 2) / 153 - 9).toNat : Int) + 9) % 12 = (5 * day + 2) / 153 := by
      omega
    rw [ofMarch_of_le (Int.not_lt.1 h) hday.2]
    simp only [hmonth]
    rw [if_pos (by omega), Int.add_sub_cancel]
    omega

theorem dayNumber_civil (days : Int) : (civil days).dayNumber = days := by
  obtain ⟨year, day, hcivil, hdays, hday, -⟩ := exists_march days
  rw [hcivil, dayNumber_ofMarch hday, hdays]

/-- A day of a year that starts in March is a day of its month. -/
theorem ofMarch_mem {year day : Int} (hday : 0 ≤ day ∧ day ≤ 365)
    (hleap : day = 365 → isLeapYear (year + 1) = true) :
    (1 ≤ (ofMarch year day).month ∧ (ofMarch year day).month ≤ 12) ∧
      1 ≤ (ofMarch year day).day ∧
      (ofMarch year day).day ≤ daysInMonth (ofMarch year day).year (ofMarch year day).month := by
  by_cases h : (5 * day + 2) / 153 < 10
  · rw [ofMarch_of_lt h hday.1]
    simp only [daysInMonth]
    split_ifs <;> omega
  · rw [ofMarch_of_le (Int.not_lt.1 h) hday.2]
    simp only [daysInMonth]
    by_cases hyear : isLeapYear (year + 1) = true
    · split_ifs <;> omega
    · have hlast : day ≠ 365 := fun hlast => hyear (hleap hlast)
      split_ifs <;> omega

theorem daysInMonth_le (year : Int) (month : Nat) : daysInMonth year month ≤ 31 := by
  rw [daysInMonth]
  split_ifs <;> decide

theorem marchStart_add_lt {year year' : Int} (h : year < year') :
    marchStart year + 365 ≤ marchStart year' := by
  simp only [marchStart]
  omega

theorem year_civil_mem {days : Int} (hmin : (Date.mk minYear 1 1).dayNumber ≤ days)
    (hmax : days ≤ (Date.mk maxYear 12 31).dayNumber) :
    minYear ≤ (civil days).year ∧ (civil days).year ≤ maxYear := by
  obtain ⟨year, day, hcivil, hdays, hday, -⟩ := exists_march days
  have hfirst : (Date.mk minYear 1 1).dayNumber = marchStart (minYear - 1) + 306 := by decide
  have hlast : (Date.mk maxYear 12 31).dayNumber = marchStart maxYear + 305 := by decide
  have hlow : minYear - 1 ≤ year := by
    refine Int.not_lt.1 fun hlt => ?_
    have hstart := marchStart_add_lt hlt
    omega
  have hhigh : year ≤ maxYear := by
    refine Int.not_lt.1 fun hlt => ?_
    have hstart := marchStart_add_lt hlt
    omega
  rw [hcivil]
  by_cases h : (5 * day + 2) / 153 < 10
  · rw [ofMarch_of_lt h hday.1]
    simp only
    refine ⟨?_, hhigh⟩
    refine Int.not_lt.1 fun hlt => ?_
    obtain rfl : year = minYear - 1 := by omega
    omega
  · rw [ofMarch_of_le (Int.not_lt.1 h) hday.2]
    simp only
    refine ⟨by omega, ?_⟩
    refine Int.not_lt.1 fun hlt => ?_
    obtain rfl : year = maxYear := by omega
    omega

theorem isValid_civil {days : Int} (hmin : (Date.mk minYear 1 1).dayNumber ≤ days)
    (hmax : days ≤ (Date.mk maxYear 12 31).dayNumber) : (civil days).isValid = true := by
  have hyear := year_civil_mem hmin hmax
  obtain ⟨year, day, hcivil, -, hday, hleap⟩ := exists_march days
  obtain ⟨hmonth, hfirst, hlast⟩ := ofMarch_mem hday hleap
  rw [← hcivil] at hmonth hfirst hlast
  simp [isValid, hyear, hmonth, hfirst, hlast]

end Conformance.Date

import Conformance.Proofs.Number.Digits
import Conformance.Proofs.Time.Calendar
import Conformance.Time.Reader

/-!
# Instants read back

The reader of instants takes numbers of a fixed width and marks between them,
and a written instant has exactly these (`read?_rfc3339`). What it reads is
checked against the calendar, which `isValid_civil` answers, and a second of 60
goes back to where a leap second is kept.
-/

namespace Conformance.Instant

variable {n : Nat} {rest digits : List Char}

theorem isSpace_of_isDigit {c : Char} (h : Decimal.isDigit c = true) : isSpace c = false := by
  simp only [Decimal.isDigit, Bool.and_eq_true, decide_eq_true_eq, Char.le_def,
    UInt32.le_iff_toNat_le] at h
  have hlow : 48 ≤ c.toNat := h.1
  have hhigh : c.toNat ≤ 57 := h.2
  simp [isSpace]
  omega

theorem skipSpaces_cons {c : Char} (h : isSpace c = false) :
    skipSpaces (c :: rest) = c :: rest := by
  simp [skipSpaces, h]

theorem skipSpaces_digits (hne : digits ≠ []) (h : ∀ c ∈ digits, Decimal.isDigit c = true) :
    skipSpaces (digits ++ rest) = digits ++ rest := by
  obtain ⟨c, cs, rfl⟩ := List.exists_cons_of_ne_nil hne
  exact skipSpaces_cons (isSpace_of_isDigit (h c List.mem_cons_self))

theorem number?_digits (hne : digits ≠ []) (h : ∀ c ∈ digits, Decimal.isDigit c = true)
    (hrest : Decimal.Stops rest) :
    number? (digits ++ rest) = some (Decimal.value digits, rest) := by
  obtain ⟨htake, hdrop⟩ := Decimal.span_digits h hrest
  rw [number?, htake, hdrop]
  obtain ⟨c, cs, rfl⟩ := List.exists_cons_of_ne_nil hne
  rfl

theorem numberUpTo?_digits {width : Nat} (hne : digits ≠ [])
    (h : ∀ c ∈ digits, Decimal.isDigit c = true) (hwidth : digits.length ≤ width)
    (hrest : Decimal.Stops (rest.take (width - digits.length))) :
    numberUpTo? width (digits ++ rest) = some (Decimal.value digits, rest) := by
  rw [numberUpTo?, List.take_append, List.take_of_length_le hwidth,
    (Decimal.span_digits h hrest).1]
  obtain ⟨c, cs, rfl⟩ := List.exists_cons_of_ne_nil hne
  simp

theorem numberUpTo?_paddedText {width : Nat} (hwidth : 0 < width) (h : n < Nat.pow 10 width) :
    numberUpTo? width ((Decimal.paddedText width n).toList ++ rest) = some (n, rest) := by
  have hlength := Decimal.length_paddedText hwidth h
  rw [numberUpTo?_digits Decimal.paddedText_ne_nil (fun c => Decimal.isDigit_of_mem_paddedText)
    (Nat.le_of_eq hlength) (by simp [hlength]), Decimal.value_paddedText]

theorem pair?_two (h : n < 100) : pair? ((two n).toList ++ rest) = some (n, rest) := by
  rw [pair?, two, skipSpaces_digits Decimal.paddedText_ne_nil
    fun c => Decimal.isDigit_of_mem_paddedText]
  exact numberUpTo?_paddedText (by decide) h

theorem mark?_self {mark : Char} (h : isSpace mark = false) :
    mark? mark (mark :: rest) = some rest := by
  simp [mark?, skipSpaces_cons h]

/-- Digits are neither of the signs that a year may have. -/
theorem year?_digits {c : Char} (h : Decimal.isDigit c = true) :
    year? (c :: rest) = (numberUpTo? 4 (c :: rest)).map fun (n, rest) => ((n : Int), rest) := by
  rw [year?, skipSpaces_cons (isSpace_of_isDigit h)]
  split
  next heq =>
      cases heq
      cases h
  next heq =>
      cases heq
      cases h
  next => rfl

theorem year?_yearText (year : Int) :
    year? ((yearText year).toList ++ '-' :: rest) = some (year, '-' :: rest) := by
  rw [yearText]
  split
  next h =>
      have hfits : year.toNat < 10000 := by omega
      have hread : numberUpTo? 4 ((Decimal.paddedText 4 year.toNat).toList ++ '-' :: rest) =
        some (year.toNat, '-' :: rest) := numberUpTo?_paddedText (by decide) hfits
      have hdigits : ∀ c ∈ (Decimal.paddedText 4 year.toNat).toList, Decimal.isDigit c = true :=
        fun c => Decimal.isDigit_of_mem_paddedText
      have hne : (Decimal.paddedText 4 year.toNat).toList ≠ [] := Decimal.paddedText_ne_nil
      obtain ⟨c, cs, hcs⟩ := List.exists_cons_of_ne_nil hne
      rw [hcs] at hread hdigits ⊢
      rw [List.cons_append] at hread ⊢
      rw [year?_digits (hdigits c List.mem_cons_self), hread]
      simp
      omega
  next h =>
      have hread : number? ((Decimal.paddedText 4 year.natAbs).toList ++ '-' :: rest) =
          some (year.natAbs, '-' :: rest) := by
        rw [number?_digits Decimal.paddedText_ne_nil
          (fun c => Decimal.isDigit_of_mem_paddedText) (Decimal.stops_cons.2 rfl),
          Decimal.value_paddedText]
      obtain ⟨n, hn⟩ : ∃ n, n = year.natAbs := ⟨_, rfl⟩
      rw [← hn] at hread ⊢
      by_cases hneg : year < 0
      · have hyear : -(n : Int) = year := by omega
        simp [year?, skipSpaces, isSpace, hneg, hread, hyear]
      · have hyear : (n : Int) = year := by omega
        simp [year?, skipSpaces, isSpace, hneg, hread, hyear]

/-- A fraction of fewer than nine digits counts as if zeros followed. -/
theorem fraction?_paddedText {width : Nat} (hwidth : 0 < width ∧ width ≤ 9)
    (h : n < Nat.pow 10 width) :
    fraction? ('.' :: ((Decimal.paddedText width n).toList ++ 'Z' :: rest)) =
      some (n * Nat.pow 10 (9 - width), 'Z' :: rest) := by
  have hlength := Decimal.length_paddedText hwidth.1 h
  have hstops : Decimal.Stops (('Z' :: rest).take (9 - width)) := by
    cases 9 - width with
    | zero => exact Decimal.stops_nil
    | succ k => exact Decimal.stops_cons.2 rfl
  have hread : numberUpTo? 9 ((Decimal.paddedText width n).toList ++ 'Z' :: rest) =
      some (n, 'Z' :: rest) := by
    rw [numberUpTo?_digits Decimal.paddedText_ne_nil
      (fun c => Decimal.isDigit_of_mem_paddedText) (by omega) (by rwa [hlength]),
      Decimal.value_paddedText]
  have hdrop : ('Z' :: rest).dropWhile Decimal.isDigit = 'Z' :: rest := rfl
  simp only [fraction?, hread, hdrop, List.length_append, hlength, Nat.add_sub_cancel]

theorem fraction?_point {width : Nat} (hwidth : 0 < width ∧ width ≤ 9)
    (h : n < Nat.pow 10 width) :
    fraction? (("." ++ Decimal.paddedText width n).toList ++ 'Z' :: rest) =
      some (n * Nat.pow 10 (9 - width), 'Z' :: rest) := by
  have hpoint : ".".toList = ['.'] := rfl
  rw [String.toList_append, hpoint, List.singleton_append, List.cons_append,
    fraction?_paddedText hwidth h]

theorem fraction?_fractionText (h : n < 1000000000) :
    fraction? ((fractionText n).toList ++ 'Z' :: rest) = some (n, 'Z' :: rest) := by
  unfold fractionText
  split_ifs with hzero hmillis hmicros
  · simp [fraction?, hzero]
  · have hfits : n / 1000000 < 1000 := by omega
    have hpow : Nat.pow 10 (9 - 3) = 1000000 := rfl
    rw [fraction?_point (by decide) hfits, hpow]
    simp only [Option.some.injEq, Prod.mk.injEq, and_true]
    omega
  · have hfits : n / 1000 < 1000000 := by omega
    have hpow : Nat.pow 10 (9 - 6) = 1000 := rfl
    rw [fraction?_point (by decide) hfits, hpow]
    simp only [Option.some.injEq, Prod.mk.injEq, and_true]
    omega
  · have hpow : Nat.pow 10 (9 - 9) = 1 := rfl
    rw [fraction?_point (by decide) h, hpow]
    simp only [Option.some.injEq, Prod.mk.injEq, and_true]
    omega

variable {t : Instant}

theorem read?_rfc3339_eq (hmonth : t.date.month < 100) (hday : t.date.day < 100)
    (hhour : t.hour < 100) (hminute : t.minute < 100) (hsecond : t.second < 100)
    (hfraction : t.fraction < 1000000000) :
    read? t.rfc3339 = ofFields? t.date t.hour t.minute t.second t.fraction 0 := by
  have hdash : isSpace '-' = false := rfl
  have hcolon : isSpace ':' = false := rfl
  have hoffset : offset? (skipSpaces ['Z']) = some (0, []) := rfl
  have hend : skipSpaces [] = [] := rfl
  simp [read?, rfc3339, List.append_assoc, year?_yearText, mark?_self hdash, mark?_self hcolon,
    pair?_two hmonth, pair?_two hday, pair?_two hhour, pair?_two hminute, pair?_two hsecond,
    fraction?_fractionText hfraction, hoffset, hend]

theorem isValid_iff : t.isValid = true ↔
    ((Date.mk Date.minYear 1 1).dayNumber * 86400 ≤ t.seconds ∧
      t.seconds < ((Date.mk Date.maxYear 12 31).dayNumber + 1) * 86400) ∧
    (t.nanos < 1000000000 ∨ (t.nanos < 2000000000 ∧ t.seconds % 60 = 59)) := by
  simp only [isValid, Bool.and_eq_true, Bool.or_eq_true, decide_eq_true_eq]
  rfl

theorem secondOfDay_eq (t : Instant) : (t.secondOfDay : Int) = t.seconds % 86400 := by
  rw [secondOfDay, daySeconds, Int.fmod_eq_emod_of_nonneg _ (by decide)]
  omega

theorem isValid_date (h : t.isValid = true) : t.date.isValid = true := by
  obtain ⟨hrange, -⟩ := isValid_iff.1 h
  rw [date, daySeconds, Int.fdiv_eq_ediv_of_nonneg _ (by decide)]
  refine Date.isValid_civil ?_ ?_ <;> omega

theorem dayNumber_date (t : Instant) : t.date.dayNumber = t.seconds / 86400 := by
  rw [date, Date.dayNumber_civil, daySeconds, Int.fdiv_eq_ediv_of_nonneg _ (by decide)]

theorem second_le (t : Instant) : t.second ≤ 60 := by
  rw [second]
  split <;> omega

theorem ofFields?_eq_some {d : Date} {hour minute second nanos : Nat}
    (hdate : d.isValid = true) (hhour : hour < 24) (hminute : minute < 60) (hsecond : second ≤ 60)
    (h : t.isValid = true)
    (hseconds : d.dayNumber * 86400 + hour * 3600 + minute * 60 +
      (if second = 60 then 59 else second : Nat) = t.seconds)
    (hnanos : (if second = 60 then nanos + 1000000000 else nanos) = t.nanos) :
    ofFields? d hour minute second nanos 0 = some t := by
  have hfields : (d.isValid && hour < 24 && minute < 60 && second ≤ 60 &&
      (0 : Int).natAbs < 86400) = true := by
    simp [hdate, hhour, hminute, hsecond]
  rw [ofFields?, if_pos hfields]
  by_cases h60 : second = 60
  · simp only [if_pos h60, daySeconds, secondNanos, Int.sub_zero] at hseconds hnanos ⊢
    rw [hseconds, hnanos]
    exact if_pos h
  · simp only [if_neg h60, daySeconds, secondNanos, Int.sub_zero] at hseconds hnanos ⊢
    rw [hseconds, hnanos]
    exact if_pos h

theorem ofFields?_self (h : t.isValid = true) :
    ofFields? t.date t.hour t.minute t.second t.fraction 0 = some t := by
  have hday := secondOfDay_eq t
  obtain ⟨-, hnanos⟩ := isValid_iff.1 h
  refine ofFields?_eq_some (isValid_date h) ?_ ?_ (second_le t) h ?_ ?_
  · rw [hour]
    omega
  · rw [minute]
    omega
  · rw [dayNumber_date, hour, minute, second, secondNanos]
    split_ifs <;> omega
  · rw [second, fraction, secondNanos]
    split_ifs <;> omega

/-- An instant is read back from its notation, in a leap second and in any year. -/
theorem read?_rfc3339 (h : t.isValid = true) : read? t.rfc3339 = some t := by
  have hdate := isValid_date h
  have hday := secondOfDay_eq t
  simp only [Date.isValid, Bool.and_eq_true, decide_eq_true_eq] at hdate
  have hlength := Date.daysInMonth_le t.date.year t.date.month
  rw [read?_rfc3339_eq, ofFields?_self h]
  · omega
  · omega
  · rw [hour]
    omega
  · rw [minute]
    omega
  · exact Nat.lt_of_le_of_lt (second_le t) (by decide)
  · rw [fraction, secondNanos]
    omega

end Conformance.Instant

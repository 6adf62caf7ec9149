import Conformance.Proofs.Text.Utf8
import Conformance.Proofs.Time.Rfc3339
import Conformance.Report
import Mathlib.Data.Prod.Lex
import Mathlib.Tactic.Tauto

/-!
# Run identifiers and the order of time

A run is identified by the stamp of the instant it started at. A stamp is read
off its fields, and the fields tell the second of UTC apart from every other one
(`stamp_eq_iff`). From year 0 to year 9999 all stamps have the same width, so
that their bytes are compared field by field, and `civil` never runs backwards
(`earlier_civil_iff`): stamps ascend with time.
-/

namespace Conformance

namespace Date

def Earlier (d d' : Date) : Prop :=
  d.year < d'.year ∨ d.year = d'.year ∧ (d.month < d'.month ∨ d.month = d'.month ∧ d.day < d'.day)

theorem eq_iff {d d' : Date} :
    d = d' ↔ d.year = d'.year ∧ d.month = d'.month ∧ d.day = d'.day := by
  cases d
  cases d'
  rw [mk.injEq]

theorem earlier_or_iff {d d' : Date} {rest : Prop} :
    (d.Earlier d' ∨ d = d' ∧ rest) ↔
      d.year < d'.year ∨ d.year = d'.year ∧ (d.month < d'.month ∨ d.month = d'.month ∧
        (d.day < d'.day ∨ d.day = d'.day ∧ rest)) := by
  rw [eq_iff, Earlier]
  tauto

theorem Earlier.asymm {d d' : Date} (h : d.Earlier d') : ¬ d'.Earlier d := by
  unfold Earlier at h ⊢
  omega

theorem earlier_ofMarch {year year' day day' : Int} (hday : 0 ≤ day ∧ day ≤ 365)
    (hday' : 0 ≤ day' ∧ day' ≤ 365) (h : year < year' ∨ year = year' ∧ day < day') :
    (ofMarch year day).Earlier (ofMarch year' day') := by
  by_cases hmonth : (5 * day + 2) / 153 < 10 <;> by_cases hmonth' : (5 * day' + 2) / 153 < 10
  · rw [ofMarch_of_lt hmonth hday.1, ofMarch_of_lt hmonth' hday'.1]
    simp only [Earlier]
    omega
  · rw [ofMarch_of_lt hmonth hday.1, ofMarch_of_le (Int.not_lt.1 hmonth') hday'.2]
    simp only [Earlier]
    omega
  · rw [ofMarch_of_le (Int.not_lt.1 hmonth) hday.2, ofMarch_of_lt hmonth' hday'.1]
    simp only [Earlier]
    omega
  · rw [ofMarch_of_le (Int.not_lt.1 hmonth) hday.2, ofMarch_of_le (Int.not_lt.1 hmonth') hday'.2]
    simp only [Earlier]
    omega

theorem earlier_civil {days days' : Int} (h : days < days') :
    (civil days).Earlier (civil days') := by
  obtain ⟨year, day, hcivil, hdays, hday, -⟩ := exists_march days
  obtain ⟨year', day', hcivil', hdays', hday', -⟩ := exists_march days'
  rw [hcivil, hcivil']
  refine earlier_ofMarch hday hday' ?_
  rcases Int.lt_trichotomy year year' with hlt | rfl | hgt
  · exact .inl hlt
  · exact .inr ⟨rfl, by omega⟩
  · have hstart := marchStart_add_lt hgt
    omega

theorem earlier_civil_iff {days days' : Int} :
    (civil days).Earlier (civil days') ↔ days < days' := by
  refine ⟨fun h => ?_, earlier_civil⟩
  rcases Int.lt_trichotomy days days' with hlt | rfl | hgt
  · exact hlt
  · exact absurd h h.asymm
  · exact absurd h (earlier_civil hgt).asymm

end Date

namespace Decimal

variable {digits digits' : List Char} {rest rest' : Bytes} {n m width : Nat}

theorem toNat_of_isDigit {c : Char} (h : isDigit c = true) :
    c.toNat = digitValue c + 48 ∧ digitValue c ≤ 9 := by
  simp only [isDigit, Bool.and_eq_true, decide_eq_true_eq, Char.le_def,
    UInt32.le_iff_toNat_le] at h
  have hlow : 48 ≤ c.toNat := h.1
  have hhigh : c.toNat ≤ 57 := h.2
  have hzero : '0'.toNat = 48 := rfl
  rw [digitValue]
  omega

/-- A digit is one byte. -/
theorem exists_encodeChar_eq {c : Char} (h : isDigit c = true) :
    ∃ b, Utf8.encodeChar c = [b] ∧ b.toNat = digitValue c + 48 := by
  obtain ⟨hc, hle⟩ := toNat_of_isDigit h
  refine ⟨c.toNat.toUInt8, ?_, ?_⟩
  · simp only [Utf8.encodeChar]
    rw [if_pos (by omega)]
  · rw [Utf8.toNat_toUInt8 (by omega), hc]

theorem valueFrom_cons (n : Nat) (c : Char) (cs : List Char) :
    valueFrom n (c :: cs) = valueFrom (n * 10 + digitValue c) cs := by
  rw [valueFrom, List.foldl_cons, ← valueFrom]

/-- What stands in front decides. -/
theorem valueFrom_lt_valueFrom (hdigits : ∀ c ∈ digits, isDigit c = true)
    (hlength : digits.length = digits'.length) (h : n < m) :
    valueFrom n digits < valueFrom m digits' := by
  induction digits generalizing n m digits' with
  | nil =>
      obtain rfl := List.length_eq_zero_iff.1 hlength.symm
      exact h
  | cons c cs ih =>
      obtain ⟨c', cs', rfl⟩ := List.exists_cons_of_length_eq_add_one hlength.symm
      obtain ⟨hc, hcs⟩ := List.forall_mem_cons.1 hdigits
      have hle := (toNat_of_isDigit hc).2
      rw [valueFrom_cons, valueFrom_cons]
      exact ih hcs (by simpa using hlength) (by omega)

/-- Bytes that start with digits of one width are ordered by the values of these first. -/
theorem encode_append_lt_iff (hdigits : ∀ c ∈ digits, isDigit c = true)
    (hdigits' : ∀ c ∈ digits', isDigit c = true) (hlength : digits.length = digits'.length)
    (n : Nat) :
    digits.flatMap Utf8.encodeChar ++ rest < digits'.flatMap Utf8.encodeChar ++ rest' ↔
      valueFrom n digits < valueFrom n digits' ∨
        valueFrom n digits = valueFrom n digits' ∧ rest < rest' := by
  induction digits generalizing n digits' with
  | nil =>
      obtain rfl := List.length_eq_zero_iff.1 hlength.symm
      simp
  | cons c cs ih =>
      obtain ⟨c', cs', rfl⟩ := List.exists_cons_of_length_eq_add_one hlength.symm
      obtain ⟨hc, hcs⟩ := List.forall_mem_cons.1 hdigits
      obtain ⟨hc', hcs'⟩ := List.forall_mem_cons.1 hdigits'
      obtain ⟨b, hb, hnat⟩ := exists_encodeChar_eq hc
      obtain ⟨b', hb', hnat'⟩ := exists_encodeChar_eq hc'
      have hlength : cs.length = cs'.length := by simpa using hlength
      simp only [List.flatMap_cons, hb, hb', List.cons_append, List.nil_append, valueFrom_cons,
        List.cons_lt_cons_iff, UInt8.lt_iff_toNat_lt, ← UInt8.toNat_inj]
      rcases Nat.lt_trichotomy (digitValue c) (digitValue c') with hlt | heq | hgt
      · have hvalue := valueFrom_lt_valueFrom (n := n * 10 + digitValue c)
          (m := n * 10 + digitValue c') hcs hlength (by omega)
        exact iff_of_true (.inl (by omega)) (.inl hvalue)
      · have hbyte : b.toNat = b'.toNat := by omega
        rw [ih hcs hcs' hlength (n * 10 + digitValue c), heq, hbyte]
        simp
      · have hvalue := valueFrom_lt_valueFrom (n := n * 10 + digitValue c')
          (m := n * 10 + digitValue c) hcs' hlength.symm (by omega)
        exact iff_of_false (by omega) (by omega)

theorem paddedText_append_lt_iff (hwidth : 0 < width) (hn : n < Nat.pow 10 width)
    (hm : m < Nat.pow 10 width) :
    Utf8.encode (paddedText width n) ++ rest < Utf8.encode (paddedText width m) ++ rest' ↔
      n < m ∨ n = m ∧ rest < rest' := by
  have hlength : (paddedText width n).toList.length = (paddedText width m).toList.length := by
    rw [length_paddedText hwidth hn, length_paddedText hwidth hm]
  have hiff := @encode_append_lt_iff _ _ rest rest' (fun c => isDigit_of_mem_paddedText)
    (fun c => isDigit_of_mem_paddedText) hlength 0
  rw [← value, ← value, value_paddedText, value_paddedText] at hiff
  exact hiff

end Decimal

namespace Instant

variable {t t' : Instant}

/-- The second of UTC that an instant lies in. A leap second is one of its own, behind the second it
is kept in and in front of the next one. -/
def ordinal (t : Instant) : Int ×ₗ Nat := toLex (t.seconds, t.nanos / secondNanos)

theorem ordinal_eq_iff :
    t.ordinal = t'.ordinal ↔
      t.seconds = t'.seconds ∧ t.nanos / 1000000000 = t'.nanos / 1000000000 := by
  rw [ordinal, ordinal, EmbeddingLike.apply_eq_iff_eq, Prod.mk.injEq]
  rfl

theorem ordinal_lt_iff :
    t.ordinal < t'.ordinal ↔ t.seconds < t'.seconds ∨
      t.seconds = t'.seconds ∧ t.nanos / 1000000000 < t'.nanos / 1000000000 :=
  Prod.Lex.toLex_lt_toLex

/-- The fields of the time of day make up the second of the day, and 60 is that of a leap second. -/
theorem time_eq (h : t.isValid = true) :
    (t.hour : Int) * 3600 + t.minute * 60 + t.second =
        t.seconds % 86400 + (t.nanos / 1000000000 : Nat) ∧
      t.hour < 24 ∧ t.minute < 60 ∧ t.second ≤ 60 ∧
      t.nanos / 1000000000 = if t.second = 60 then 1 else 0 := by
  have hday := secondOfDay_eq t
  obtain ⟨-, hnanos⟩ := isValid_iff.1 h
  rw [hour, minute, second, secondNanos]
  split_ifs <;> omega

theorem date_eq_iff : t.date = t'.date ↔ t.seconds / 86400 = t'.seconds / 86400 := by
  constructor
  · intro heq
    rw [← dayNumber_date, heq, dayNumber_date]
  · intro heq
    rw [date, date, daySeconds, Int.fdiv_eq_ediv_of_nonneg _ (by decide),
      Int.fdiv_eq_ediv_of_nonneg _ (by decide), heq]

theorem earlier_date_iff :
    t.date.Earlier t'.date ↔ t.seconds / 86400 < t'.seconds / 86400 := by
  rw [date, date, Date.earlier_civil_iff, daySeconds, Int.fdiv_eq_ediv_of_nonneg _ (by decide),
    Int.fdiv_eq_ediv_of_nonneg _ (by decide)]

/-- The fields of an instant are those of the second it lies in, and of no other one. -/
theorem fields_eq_iff (h : t.isValid = true) (h' : t'.isValid = true) :
    (t.date = t'.date ∧ t.hour = t'.hour ∧ t.minute = t'.minute ∧ t.second = t'.second) ↔
      t.ordinal = t'.ordinal := by
  have htime := time_eq h
  have htime' := time_eq h'
  rw [date_eq_iff, ordinal_eq_iff]
  split_ifs at htime htime' <;> omega

theorem fields_lt_iff (h : t.isValid = true) (h' : t'.isValid = true) :
    (t.date.Earlier t'.date ∨ t.date = t'.date ∧ (t.hour < t'.hour ∨ t.hour = t'.hour ∧
      (t.minute < t'.minute ∨ t.minute = t'.minute ∧ t.second < t'.second))) ↔
      t.ordinal < t'.ordinal := by
  have htime := time_eq h
  have htime' := time_eq h'
  rw [earlier_date_iff, date_eq_iff, ordinal_lt_iff]
  split_ifs at htime htime' <;> omega

/-- The fields of a date and a time of day fit the digits that a stamp has for them. -/
theorem fields_lt (h : t.isValid = true) :
    t.date.month < 100 ∧ t.date.day < 100 ∧ t.hour < 100 ∧ t.minute < 100 ∧ t.second < 100 := by
  have hdate := isValid_date h
  have htime := time_eq h
  simp only [Date.isValid, Bool.and_eq_true, decide_eq_true_eq] at hdate
  have hlength := Date.daysInMonth_le t.date.year t.date.month
  omega

theorem yearText_injective {year year' : Int} (h : yearText year = yearText year') :
    year = year' := by
  have hread : year? ((yearText year).toList ++ ['-']) = _ := year?_yearText year
  rw [h, year?_yearText] at hread
  cases hread
  rfl

theorem two_append_inj {n m : Nat} {rest rest' : List Char} (hn : n < 100) (hm : m < 100)
    (h : (two n).toList ++ rest = (two m).toList ++ rest') : n = m ∧ rest = rest' := by
  have hread : pair? ((two n).toList ++ rest) = _ := pair?_two hn
  rw [h, pair?_two hm] at hread
  cases hread
  exact ⟨rfl, rfl⟩

theorem two_injective {n m : Nat} (hn : n < 100) (hm : m < 100)
    (h : (two n).toList = (two m).toList) : n = m := by
  have happend : (two n).toList ++ [] = (two m).toList ++ [] := by rw [h]
  exact (two_append_inj hn hm happend).1

theorem length_two {n : Nat} (h : n < 100) : (two n).toList.length = 2 :=
  Decimal.length_paddedText (by decide) h

/-- A year takes as many digits as it needs, but what stands behind it has one width, so that stamps
are the same only if the years are. -/
theorem stamp_eq_iff (h : t.isValid = true) (h' : t'.isValid = true) :
    t.stamp = t'.stamp ↔ t.ordinal = t'.ordinal := by
  rw [← fields_eq_iff h h']
  constructor
  · intro heq
    obtain ⟨hmonth, hday, hhour, hminute, hsecond⟩ := fields_lt h
    obtain ⟨hmonth', hday', hhour', hminute', hsecond'⟩ := fields_lt h'
    have hlist := congrArg String.toList heq
    simp only [stamp, String.toList_append, List.append_assoc] at hlist
    obtain ⟨hyear, hrest⟩ := List.append_inj' hlist (by
      simp only [List.length_append, length_two, hmonth, hday, hhour, hminute, hsecond, hmonth',
        hday', hhour', hminute', hsecond'])
    obtain ⟨hmonths, hrest⟩ := two_append_inj hmonth hmonth' hrest
    obtain ⟨hdays, hrest⟩ := two_append_inj hday hday' hrest
    rw [List.append_cancel_left_eq] at hrest
    obtain ⟨hhours, hrest⟩ := two_append_inj hhour hhour' hrest
    obtain ⟨hminutes, hrest⟩ := two_append_inj hminute hminute' hrest
    have hseconds := two_injective hsecond hsecond' hrest
    have hyears := yearText_injective (String.toList_injective hyear)
    exact ⟨Date.eq_iff.2 ⟨hyears, hmonths, hdays⟩, hhours, hminutes, hseconds⟩
  · rintro ⟨hdate, hhour, hminute, hsecond⟩
    rw [stamp, stamp, hdate, hhour, hminute, hsecond]

theorem stamp_ends_iff (h : t.isValid = true) :
    (∃ before, t.stamp = before ++ "60") ↔ secondNanos ≤ t.nanos := by
  have htime := time_eq h
  have hleap : secondNanos ≤ t.nanos ↔ t.second = 60 := by
    rw [secondNanos]
    split_ifs at htime <;> omega
  rw [hleap]
  constructor
  · rintro ⟨before, hstamp⟩
    obtain ⟨-, -, -, -, hsecond⟩ := fields_lt h
    have hlist := congrArg String.toList hstamp
    rw [stamp, String.toList_append, String.toList_append (s := before)] at hlist
    have hend : (two t.second).toList = (two 60).toList :=
      (List.append_inj' hlist (length_two hsecond)).2
    exact two_injective hsecond (by decide) hend
  · intro hsecond
    exact ⟨_, by rw [stamp, hsecond]; rfl⟩

theorem encode_append (a b : String) : Utf8.encode (a ++ b) = Utf8.encode a ++ Utf8.encode b := by
  simp only [Utf8.encode, String.toList_append, List.flatMap_append]

/-- While years have four digits, stamps have one width. -/
theorem stamp_lt_iff (h : t.isValid = true) (h' : t'.isValid = true)
    (hyear : 0 ≤ t.date.year ∧ t.date.year ≤ 9999)
    (hyear' : 0 ≤ t'.date.year ∧ t'.date.year ≤ 9999) :
    Utf8.encode t.stamp < Utf8.encode t'.stamp ↔ t.ordinal < t'.ordinal := by
  rw [← fields_lt_iff h h']
  obtain ⟨hmonth, hday, hhour, hminute, hsecond⟩ := fields_lt h
  obtain ⟨hmonth', hday', hhour', hminute', hsecond'⟩ := fields_lt h'
  have hfits : t.date.year.toNat < Nat.pow 10 4 := by
    have hpow : Nat.pow 10 4 = 10000 := rfl
    omega
  have hfits' : t'.date.year.toNat < Nat.pow 10 4 := by
    have hpow : Nat.pow 10 4 = 10000 := rfl
    omega
  have htwo : ∀ {n m : Nat} {rest rest' : Bytes}, n < 100 → m < 100 →
      (Utf8.encode (two n) ++ rest < Utf8.encode (two m) ++ rest' ↔ n < m ∨ n = m ∧ rest < rest') :=
    fun hn hm => Decimal.paddedText_append_lt_iff (by decide) hn hm
  have hend : Utf8.encode (two t.second) < Utf8.encode (two t'.second) ↔ t.second < t'.second := by
    simpa using @htwo t.second t'.second [] [] hsecond hsecond'
  have hdash : ∀ {rest rest' : Bytes},
      Utf8.encode "-" ++ rest < Utf8.encode "-" ++ rest' ↔ rest < rest' := by
    intro rest rest'
    have hbytes : Utf8.encode "-" = [45] := by decide
    simp [hbytes]
  have hbefore : t.date.year.toNat < t'.date.year.toNat ↔ t.date.year < t'.date.year := by omega
  have hsame : t.date.year.toNat = t'.date.year.toNat ↔ t.date.year = t'.date.year := by omega
  simp only [stamp, encode_append, List.append_assoc, yearText, if_pos hyear, if_pos hyear']
  rw [Decimal.paddedText_append_lt_iff (by decide) hfits hfits', htwo hmonth hmonth',
    htwo hday hday', hdash, htwo hhour hhour', htwo hminute hminute', hend, Date.earlier_or_iff,
    hbefore, hsame]

end Instant

namespace StoredRun

/-- Two runs have the same identifier exactly if they started in the same second of UTC, where a
leap second is written as 60 and is a second of its own. In the years 0 to 9999 the bytes of
identifiers are in the order of these seconds. -/
theorem id_orders_seconds (t t' : Instant) (h : t.isValid = true) (h' : t'.isValid = true)
    (completed completed' : Instant) (settings settings' : RunSettings)
    (environment environment' : RunEnvironment) (summary summary' : Summary) :
    let run := ofRun t completed settings environment summary
    let run' := ofRun t' completed' settings' environment' summary'
    (run.id = run'.id ↔ t.ordinal = t'.ordinal) ∧
      ((∃ before, run.id = before ++ "60") ↔ Instant.secondNanos ≤ t.nanos) ∧
      (0 ≤ t.date.year ∧ t.date.year ≤ 9999 → 0 ≤ t'.date.year ∧ t'.date.year ≤ 9999 →
        (Utf8.encode run.id < Utf8.encode run'.id ↔ t.ordinal < t'.ordinal)) :=
  ⟨Instant.stamp_eq_iff h h', Instant.stamp_ends_iff h, Instant.stamp_lt_iff h h'⟩

/-- The leap second at the end of 2016 and the second behind it. -/
theorem id_orders_seconds_new_year :
    let t : Instant := ⟨1483228799, 1500000000⟩
    let t' : Instant := ⟨1483228800, 0⟩
    let settings := RunSettings.sequential ⟨[]⟩ ⟨[]⟩
    let run := ofRun t t' settings ⟨"", "", ""⟩ ⟨0, 0, 0, 0, 0, []⟩
    let run' := ofRun t' t' settings ⟨"", "", ""⟩ ⟨0, 0, 0, 0, 0, []⟩
    (t.isValid = true ∧ t'.isValid = true ∧ t.date.year = 2016 ∧ t'.date.year = 2017) ∧
      run.id ≠ run'.id ∧ (∃ before, run.id = before ++ "60") ∧
      Utf8.encode run.id < Utf8.encode run'.id := by
  intro t t' settings run run'
  have hvalid : t.isValid = true ∧ t'.isValid = true ∧ t.date.year = 2016 ∧
      t'.date.year = 2017 := by decide +kernel
  obtain ⟨hvalid₁, hvalid₂, hyear, hyear'⟩ := hvalid
  obtain ⟨hsame, hleap, hless⟩ := id_orders_seconds t t' hvalid₁ hvalid₂ t' t' settings settings
    ⟨"", "", ""⟩ ⟨"", "", ""⟩ ⟨0, 0, 0, 0, 0, []⟩ ⟨0, 0, 0, 0, 0, []⟩
  have hlt : t.ordinal < t'.ordinal := Instant.ordinal_lt_iff.2 (.inl (by decide))
  refine ⟨⟨hvalid₁, hvalid₂, hyear, hyear'⟩, fun heq => hlt.ne (hsame.1 heq),
    hleap.2 (by decide), ?_⟩
  exact (hless (by omega) (by omega)).2 hlt

end StoredRun

end Conformance

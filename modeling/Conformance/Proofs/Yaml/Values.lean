import Conformance.Proofs.Yaml.Nodes

/-!
# The values of printed data

Looking at the node of report data finds what is in the data (`view_shows`).
Whole numbers are plain, and are read back from their decimal text
(`signed?_intText`). A text that is spelled like null is never written plain, so
that it is told from the absence of a value (`isNull?_styleOf`).
-/

namespace Conformance.Yaml

variable {cs : List Char} {n : Nat}

theorem digitValue?_of_isDigit {c : Char} (h : Decimal.isDigit c = true) :
    digitValue? c = some (Decimal.digitValue c) ∧ Decimal.digitValue c < 10 := by
  have hrange : '9'.toNat = 57 ∧ '0'.toNat = 48 := ⟨rfl, rfl⟩
  have hle : c.toNat ≤ '9'.toNat := (Bool.and_eq_true_iff.1 h).2 |> of_decide_eq_true
  constructor
  · exact if_pos h
  · rw [Decimal.digitValue]
    omega

theorem digitsFrom?_of_isDigit (h : ∀ c ∈ cs, Decimal.isDigit c = true) (n : Nat) :
    digitsFrom? 10 n cs = some (Decimal.valueFrom n cs) := by
  induction cs generalizing n with
  | nil => rfl
  | cons c cs ih =>
      obtain ⟨hc, hcs⟩ := List.forall_mem_cons.1 h
      obtain ⟨hdigit, hlt⟩ := digitValue?_of_isDigit hc
      simp only [digitsFrom?, hdigit, if_pos hlt]
      exact ih hcs _

theorem digits?_toDigits (n : Nat) : digits? 10 (Nat.toDigits 10 n) = some n := by
  have hdigits := digitsFrom?_of_isDigit
    (fun c hc => Decimal.isDigit_of_mem_toDigits (n := n) (c := c) hc) 0
  rw [digits?, hdigits]
  · exact congrArg some (Decimal.value_toDigits n)
  · exact Nat.toDigits_ne_nil

theorem radix?_toDigits (n : Nat) : radix? (Nat.toDigits 10 n) = none := by
  unfold radix?
  split
  next heq => exact absurd heq Decimal.toDigits_ne_zero_cons
  next heq => exact absurd heq Decimal.toDigits_ne_zero_cons
  next heq => exact absurd heq Decimal.toDigits_ne_zero_cons
  next => rfl

theorem isSign_of_isDigit {c : Char} (h : Decimal.isDigit c = true) : isSign c = false := by
  rw [isSign, Bool.or_eq_false_iff, beq_eq_false_iff_ne, beq_eq_false_iff_ne]
  constructor
  · rintro rfl
    cases h
  · rintro rfl
    cases h

theorem dropSign_toDigits (n : Nat) : dropSign (Nat.toDigits 10 n) = Nat.toDigits 10 n := by
  obtain ⟨c, cs, hcs, hdigit⟩ := Decimal.exists_toDigits_eq_cons n
  rw [hcs, dropSign, isSign_of_isDigit hdigit]
  rfl

theorem isZeroPadded_of_dropSign (h : dropSign cs = Nat.toDigits 10 n) :
    isZeroPadded cs = false := by
  rw [isZeroPadded, h]
  split
  next heq => exact absurd heq Decimal.toDigits_ne_zero_cons
  next => rfl

theorem unsigned?_of_not_plus (hplus : ∀ r, cs = '+' :: r → False) (hradix : radix? cs = none)
    (hpadded : isZeroPadded cs = false) : unsigned? cs = digits? 10 cs := by
  simp only [unsigned?, hradix, hpadded, Bool.false_eq_true, if_false]

theorem unsigned?_toDigits (n : Nat) : unsigned? (Nat.toDigits 10 n) = some n := by
  have hplus : ∀ r, Nat.toDigits 10 n = '+' :: r → False := by
    intro r hr
    have hdigit : Decimal.isDigit '+' = true :=
      Decimal.isDigit_of_mem_toDigits (by rw [hr]; exact List.mem_cons_self)
    cases hdigit
  rw [unsigned?_of_not_plus hplus (radix?_toDigits n)
    (isZeroPadded_of_dropSign (dropSign_toDigits n)), digits?_toDigits]

theorem unsigned?_minus (n : Nat) : unsigned? ('-' :: Nat.toDigits 10 n) = none := by
  have hpadded : isZeroPadded ('-' :: Nat.toDigits 10 n) = false := isZeroPadded_of_dropSign rfl
  rw [unsigned?_of_not_plus (by simp) rfl hpadded]
  rfl

theorem negative?_minus (n : Nat) : negative? ('-' :: Nat.toDigits 10 n) = some n := by
  simp only [negative?, radix?_toDigits, isZeroPadded_of_dropSign (dropSign_toDigits n),
    digits?_toDigits, Bool.false_eq_true, if_false]

theorem signed?_intText (n : Int) : signed? (Decimal.intText n).toList = some n := by
  cases n with
  | ofNat n =>
      rw [Decimal.intText, Json.toList_natText, signed?, unsigned?_toDigits]
      rfl
  | negSucc n =>
      have htext : (Decimal.intText (.negSucc n)).toList = '-' :: Nat.toDigits 10 (n + 1) := by
        rw [Decimal.intText, String.toList_append, Json.toList_natText]
        rfl
      rw [htext, signed?, unsigned?_minus, negative?_minus]
      rfl

/-- A spelling of null is no number. -/
theorem isNullText_intText (n : Int) : isNullText (Decimal.intText n) = false := by
  have hnull : ∀ s ∈ ["null", "Null", "NULL", "~"], s.toList.any (· ∉ numberChars) = true :=
    List.all_iff_forall_prop.1 (by decide)
  have hne : ∀ s ∈ ["null", "Null", "NULL", "~"], Decimal.intText n ≠ s := by
    rintro s hs rfl
    obtain ⟨c, hc, hnot⟩ := List.any_iff_exists_prop.1 (hnull _ hs)
    exact hnot (mem_numberChars_of_mem_intText hc)
  simpa [isNullText, and_assoc] using hne

theorem intText_ne_empty (n : Int) : Decimal.intText n ≠ "" :=
  fun h => Json.intText_ne_nil n (String.toList_eq_nil_iff.2 h)

/-- A text that is written plain is not taken for the absence of a value. -/
theorem not_null_of_plain {s : String} (h : styleOf s = .plain) :
    (s == "" || isNullText s) = false := by
  cases htaken : isTaken s with
  | true =>
      simp only [styleOf, htaken, Bool.not_true, Bool.false_and, Bool.false_eq_true,
        if_false] at h
      split_ifs at h
  | false =>
      simp only [isTaken, Bool.or_eq_false_iff] at htaken
      rw [htaken.1.1.1.1.1, htaken.1.1.1.1.2]
      rfl

theorem isNull?_styleOf (s : String) :
    Node.isNull? (.scalar none (styleOf s) s) = some false := by
  cases hstyle : styleOf s with
  | plain => exact congrArg some (not_null_of_plain hstyle)
  | singleQuoted => rfl
  | doubleQuoted => rfl
  | literal => rfl
  | folded => rfl

theorem ofItems_eq_map (items : List Data) : ofItems items = items.map ofData := by
  induction items with
  | nil => rfl
  | cons x xs ih => rw [ofItems, ih, List.map_cons]

theorem entries?_ofFields (anchors : Anchors) (fields : List (String × Data)) :
    Node.entries? anchors (ofFields fields) = some (fields.map fun f => (f.1, ofData f.2)) := by
  induction fields with
  | nil => rfl
  | cons f fields ih =>
      rw [ofFields, Node.entries?, ih]
      rfl

/-- YAML shows report data for what it is. -/
theorem view_shows (anchors : Anchors) : (view anchors).Shows ofData where
  text _ := rfl
  path p := by
    rw [ofData]
    cases hp : p.text? <;> rfl
  bool b := by cases b <;> rfl
  word n := by
    have hint : unsigned? (Decimal.intText n.toNat).toList = some n.toNat := by
      change unsigned? (Decimal.natText n.toNat).toList = some n.toNat
      rw [Json.toList_natText, unsigned?_toDigits]
    have hword : Word.unsigned? n.toNat = some n := by
      rw [Word.unsigned?, if_pos n.toNat_lt_size, UInt64.ofNat_toNat]
    simp [view, ofData, Data.word, Node.resolve?, Node.word?, Node.plainText?, hint, hword]
  int32 n := by
    have hword : Word.signed? n.toInt = some n := by
      rw [Word.signed?, if_pos, Int32.ofInt_toInt]
      exact ⟨n.minValue_le_toInt, n.toInt_le⟩
    simp [view, ofData, Node.resolve?, Node.int32?, Node.plainText?, signed?_intText, hword]
  null := rfl
  text_not_null s := isNull?_styleOf s
  int_not_null n := by
    simp [view, ofData, Node.resolve?, Node.isNull?, isNullText_intText, intText_ne_empty]
  list items := congrArg some (ofItems_eq_map items)
  variant _ := rfl
  record _ _ fields := entries?_ofFields anchors fields

end Conformance.Yaml

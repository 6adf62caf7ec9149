import Conformance.Number.Decimal

/-!
# Digits read back

What `toDigits` writes is read back by `value`, with or without zeros in front,
and a reader that takes digits as long as there are any stops right behind them
(`span_digits`). A number other than zero does not start with one.
-/

namespace Conformance.Decimal

variable {n width : Nat} {digits rest : List Char}

theorem isDigit_eq (c : Char) : isDigit c = c.isDigit := rfl

theorem valueFrom_eq (n : Nat) (digits : List Char) :
    valueFrom n digits = Nat.ofDigitChars 10 digits n := by
  rw [valueFrom, Nat.ofDigitChars_eq_foldl]
  congr 1
  funext n c
  rw [digitValue, Nat.mul_comm]

theorem value_toDigits (n : Nat) : value (Nat.toDigits 10 n) = n := by
  rw [value, valueFrom_eq, Nat.ofDigitChars_ten_toDigits]

theorem le_valueFrom (n : Nat) (digits : List Char) : n ≤ valueFrom n digits := by
  induction digits generalizing n with
  | nil => exact Nat.le_refl n
  | cons c digits ih => exact Nat.le_trans (by omega) (ih (n * 10 + digitValue c))

theorem eq_zero_of_value_eq_zero {c : Char} {digits : List Char} (hc : isDigit c = true)
    (h : value (c :: digits) = 0) : c = '0' := by
  have hle : digitValue c ≤ value (c :: digits) := by
    have hfrom := le_valueFrom (0 * 10 + digitValue c) digits
    rw [Nat.zero_mul, Nat.zero_add] at hfrom
    simpa [value, valueFrom] using hfrom
  have hlow : '0'.toNat ≤ c.toNat := by
    simp only [isDigit, Bool.and_eq_true, decide_eq_true_eq] at hc
    exact hc.1
  have hvalue : digitValue c = 0 := by omega
  rw [digitValue] at hvalue
  exact Char.toNat_inj.1 (by omega)

theorem isDigit_of_mem_toDigits {c : Char} (h : c ∈ Nat.toDigits 10 n) : isDigit c = true :=
  (isDigit_eq c).trans (Nat.isDigit_of_mem_toDigits (by decide) (by decide) h)

theorem exists_toDigits_eq_cons (n : Nat) :
    ∃ c cs, Nat.toDigits 10 n = c :: cs ∧ isDigit c = true := by
  obtain ⟨c, cs, hcs⟩ := List.exists_cons_of_ne_nil (Nat.toDigits_ne_nil (n := n) (b := 10))
  exact ⟨c, cs, hcs, isDigit_of_mem_toDigits (by rw [hcs]; exact List.mem_cons_self)⟩

theorem toList_paddedText (width n : Nat) :
    (paddedText width n).toList =
      List.replicate (width - (Nat.toDigits 10 n).length) '0' ++ Nat.toDigits 10 n :=
  String.toList_ofList

theorem value_paddedText (width n : Nat) : value (paddedText width n).toList = n := by
  rw [toList_paddedText, value, valueFrom_eq, Nat.ofDigitChars_append,
    Nat.ofDigitChars_replicate_zero, Nat.mul_zero, Nat.ofDigitChars_ten_toDigits]

theorem isDigit_of_mem_paddedText {c : Char} (h : c ∈ (paddedText width n).toList) :
    isDigit c = true := by
  rw [toList_paddedText] at h
  rcases List.mem_append.1 h with hzero | hdigit
  · rw [List.eq_of_mem_replicate hzero]
    rfl
  · exact isDigit_of_mem_toDigits hdigit

theorem paddedText_ne_nil : (paddedText width n).toList ≠ [] := by
  rw [toList_paddedText]
  exact List.append_ne_nil_of_right_ne_nil _ Nat.toDigits_ne_nil

theorem length_paddedText (hwidth : 0 < width) (h : n < Nat.pow 10 width) :
    (paddedText width n).toList.length = width := by
  have hle := (Nat.length_toDigits_le_iff (b := 10) (by decide) hwidth).2 h
  rw [toList_paddedText, List.length_append, List.length_replicate]
  omega

theorem head?_toDigits_ne_zero (h : 0 < n) : (Nat.toDigits 10 n).head? ≠ some '0' := by
  induction n using Nat.strongRecOn with
  | ind n ih =>
      rw [Nat.toDigits_eq_if (by decide)]
      split
      next hlt =>
          simp
          omega
      next hle =>
          have hhead := ih (n / 10) (by omega) (by omega)
          have hne : Nat.toDigits 10 (n / 10) ≠ [] := Nat.toDigits_ne_nil
          obtain ⟨c, cs, hcs⟩ := List.exists_cons_of_ne_nil hne
          rw [hcs] at hhead ⊢
          exact hhead

theorem toDigits_ne_zero_cons {c : Char} {cs : List Char} : Nat.toDigits 10 n ≠ '0' :: c :: cs := by
  intro heq
  by_cases hn : n = 0
  · simp [hn] at heq
  · exact head?_toDigits_ne_zero (Nat.pos_of_ne_zero hn) (by rw [heq, List.head?_cons])

/-- Nothing that could go on with digits. -/
def Stops (rest : List Char) : Prop := ∀ c ∈ rest.head?, isDigit c = false

@[simp] theorem stops_nil : Stops [] := nofun

@[simp] theorem stops_cons {c : Char} : Stops (c :: rest) ↔ isDigit c = false := by
  simp [Stops]

theorem span_digits (h : ∀ c ∈ digits, isDigit c = true) (hrest : Stops rest) :
    (digits ++ rest).takeWhile isDigit = digits ∧ (digits ++ rest).dropWhile isDigit = rest := by
  rw [List.takeWhile_append_of_pos h, List.dropWhile_append_of_pos h]
  cases rest with
  | nil => simp
  | cons c rest =>
      rw [stops_cons] at hrest
      simp [hrest]

/-- Numbers in front of something else than digits are told apart. -/
theorem toDigits_append_inj {n m : Nat} {rest rest' : List Char} (hrest : Stops rest)
    (hrest' : Stops rest')
    (h : Nat.toDigits 10 n ++ rest = Nat.toDigits 10 m ++ rest') : n = m ∧ rest = rest' := by
  obtain ⟨htake, hdrop⟩ := span_digits (fun c => isDigit_of_mem_toDigits (n := n)) hrest
  obtain ⟨htake', hdrop'⟩ := span_digits (fun c => isDigit_of_mem_toDigits (n := m)) hrest'
  rw [h, htake'] at htake
  rw [h, hdrop'] at hdrop
  exact ⟨by rw [← value_toDigits n, ← htake, value_toDigits], hdrop.symm⟩

end Conformance.Decimal

/-!
# Splitting a list at a separator

`splitAt sep xs` cuts `xs` at every `sep`. There is always one part more than there are
separators, and joining the parts with the separator gives the list back (`joinWith_splitAt`).
-/

namespace Conformance.Split

variable {α : Type} [DecidableEq α]

def splitAt (sep : α) : List α → List (List α)
  | [] => [[]]
  | x :: xs =>
    if x = sep then [] :: splitAt sep xs
    else match splitAt sep xs with
      | [] => [[x]]
      | part :: parts => (x :: part) :: parts

def joinWith (sep : α) : List (List α) → List α
  | [] => []
  | [part] => part
  | part :: parts => part ++ sep :: joinWith sep parts

theorem splitAt_ne_nil (sep : α) (xs : List α) : splitAt sep xs ≠ [] := by
  cases xs with
  | nil => simp [splitAt]
  | cons x xs =>
    rw [splitAt]
    split
    · simp
    · split <;> simp

theorem joinWith_splitAt (sep : α) (xs : List α) : joinWith sep (splitAt sep xs) = xs := by
  induction xs with
  | nil => rfl
  | cons x xs ih =>
    rw [splitAt]
    split
    next h =>
      subst h
      cases hs : splitAt x xs with
      | nil => exact absurd hs (splitAt_ne_nil x xs)
      | cons p ps => rw [joinWith, ← hs, ih]; simp; simp
    next h =>
      cases hs : splitAt sep xs with
      | nil => exact absurd hs (splitAt_ne_nil sep xs)
      | cons p ps =>
        rw [hs] at ih
        cases ps with
        | nil => simpa [joinWith] using ih
        | cons q qs => simpa [joinWith] using ih

/-- Whether `pattern` occurs in a list as a contiguous part. -/
def occursIn (pattern : List α) : List α → Bool
  | [] => pattern.isEmpty
  | x :: xs => pattern.isPrefixOf (x :: xs) || occursIn pattern xs

theorem occursIn_iff {pattern xs : List α} : occursIn pattern xs = true ↔ pattern <:+: xs := by
  induction xs with
  | nil => simp [occursIn]
  | cons x xs ih =>
    rw [occursIn, Bool.or_eq_true, List.isPrefixOf_iff_prefix, ih, List.infix_cons_iff]

end Conformance.Split

import Conformance.Fixture

/-!
# Which fixtures patterns select

Patterns select a fixture if one of them stands somewhere in its identifier, and
no patterns select every fixture (`IsNamed`). So the selection is decided by the
set of the patterns. More patterns select more, unless there were none before;
selecting twice keeps what both times select.
-/

namespace Conformance.Fixture

variable {patterns patterns' : List String} {fixtures : List Fixture} {f : Fixture}

/-- The identifier contains one of the patterns, or there are none. -/
def IsNamed (patterns : List String) (f : Fixture) : Prop :=
  patterns = [] ∨ ∃ p ∈ patterns, p.toList <:+: f.id.toList

theorem isSelected_iff : isSelected patterns f = true ↔ IsNamed patterns f := by
  rw [isSelected, Bool.or_eq_true, List.isEmpty_iff, List.any_eq_true, IsNamed]
  simp only [Split.occursIn_iff]

theorem IsNamed.mono (hne : patterns ≠ []) (hsub : patterns ⊆ patterns')
    (h : IsNamed patterns f) : IsNamed patterns' f := by
  obtain ⟨p, hp, hinfix⟩ := h.resolve_left hne
  exact .inr ⟨p, hsub hp, hinfix⟩

theorem isNamed_congr (h : ∀ p, p ∈ patterns ↔ p ∈ patterns') :
    IsNamed patterns f ↔ IsNamed patterns' f := by
  have hnil : patterns = [] ↔ patterns' = [] := by
    simp only [List.eq_nil_iff_forall_not_mem, h]
  simp only [IsNamed, hnil, h]

theorem select_nil (fixtures : List Fixture) : select [] fixtures = fixtures := by
  simp [select, isSelected]

/-- The order of the patterns and their repetitions do not matter. -/
theorem select_congr (h : ∀ p, p ∈ patterns ↔ p ∈ patterns') (fixtures : List Fixture) :
    select patterns fixtures = select patterns' fixtures := by
  refine List.filter_congr fun f _ => ?_
  rw [Bool.eq_iff_iff, isSelected_iff, isSelected_iff, isNamed_congr h]

theorem select_select (patterns patterns' : List String) (fixtures : List Fixture) :
    select patterns' (select patterns fixtures) =
      fixtures.filter fun f => isSelected patterns' f && isSelected patterns f := by
  rw [select, select, List.filter_filter]

theorem select_sublist_select (hne : patterns ≠ []) (hsub : patterns ⊆ patterns')
    (fixtures : List Fixture) :
    (select patterns fixtures).Sublist (select patterns' fixtures) := by
  have hkept : select patterns fixtures = select patterns (select patterns' fixtures) := by
    rw [select_select, select]
    refine List.filter_congr fun f _ => ?_
    rw [Bool.eq_iff_iff, Bool.and_eq_true, isSelected_iff, isSelected_iff]
    exact ⟨fun h => ⟨h, h.mono hne hsub⟩, fun h => h.1⟩
  rw [hkept]
  exact List.filter_sublist

end Conformance.Fixture

import Conformance.Fixture
import Conformance.Proofs.Text.Lossy

/-!
# The skip marker in a file name

A file name is marked if, behind its leading dots, the marker stands between a
dot and the next dot or the end. `IsMarked` says this of lists over any alphabet,
so the same grammar is read in the bytes of a name and in the text that is shown
for it. Cutting the name at its dots finds the marker (`any_segment_iff`), and
since dots and the marker are characters of one byte, the shown text is marked
exactly if the bytes are (`isMarked_decodeLossy_iff`).
-/

namespace Conformance

/-- Behind leading dots, the marker follows a dot and is followed by a dot or by nothing. -/
def IsMarked {α : Type} (dot : α) (marker name : List α) : Prop :=
  ∃ dots stem before after, name = dots ++ stem ∧ (∀ x ∈ dots, x = dot) ∧ stem.head? ≠ some dot ∧
    stem = before ++ dot :: marker ++ after ∧ (after = [] ∨ after.head? = some dot)

namespace Split

variable {α : Type} [DecidableEq α] {dot : α} {marker : List α}

theorem joinWith_append {β : Type} (sep : β) {parts parts' : List (List β)} (h : parts ≠ [])
    (h' : parts' ≠ []) :
    joinWith sep (parts ++ parts') = joinWith sep parts ++ sep :: joinWith sep parts' := by
  induction parts with
  | nil => exact absurd rfl h
  | cons part parts ih =>
      cases parts with
      | nil =>
          obtain ⟨part', parts', rfl⟩ := List.exists_cons_of_ne_nil h'
          rfl
      | cons next parts =>
          have hrest := ih (by simp)
          rw [List.cons_append] at hrest
          rw [List.cons_append, List.cons_append, joinWith_cons_cons, joinWith_cons_cons, hrest,
            List.append_assoc, List.cons_append]

theorem mem_tail_splitAt_iff (hmarker : dot ∉ marker) (stem : List α) :
    marker ∈ (splitAt dot stem).tail ↔
      ∃ before after, stem = before ++ dot :: marker ++ after ∧
        (after = [] ∨ after.head? = some dot) := by
  constructor
  · intro h
    cases hsplit : splitAt dot stem with
    | nil => exact absurd hsplit (splitAt_ne_nil dot stem)
    | cons first parts =>
        rw [hsplit, List.tail_cons] at h
        obtain ⟨earlier, later, rfl⟩ := List.append_of_mem h
        have hstem : stem =
            joinWith dot (first :: earlier) ++ dot :: joinWith dot (marker :: later) := by
          rw [← joinWith_splitAt dot stem, hsplit, ← List.cons_append]
          exact joinWith_append dot (by simp) (by simp)
        cases later with
        | nil => exact ⟨_, [], by simpa [joinWith] using hstem, .inl rfl⟩
        | cons next later =>
            refine ⟨joinWith dot (first :: earlier), dot :: joinWith dot (next :: later), ?_,
              .inr rfl⟩
            rw [hstem, joinWith_cons_cons, List.append_assoc, List.cons_append]
  · rintro ⟨before, after, rfl, hafter⟩
    have hmem : marker ∈ splitAt dot (marker ++ after) := by
      rcases hafter with rfl | hafter
      · rw [List.append_nil, splitAt_of_notMem hmarker]
        exact List.mem_singleton_self marker
      · obtain ⟨rest, rfl⟩ := List.head?_eq_some_iff.1 hafter
        rw [splitAt_append_cons, splitAt_of_notMem hmarker]
        exact List.mem_cons_self
    obtain ⟨first, parts, hbefore⟩ := List.exists_cons_of_ne_nil (splitAt_ne_nil dot before)
    rw [List.append_assoc, List.cons_append, splitAt_append_cons, hbefore]
    exact List.mem_append_right parts hmem

theorem eq_dropWhile {dots stem : List α} (hdots : ∀ x ∈ dots, x = dot)
    (hstem : stem.head? ≠ some dot) : (dots ++ stem).dropWhile (· == dot) = stem := by
  rw [List.dropWhile_append_of_pos fun x hx => by simp [hdots x hx]]
  cases stem with
  | nil => rfl
  | cons x stem => exact List.dropWhile_cons_of_neg (by simpa using hstem)

theorem any_segment_iff (hmarker : dot ∉ marker) (name : List α) :
    ((splitAt dot (name.dropWhile (· == dot))).drop 1).any (· == marker) = true ↔
      IsMarked dot marker name := by
  rw [List.any_beq', List.drop_one, List.contains_iff_mem, mem_tail_splitAt_iff hmarker]
  constructor
  · rintro ⟨before, after, hstem, hafter⟩
    refine ⟨name.takeWhile (· == dot), name.dropWhile (· == dot), before, after,
      List.takeWhile_append_dropWhile.symm, ?_, ?_, hstem, hafter⟩
    · intro x hx
      have hdots := List.all_takeWhile (l := name) (p := (· == dot))
      simpa using List.all_eq_true.1 hdots x hx
    · intro hhead
      have hnot := List.head?_dropWhile_not (· == dot) name
      simp [hhead] at hnot
  · rintro ⟨dots, stem, before, after, rfl, hdots, hhead, hstem, hafter⟩
    rw [eq_dropWhile hdots hhead]
    exact ⟨before, after, hstem, hafter⟩

end Split

theorem hasSkipMarker_iff (fileName : String) :
    hasSkipMarker fileName = true ↔ IsMarked '.' skipMarker.toList fileName.toList :=
  Split.any_segment_iff (by decide) fileName.toList

theorem spells_dot : Utf8.Spells [Path.dot] '.' := Utf8.spells_encodeChar '.'

/-- What is shown for a name is marked exactly if the name is: decoding makes no marker and loses
none. -/
theorem isMarked_decodeLossy_iff (name : Bytes) :
    IsMarked '.' skipMarker.toList (Utf8.decodeLossy name).toList ↔
      IsMarked Path.dot (Utf8.encode skipMarker) name := by
  have hpart (part : Bytes) : (Utf8.decodeLossy part).toList = skipMarker.toList ↔
      part = Utf8.encode skipMarker := by
    constructor
    · intro h
      exact (Utf8.encode_of_decodeLossy (String.toList_inj.1 h) (by decide)).symm
    · rintro rfl
      rw [Utf8.decodeLossy_encode]
  rw [← Split.any_segment_iff (by decide), ← Split.any_segment_iff (by decide),
    spells_dot.dropWhile_decodeLossy, spells_dot.splitAt_decodeLossy]
  simp only [← List.map_drop, List.any_map, List.any_eq_true, Function.comp_apply, beq_iff_eq,
    hpart]

namespace Fixture

theorem isSkipped_of_fileName? {f : Fixture} {name : Bytes} (h : f.path.fileName? = some name) :
    f.isSkipped = hasSkipMarker (Utf8.decodeLossy name) := by
  rw [isSkipped, fileName, h, Option.map_some, Option.getD_some]

/-- A fixture whose path ends in a file name, of whatever bytes and in whatever directory, is
disabled exactly if that name is marked: the directory has no part in it, nor has decoding. -/
theorem isSkipped_iff_isMarked {f : Fixture} {name : Bytes} (hname : f.path.fileName? = some name) :
    (f.isSkipped = true ↔ IsMarked Path.dot (Utf8.encode skipMarker) name) ∧
      (IsMarked '.' skipMarker.toList (Utf8.decodeLossy name).toList ↔
        IsMarked Path.dot (Utf8.encode skipMarker) name) ∧
      (∀ g : Fixture, g.path.fileName? = some name → g.isSkipped = f.isSkipped) ∧
      ∀ before : Bytes, before = [] ∨ before.getLast? = some Path.slash →
        Path.fileName? ⟨before ++ name⟩ = some name := by
  refine ⟨?_, isMarked_decodeLossy_iff name, ?_, ?_⟩
  · rw [isSkipped_of_fileName? hname, hasSkipMarker_iff, isMarked_decodeLossy_iff]
  · intro g hg
    rw [isSkipped_of_fileName? hg, isSkipped_of_fileName? hname]
  · intro before hbefore
    exact Path.fileName?_of_bytes hbefore (Path.isName_of_fileName? hname) rfl

/-- In the directory `d.skip`, `.\xff.skip` is disabled, and the hidden file `.skip.\xff` is not. -/
theorem isSkipped_iff_isMarked_stray_bytes :
    let marked : Bytes := [46, 255, 46, 115, 107, 105, 112]
    let hidden : Bytes := [46, 115, 107, 105, 112, 46, 255]
    isSkipped ⟨⟨Utf8.encode "d.skip/" ++ marked⟩, ""⟩ = true ∧
      isSkipped ⟨⟨marked ++ Utf8.encode "/./"⟩, ""⟩ = true ∧
      ¬ IsMarked Path.dot (Utf8.encode skipMarker) hidden := by
  intro marked hidden
  have hname : Path.fileName? ⟨Utf8.encode "d.skip/" ++ marked⟩ = some marked := rfl
  have hname' : Path.fileName? ⟨Utf8.encode "d.skip/" ++ hidden⟩ = some hidden := rfl
  obtain ⟨hmarked, -, hsame, -⟩ := isSkipped_iff_isMarked (f := ⟨_, ""⟩) hname
  obtain ⟨hhidden, -⟩ := isSkipped_iff_isMarked (f := ⟨_, ""⟩) hname'
  have hdisabled := hmarked.2 ⟨[46], [255, 46, 115, 107, 105, 112], [255], [], rfl,
    List.forall_mem_singleton.2 rfl, by decide, by decide, .inl rfl⟩
  have hshown : isSkipped ⟨⟨Utf8.encode "d.skip/" ++ hidden⟩, ""⟩ = false := by decide +kernel
  refine ⟨hdisabled, (hsame _ rfl).trans hdisabled, ?_⟩
  rw [← hhidden, hshown]
  nofun

end Fixture

end Conformance

import Conformance.Path

/-!
# Names and the paths made of them

`joinAll p names` is the path that goes on from `p` through a list of entry
names. Behind `p`, and the slash that `p` may lack, it is written as the names
with slashes between them, so it determines the names (`joinAll_injective`).
However `p` is spelled, the components of the path are those of `p` and then the
names (`components_joinAll`), so it ends in the last of them. The extension of a
name is what stands behind its last dot, if something stands before it.
-/

namespace Conformance

namespace Split

variable {α : Type} [DecidableEq α] {sep : α}

theorem splitAt_append_cons (sep : α) (xs ys : List α) :
    splitAt sep (xs ++ sep :: ys) = splitAt sep xs ++ splitAt sep ys := by
  induction xs with
  | nil => simp [splitAt]
  | cons x xs ih =>
      rw [List.cons_append, splitAt, splitAt, ih]
      by_cases hx : x = sep
      · simp [hx]
      · cases hs : splitAt sep xs with
        | nil => exact absurd hs (splitAt_ne_nil sep xs)
        | cons part parts => simp [hx]

theorem splitAt_of_notMem {xs : List α} (h : sep ∉ xs) : splitAt sep xs = [xs] := by
  induction xs with
  | nil => rfl
  | cons x xs ih =>
      rw [List.mem_cons, not_or] at h
      obtain ⟨hx, hxs⟩ := h
      rw [splitAt, if_neg (Ne.symm hx), ih hxs]

theorem joinWith_cons_cons {β : Type} (sep : β) (part part' : List β) (parts : List (List β)) :
    joinWith sep (part :: part' :: parts) = part ++ sep :: joinWith sep (part' :: parts) :=
  rfl

theorem splitAt_joinWith {parts : List (List α)} (hne : parts ≠ [])
    (h : ∀ part ∈ parts, sep ∉ part) : splitAt sep (joinWith sep parts) = parts := by
  induction parts with
  | nil => exact absurd rfl hne
  | cons part parts ih =>
      obtain ⟨hpart, hparts⟩ := List.forall_mem_cons.1 h
      cases parts with
      | nil => exact splitAt_of_notMem hpart
      | cons part' parts =>
          rw [joinWith_cons_cons, splitAt_append_cons, splitAt_of_notMem hpart,
            ih (by simp) hparts]
          rfl

theorem notMem_of_mem_splitAt {part xs : List α} (h : part ∈ splitAt sep xs) : sep ∉ part := by
  induction xs generalizing part with
  | nil =>
      rw [splitAt, List.mem_singleton] at h
      simp [h]
  | cons x xs ih =>
      rw [splitAt] at h
      split at h
      next =>
          rcases List.mem_cons.1 h with rfl | h
          · simp
          · exact ih h
      next hx =>
          cases hs : splitAt sep xs with
          | nil => exact absurd hs (splitAt_ne_nil sep xs)
          | cons first parts =>
              rw [hs] at h ih
              rcases List.mem_cons.1 h with rfl | h
              · rw [List.mem_cons, not_or]
                exact ⟨Ne.symm hx, ih List.mem_cons_self⟩
              · exact ih (List.mem_cons_of_mem _ h)

end Split

/-- A name that an entry of a directory can have. -/
structure IsName (name : Bytes) : Prop where
  ne_nil : name ≠ []
  ne_dot : name ≠ [Path.dot]
  ne_dots : name ≠ [Path.dot, Path.dot]
  slash_notMem : Path.slash ∉ name

instance (name : Bytes) : Decidable (IsName name) :=
  decidable_of_iff
    (name ≠ [] ∧ name ≠ [Path.dot] ∧ name ≠ [Path.dot, Path.dot] ∧ Path.slash ∉ name)
    ⟨fun ⟨hnil, hdot, hdots, hslash⟩ => ⟨hnil, hdot, hdots, hslash⟩,
      fun h => ⟨h.ne_nil, h.ne_dot, h.ne_dots, h.slash_notMem⟩⟩

namespace Path

variable {p : Path} {name : Bytes} {names names' : List Bytes}

/-- The path that goes on from `p` through entry names. -/
def joinAll (p : Path) (names : List Bytes) : Path := names.foldl (fun p name => p.join ⟨name⟩) p

@[simp] theorem joinAll_nil (p : Path) : p.joinAll [] = p := rfl

@[simp] theorem joinAll_cons (p : Path) (name : Bytes) (names : List Bytes) :
    p.joinAll (name :: names) = (p.join ⟨name⟩).joinAll names := rfl

theorem joinAll_concat (p : Path) (names : List Bytes) (name : Bytes) :
    p.joinAll (names ++ [name]) = (p.joinAll names).join ⟨name⟩ := by
  simp [joinAll]

def stem (p : Path) : Bytes :=
  if p.bytes = [] ∨ p.bytes.getLast? = some slash then p.bytes else p.bytes ++ [slash]

theorem isAbsolute_name (h : IsName name) : isAbsolute ⟨name⟩ = false := by
  obtain ⟨b, bs, rfl⟩ := List.exists_cons_of_ne_nil h.ne_nil
  have hb : b ≠ slash := by
    rintro rfl
    exact h.slash_notMem List.mem_cons_self
  simp [isAbsolute, hb]

theorem bytes_join_name (p : Path) (h : IsName name) : (p.join ⟨name⟩).bytes = p.stem ++ name := by
  rw [join, isAbsolute_name h, if_neg Bool.false_ne_true, stem]
  split
  · rfl
  · simp

theorem stem_join_name (p : Path) (h : IsName name) :
    (p.join ⟨name⟩).stem = p.stem ++ name ++ [slash] := by
  have hlast : (p.stem ++ name).getLast? ≠ some slash := by
    obtain ⟨last, hlast⟩ := Option.isSome_iff_exists.1 (List.getLast?_isSome.2 h.ne_nil)
    rw [List.getLast?_append, hlast, Option.some_or]
    intro hslash
    exact h.slash_notMem (List.mem_of_getLast? (hlast.trans hslash))
  rw [stem, bytes_join_name p h, if_neg]
  rintro (hnil | hslash)
  · exact h.ne_nil (List.append_eq_nil_iff.1 hnil).2
  · exact hlast hslash

theorem bytes_joinAll (p : Path) (hne : names ≠ []) (h : ∀ name ∈ names, IsName name) :
    (p.joinAll names).bytes = p.stem ++ Split.joinWith slash names := by
  induction names generalizing p with
  | nil => exact absurd rfl hne
  | cons name names ih =>
      obtain ⟨hname, hnames⟩ := List.forall_mem_cons.1 h
      cases names with
      | nil => exact bytes_join_name p hname
      | cons name' names =>
          rw [joinAll_cons, ih _ (by simp) hnames, stem_join_name p hname,
            Split.joinWith_cons_cons]
          simp

/-- A path determines the names it was joined from. -/
theorem joinAll_injective (hne : names ≠ []) (hne' : names' ≠ [])
    (h : ∀ name ∈ names, IsName name) (h' : ∀ name ∈ names', IsName name)
    (heq : p.joinAll names = p.joinAll names') : names = names' := by
  have hbytes := congrArg Path.bytes heq
  rw [bytes_joinAll p hne h, bytes_joinAll p hne' h'] at hbytes
  have hjoined := congrArg (Split.splitAt slash) (List.append_cancel_left hbytes)
  rwa [Split.splitAt_joinWith hne fun name hname => (h name hname).slash_notMem,
    Split.splitAt_joinWith hne' fun name hname => (h' name hname).slash_notMem] at hjoined

theorem component?_of_isName (h : IsName name) : component? name = some (.name name) := by
  simp [component?, h.ne_nil, h.ne_dot, h.ne_dots]

/-- The component that a path starts with besides its segments. -/
def opening (p : Path) : List Component :=
  if p.isAbsolute then [.root] else if p.segments.head? = some [dot] then [.here] else []

theorem components_eq (p : Path) :
    p.components = p.opening ++ p.segments.filterMap component? := by
  rw [components, opening]
  split
  · rfl
  · split <;> rfl

theorem components_name (h : IsName name) : components ⟨name⟩ = [.name name] := by
  have hsegments : segments ⟨name⟩ = [name] := Split.splitAt_of_notMem h.slash_notMem
  simp [components_eq, opening, isAbsolute_name h, hsegments, h.ne_dot, component?_of_isName h]

/-- Behind a path that is not empty, a name is one segment more, but for an empty one at the end. -/
theorem exists_segments_join (hp : p.bytes ≠ []) (h : IsName name) :
    ∃ parts, parts ≠ [] ∧ (p.join ⟨name⟩).segments = parts ++ [name] ∧
      (p.segments = parts ∨ p.segments = parts ++ [[]]) := by
  have hname := Split.splitAt_of_notMem h.slash_notMem
  by_cases hslash : p.bytes.getLast? = some slash
  · obtain ⟨bs, hbs⟩ := List.getLast?_eq_some_iff.1 hslash
    refine ⟨Split.splitAt slash bs, Split.splitAt_ne_nil slash bs, ?_, .inr ?_⟩
    · rw [segments, bytes_join_name p h, stem, if_pos (.inr hslash), hbs, List.append_assoc,
        List.singleton_append, Split.splitAt_append_cons, hname]
    · rw [segments, hbs, Split.splitAt_append_cons]
      rfl
  · refine ⟨p.segments, Split.splitAt_ne_nil slash p.bytes, ?_, .inl rfl⟩
    rw [segments, bytes_join_name p h, stem, if_neg (by simp [hp, hslash]), List.append_assoc,
      List.singleton_append, Split.splitAt_append_cons, hname, segments]

theorem isAbsolute_join_name (hp : p.bytes ≠ []) (h : IsName name) :
    (p.join ⟨name⟩).isAbsolute = p.isAbsolute := by
  obtain ⟨b, bs, hbytes⟩ := List.exists_cons_of_ne_nil hp
  have hstem : ∃ rest, p.stem = b :: rest := by
    rw [stem, hbytes]
    split
    · exact ⟨bs, rfl⟩
    · exact ⟨_, rfl⟩
  obtain ⟨rest, hrest⟩ := hstem
  rw [isAbsolute, isAbsolute, bytes_join_name p h, hrest, hbytes]
  rfl

theorem components_join_name (p : Path) (h : IsName name) :
    (p.join ⟨name⟩).components = p.components ++ [.name name] := by
  by_cases hp : p.bytes = []
  · have hjoin : p.join ⟨name⟩ = ⟨name⟩ := by
      have hbytes := bytes_join_name p h
      rw [stem, if_pos (.inl hp), hp, List.nil_append] at hbytes
      exact congrArg mk hbytes
    obtain rfl : p = ⟨[]⟩ := congrArg mk hp
    rw [hjoin, components_name h]
    rfl
  · obtain ⟨parts, hne, hsegments, hparts⟩ := exists_segments_join hp h
    obtain ⟨first, parts, rfl⟩ := List.exists_cons_of_ne_nil hne
    have hopening : (p.join ⟨name⟩).opening = p.opening := by
      rw [opening, opening, isAbsolute_join_name hp h, hsegments]
      rcases hparts with hparts | hparts <;> rw [hparts] <;> rfl
    have hbody : p.segments.filterMap component? = (first :: parts).filterMap component? := by
      rcases hparts with hparts | hparts
      · rw [hparts]
      · rw [hparts, List.filterMap_append]
        exact List.append_nil _
    have hlast : [name].filterMap component? = [.name name] := by
      rw [List.filterMap_cons_some (component?_of_isName h)]
      rfl
    rw [components_eq, components_eq p, hopening, hsegments, hbody, List.filterMap_append, hlast,
      List.append_assoc]

theorem components_joinAll (p : Path) (h : ∀ name ∈ names, IsName name) :
    (p.joinAll names).components = p.components ++ names.map .name := by
  induction names generalizing p with
  | nil => simp
  | cons name names ih =>
      obtain ⟨hname, hnames⟩ := List.forall_mem_cons.1 h
      rw [joinAll_cons, ih _ hnames, components_join_name p hname, List.append_assoc]
      rfl

theorem dropFirst?_append {α : Type} [DecidableEq α] (xs ys : List α) :
    dropFirst? xs (xs ++ ys) = some ys := by
  induction xs with
  | nil => rfl
  | cons x xs ih => rw [List.cons_append, dropFirst?, if_pos rfl, ih]

theorem relativeTo?_joinAll (p : Path) (h : ∀ name ∈ names, IsName name) :
    (p.joinAll names).relativeTo? p = some (names.map .name) := by
  rw [relativeTo?, components_joinAll p h, dropFirst?_append]

theorem fileName?_join_name (p : Path) (h : IsName name) :
    (p.join ⟨name⟩).fileName? = some name := by
  rw [fileName?, components_join_name p h, List.getLast?_concat]

theorem fileName?_of_bytes {before : Bytes} (hbefore : before = [] ∨ before.getLast? = some slash)
    (h : IsName name) (hp : p.bytes = before ++ name) : p.fileName? = some name := by
  have hjoin : p = Path.join ⟨before⟩ ⟨name⟩ := by
    have hbytes := bytes_join_name ⟨before⟩ h
    rw [stem, if_pos hbefore, ← hp] at hbytes
    exact congrArg Path.mk hbytes.symm
  rw [hjoin, fileName?_join_name ⟨before⟩ h]

theorem eq_of_component?_eq_name {segment : Bytes} (h : component? segment = some (.name name)) :
    segment = name ∧ name ≠ [] ∧ name ≠ [dot] ∧ name ≠ [dot, dot] := by
  unfold component? at h
  split at h
  next => cases h
  next hempty =>
      split at h
      next => cases h
      next hdots =>
          cases h
          rw [not_or] at hempty
          exact ⟨rfl, hempty.1, hempty.2, hdots⟩

theorem isName_of_fileName? (h : p.fileName? = some name) : IsName name := by
  have hlast : .name name ∈ p.components := by
    rw [fileName?] at h
    split at h
    next bs hbs =>
        cases h
        exact List.mem_of_getLast? hbs
    next => cases h
  rw [components_eq, List.mem_append, List.mem_filterMap] at hlast
  rcases hlast with hopening | ⟨segment, hsegment, hname⟩
  · unfold opening at hopening
    split at hopening
    · simp at hopening
    · split at hopening <;> simp at hopening
  · obtain ⟨rfl, hne, hdot, hdots⟩ := eq_of_component?_eq_name hname
    exact ⟨hne, hdot, hdots, Split.notMem_of_mem_splitAt hsegment⟩

/-- The extension of a name stands behind its last dot, and something stands before that. -/
theorem nameExtension?_eq_some_iff {extension : Bytes} :
    nameExtension? name = some extension ↔
      dot ∉ extension ∧ ∃ before, before ≠ [] ∧ name = before ++ dot :: extension := by
  constructor
  · intro h
    simp only [nameExtension?] at h
    split at h
    next a b rest hbefore =>
        cases h
        have hsplit : name.reverse = name.reverse.takeWhile (· != dot) ++ a :: b :: rest := by
          rw [← hbefore, List.takeWhile_append_dropWhile]
        have ha : a = dot := by
          have hhead := List.head_dropWhile_not (· != dot) (l := name.reverse) (by simp [hbefore])
          simpa [hbefore] using hhead
        refine ⟨?_, (b :: rest).reverse, by simp, ?_⟩
        · intro hdot
          have hpass := List.all_takeWhile (l := name.reverse) (p := (· != dot))
          rw [List.all_eq_true] at hpass
          simpa using hpass dot (List.mem_reverse.1 hdot)
        · calc
            name = (name.reverse.takeWhile (· != dot) ++ a :: b :: rest).reverse := by
              rw [← hsplit, List.reverse_reverse]
            _ = (b :: rest).reverse ++ dot :: (name.reverse.takeWhile (· != dot)).reverse := by
              simp [ha]
    next => cases h
  · rintro ⟨hdot, before, hne, rfl⟩
    have hbare : ∀ b ∈ extension.reverse, (b != dot) = true := by
      intro b hb
      rw [bne_iff_ne]
      rintro rfl
      exact hdot (List.mem_reverse.1 hb)
    obtain ⟨rest, last, rfl⟩ := List.eq_nil_or_concat before |>.resolve_left hne
    simp only [nameExtension?, List.reverse_append, List.reverse_cons, List.append_assoc,
      List.singleton_append, List.takeWhile_append_of_pos hbare,
      List.dropWhile_append_of_pos hbare]
    simp

theorem extension?_join_name_eq_some_iff (p : Path) (h : IsName name) {extension : Bytes} :
    (p.join ⟨name⟩).extension? = some extension ↔
      dot ∉ extension ∧ ∃ before, before ≠ [] ∧ name = before ++ dot :: extension := by
  rw [extension?, fileName?_join_name p h, Option.bind_some, nameExtension?_eq_some_iff]

end Path

end Conformance

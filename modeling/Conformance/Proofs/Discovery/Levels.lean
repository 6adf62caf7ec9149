import Conformance.Proofs.Discovery.Fixtures

/-!
# Files and what is below subdirectories

The fixtures under a root stand in the order of their routes
(`sublist_collect_iff`). At the first name that differs the order asks whether an
entry is itself a directory, and a link is not, wherever it leads. A fixture in a
directory therefore precedes all that is below the directories beside it, but of
what is below a link only that which its name precedes
(`precedes_append_iff`).
-/

namespace Conformance

namespace Discovery

theorem pair_sublist_iff {α : Type} {r : α → α → Prop} {l : List α} {a b : α}
    (hasymm : ∀ {a b}, r a b → ¬ r b a) (hl : l.Pairwise r) (ha : a ∈ l) (hb : b ∈ l)
    (hne : a ≠ b) : [a, b].Sublist l ↔ r a b := by
  rw [List.pairwise_iff_forall_sublist] at hl
  refine ⟨hl, fun hab => ?_⟩
  obtain ⟨before, after, rfl⟩ := List.append_of_mem ha
  rcases List.mem_append.1 hb with hb | hb
  · have hba : [b, a].Sublist (before ++ a :: after) :=
      (List.singleton_sublist.2 hb).append (List.singleton_sublist.2 List.mem_cons_self)
    exact absurd (hl hba) (hasymm hab)
  · have hb : b ∈ after := (List.mem_cons.1 hb).resolve_left hne.symm
    exact ((List.singleton_sublist.2 hb).cons_cons a).trans (List.sublist_append_right before _)

variable {w : World} {dir : Ancestor} {way : List Ancestor} {file sub : Bytes}
  {names rest route route' : List Bytes} {extension : String} {ends : Ancestor → Bytes → Prop}
  {root : Path} {loc : Location} {es : List (Bytes × Entry)}

theorem sublist_collect_iff (hw : w.files.WellFormed)
    (hroot : w.find true root = .ok (loc, .directory es))
    (h : Route w (IsFixtureAt w extension) [⟨root, loc⟩] route)
    (h' : Route w (IsFixtureAt w extension) [⟨root, loc⟩] route') (hne : route ≠ route') :
    [Fixture.ofPath (root.joinAll route) root, Fixture.ofPath (root.joinAll route') root].Sublist
        (collect w root extension).1 ↔
      Precedes w [⟨root, loc⟩] route route' := by
  obtain ⟨routes, hfixtures, hmem, hnodup, hordered⟩ := exists_fixture_routes hw hroot extension
  have hinjective {r r' : List Bytes} (hr : r ∈ routes) (hr' : r' ∈ routes)
      (heq : Fixture.ofPath (root.joinAll r) root = Fixture.ofPath (root.joinAll r') root) :
      r = r' := List.inj_on_of_nodup_map hnodup hr hr' (congrArg Fixture.path heq)
  rw [← pair_sublist_iff Precedes.asymm hordered ((hmem _).2 h) ((hmem _).2 h') hne, hfixtures,
    List.sublist_map_iff]
  constructor
  · rintro ⟨pair, hpair, heq⟩
    obtain ⟨r, r', rfl⟩ : ∃ r r', pair = [r, r'] :=
      List.length_eq_two.1 (by simpa using (congrArg List.length heq).symm)
    rw [List.map_cons, List.map_cons, List.map_nil, List.cons.injEq, List.cons.injEq] at heq
    rw [hinjective ((hmem _).2 h) (hpair.subset (by simp)) heq.1,
      hinjective ((hmem _).2 h') (hpair.subset (by simp)) heq.2.1]
    exact hpair
  · exact fun hpair => ⟨_, hpair, rfl⟩

/-- The entry is itself a directory, whether or not the walk is let into it. -/
def HoldsDirectory (w : World) (dir : Ancestor) (name : Bytes) : Prop :=
  IsDirectoryAt w.files (dir.location ++ [name])

theorem LeadsToFile.not_holdsDirectory (h : LeadsToFile w dir file) :
    ¬ HoldsDirectory w dir file := by
  intro hdirectory
  cases h with
  | file h =>
      obtain ⟨es, hes⟩ := hdirectory
      simp [hes] at h
  | link h => exact hdirectory.not_isLinkAt h

theorem before_iff_of_leadsToFile (h : LeadsToFile w dir file) :
    Before w.files dir.location file sub ↔ HoldsDirectory w dir sub ∨ file < sub := by
  have hfile : ¬ IsDirectoryAt w.files (dir.location ++ [file]) := h.not_holdsDirectory
  rw [Before, HoldsDirectory]
  by_cases hsub : IsDirectoryAt w.files (dir.location ++ [sub]) <;> simp [hfile, hsub]

/-- A file precedes what is below an entry beside it if that entry is itself a directory, or else if
its name precedes that of the entry. -/
theorem precedes_append_iff (h : Route w (LeadsToFile w) way (names ++ [file]))
    (h' : Route w ends way (names ++ sub :: rest)) :
    Precedes w way (names ++ [file]) (names ++ sub :: rest) ↔
      Route w (HoldsDirectory w) way (names ++ [sub]) ∨ file < sub := by
  induction names generalizing way with
  | nil =>
      cases h with
      | enter henters next => exact absurd next not_route_nil
      | last hfile =>
          rw [List.nil_append, List.nil_append, List.nil_append, route_singleton_iff,
            ← before_iff_of_leadsToFile hfile]
          constructor
          · intro hprecedes
            cases hprecedes with
            | differ hbefore => exact hbefore
            | enter henters => exact absurd henters hfile.not_enters
          · exact .differ
  | cons name names ih =>
      obtain ⟨dir, above, target, rfl, henters⟩ := Route.exists_enters h (by simp)
      rw [List.cons_append, route_cons_iff henters (by simp)] at h h'
      rw [List.cons_append, List.cons_append, List.cons_append, route_cons_iff henters (by simp),
        ← ih h h']
      constructor
      · intro hprecedes
        cases hprecedes with
        | differ hbefore => exact absurd rfl hbefore.ne
        | enter henters' next => exact henters.unique henters' ▸ next
      · exact .enter henters

/-- In every directory that is entered under a root, a fixture precedes the fixtures below an entry
beside it exactly if that entry is itself a directory or has the greater name. -/
theorem fixture_precedes_below_iff (hw : w.files.WellFormed)
    (hroot : w.find true root = .ok (loc, .directory es))
    (hfile : Route w (IsFixtureAt w extension) [⟨root, loc⟩] (names ++ [file]))
    (hbelow : Route w (IsFixtureAt w extension) [⟨root, loc⟩] (names ++ sub :: rest))
    (hrest : rest ≠ []) :
    [Fixture.ofPath (root.joinAll (names ++ [file])) root,
        Fixture.ofPath (root.joinAll (names ++ sub :: rest)) root].Sublist
        (collect w root extension).1 ↔
      Route w (HoldsDirectory w) [⟨root, loc⟩] (names ++ [sub]) ∨ file < sub := by
  have hne : names ++ [file] ≠ names ++ sub :: rest := by
    intro heq
    rw [List.append_cancel_left_eq, List.cons.injEq] at heq
    exact hrest heq.2.symm
  rw [sublist_collect_iff hw hroot hfile hbelow hne]
  exact precedes_append_iff (hfile.mono fun _ _ hfixture => hfixture.1) hbelow

/-- The suite `/s` holds the file `z.f`, the directory `d` with `y.f` in it, and the link `a` to
`/o`, in which there is `x.f`. -/
def mixedWorld : World where
  files := ⟨[([115], .directory [([122, 46, 102], .file [] false), ([97], .link ⟨[47, 111]⟩),
      ([100], .directory [([121, 46, 102], .file [] false)])]),
    ([111], .directory [([120, 46, 102], .file [] false)])]⟩
  cwd := some []
  environment := ⟨[]⟩

theorem mixedWorld_wellFormed : mixedWorld.files.WellFormed := by
  refine .directory (by decide) (by decide) (List.forall_mem_cons.2 ⟨?_, ?_⟩)
  · refine .directory (by decide) (by decide) (List.forall_mem_cons.2 ⟨.file _ _, ?_⟩)
    refine List.forall_mem_cons.2 ⟨.link _, List.forall_mem_singleton.2 ?_⟩
    exact .directory (by decide) (by decide) (List.forall_mem_singleton.2 (.file _ _))
  · refine List.forall_mem_singleton.2 (.directory (by decide) (by decide) ?_)
    exact List.forall_mem_singleton.2 (.file _ _)

theorem isFixtureName_f (b : UInt8) : IsFixtureName "f" [b, 46, 102] :=
  ⟨by decide, [b], by simp, rfl⟩

theorem mixedWorld_route_file :
    Route mixedWorld (IsFixtureAt mixedWorld "f") [⟨⟨[47, 115]⟩, [[115]]⟩] [[122, 46, 102]] :=
  .last ⟨.file rfl, isFixtureName_f 122⟩

/-- The file precedes what is in the directory, although its name is the greater one. -/
theorem fixture_precedes_below_iff_directory :
    [Fixture.ofPath ⟨Utf8.encode "/s/z.f"⟩ ⟨[47, 115]⟩,
      Fixture.ofPath ⟨Utf8.encode "/s/d/y.f"⟩ ⟨[47, 115]⟩].Sublist
        (collect mixedWorld ⟨[47, 115]⟩ "f").1 := by
  have hbelow : Route mixedWorld (IsFixtureAt mixedWorld "f") [⟨⟨[47, 115]⟩, [[115]]⟩]
      [[100], [121, 46, 102]] := by
    refine .enter (.directory ⟨_, rfl⟩ rfl) (.last ⟨.file rfl, ?_⟩)
    exact isFixtureName_f 121
  have hroot : mixedWorld.find true ⟨[47, 115]⟩ = .ok ([[115]], .directory _) := rfl
  have hfile : Route mixedWorld (IsFixtureAt mixedWorld "f") [⟨⟨[47, 115]⟩, [[115]]⟩]
      ([] ++ [[122, 46, 102]]) := mixedWorld_route_file
  refine (fixture_precedes_below_iff mixedWorld_wellFormed hroot hfile hbelow (by decide)).2
    (.inl ?_)
  exact .last ⟨_, rfl⟩

/-- The file comes behind what is below the link, which leads to a directory. -/
theorem collect_link_before_file :
    let file := Fixture.ofPath ⟨Utf8.encode "/s/z.f"⟩ ⟨[47, 115]⟩
    let below := Fixture.ofPath ⟨Utf8.encode "/s/a/x.f"⟩ ⟨[47, 115]⟩
    [below, file].Sublist (collect mixedWorld ⟨[47, 115]⟩ "f").1 ∧
      ¬ [file, below].Sublist (collect mixedWorld ⟨[47, 115]⟩ "f").1 := by
  intro file below
  have henters : Enters mixedWorld ⟨⟨[47, 115]⟩, [[115]]⟩ [] [97] [[111]] :=
    .link ⟨_, rfl⟩ rfl ⟨_, rfl⟩ (by decide)
  have hbelow : Route mixedWorld (IsFixtureAt mixedWorld "f") [⟨⟨[47, 115]⟩, [[115]]⟩]
      [[97], [120, 46, 102]] := by
    refine .enter henters (.last ⟨.file rfl, ?_⟩)
    exact isFixtureName_f 120
  have hroot : mixedWorld.find true ⟨[47, 115]⟩ = .ok ([[115]], .directory _) := rfl
  have hprecedes :
      Precedes mixedWorld [⟨⟨[47, 115]⟩, [[115]]⟩] [[97], [120, 46, 102]] [[122, 46, 102]] := by
    refine .differ (.inr ⟨iff_of_false ?_ ?_, by decide⟩)
    · rintro ⟨es, ⟨⟩⟩
    · rintro ⟨es, ⟨⟩⟩
  constructor
  · exact (sublist_collect_iff mixedWorld_wellFormed hroot hbelow mixedWorld_route_file
      (by decide)).2 hprecedes
  · intro hsublist
    exact hprecedes.asymm ((sublist_collect_iff mixedWorld_wellFormed hroot mixedWorld_route_file
      hbelow (by decide)).1 hsublist)

end Discovery

end Conformance

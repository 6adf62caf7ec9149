import Conformance.Proofs.Discovery.Obstacles
import Conformance.Proofs.Text.Lossy

/-!
# Identifiers of fixtures

However a root is spelled, the components of a path that goes on from it through
names are those of the root and then the names (`Path.components_joinAll`). So
taking the root away leaves the names, and the identifier is the relative path as
it is shown (`Fixture.identify_joinAll`). Slashes are found again in what is
shown, so names that are texts are found again in the identifier; of other names
it keeps what is shown for them. The root has no part in it, and the same tree
has the same identifiers under every root, as far as the operating system accepts
the same paths below both (`Discovery.ShownAlike`).
-/

namespace Conformance

theorem Split.joinWith_eq_intercalate {α : Type} (sep : α) (parts : List (List α)) :
    joinWith sep parts = [sep].intercalate parts := by
  induction parts with
  | nil => rfl
  | cons part parts ih =>
      cases parts with
      | nil => simp [joinWith]
      | cons next parts => rw [joinWith_cons_cons, ih, List.intercalate_cons_cons]; simp

theorem spells_slash : Utf8.Spells [Path.slash] '/' := Utf8.spells_encodeChar '/'

/-- A text that holds no slash, and is neither empty nor made of one or two dots, is a name. -/
theorem isName_encode {name : String} (hempty : name ≠ "") (hdot : name ≠ ".") (hdots : name ≠ "..")
    (hslash : '/' ∉ name.toList) : IsName (Utf8.encode name) := by
  have hinjective : Function.Injective Utf8.encode :=
    Function.LeftInverse.injective Utf8.decodeLossy_encode
  have hne (s : String) (hs : name ≠ s) : Utf8.encode name ≠ Utf8.encode s := hinjective.ne hs
  refine ⟨hne "" hempty, hne "." hdot, hne ".." hdots, ?_⟩
  intro hmem
  obtain ⟨before, after, hname⟩ := List.append_of_mem hmem
  have hshown := spells_slash.toList_decodeLossy_append before after
  rw [← hname, Utf8.decodeLossy_encode] at hshown
  simp [hshown] at hslash

theorem map_encode_map_decodeLossy {names : List Bytes}
    (h : ∀ name ∈ names, (Utf8.decode? name).isSome) :
    (names.map Utf8.decodeLossy).map Utf8.encode = names := by
  rw [List.map_map]
  refine (List.map_congr_left fun name hname => ?_).trans (List.map_id names)
  obtain ⟨s, hs⟩ := Option.isSome_iff_exists.1 (h name hname)
  rw [← Utf8.encode_of_decode? hs, Function.comp_apply, Utf8.decodeLossy_encode, id_eq]

theorem World.get?_below_find {w : World} {root : Path} {loc : Location}
    {es : List (Bytes × Entry)} (hw : w.files.WellFormed)
    (h : w.find true root = .ok (loc, .directory es)) {names : List Bytes} (hne : names ≠ []) :
    w.files.get? (loc ++ names) = (Entry.directory es).get? names := by
  rcases get?_of_find h with ⟨rfl, hnil⟩ | hget
  · obtain ⟨name, names, rfl⟩ := List.exists_cons_of_ne_nil hne
    rw [FileSystem.get?_append_of_none (get?_removed hw), hnil]
    rfl
  · rw [FileSystem.get?, Entry.get?_append]
    rw [FileSystem.get?] at hget
    rw [hget, Option.bind_some]

namespace Fixture

variable {names names' : List Bytes}

theorem identify_joinAll_eq_intercalate (root : Path) (h : ∀ name ∈ names, IsName name) :
    identify (root.joinAll names) root = "/".intercalate (names.map Utf8.decodeLossy) := by
  have hparts : (names.map Path.Component.name).filterMap idPart? =
      names.map Utf8.decodeLossy := by
    rw [List.filterMap_map]
    exact congrFun List.filterMap_eq_map names
  rw [identify, Path.relativeTo?_joinAll root h, Option.getD_some, hparts]

theorem identify_joinAll (root : Path) (h : ∀ name ∈ names, IsName name) :
    identify (root.joinAll names) root = Utf8.decodeLossy (Split.joinWith Path.slash names) := by
  rw [identify_joinAll_eq_intercalate root h, ← String.toList_inj, String.toList_intercalate,
    spells_slash.toList_decodeLossy_joinWith, Split.joinWith_eq_intercalate, List.map_map]
  rfl

/-- Between the slashes of an identifier stand the names as they are shown. -/
theorem splitAt_identify_joinAll (root : Path) (hne : names ≠ [])
    (h : ∀ name ∈ names, IsName name) :
    Split.splitAt '/' (identify (root.joinAll names) root).toList =
      (names.map Utf8.decodeLossy).map String.toList := by
  rw [identify_joinAll root h, spells_slash.splitAt_decodeLossy,
    Split.splitAt_joinWith hne fun name hname => (h name hname).slash_notMem, List.map_map]
  rfl

theorem eq_of_identify_eq {root root' : Path} (hne : names ≠ []) (hne' : names' ≠ [])
    (h : ∀ name ∈ names, IsName name) (h' : ∀ name ∈ names', IsName name)
    (htext : ∀ name ∈ names, (Utf8.decode? name).isSome)
    (htext' : ∀ name ∈ names', (Utf8.decode? name).isSome)
    (heq : identify (root.joinAll names) root = identify (root'.joinAll names') root') :
    names = names' := by
  have hshown := splitAt_identify_joinAll root hne h
  rw [heq, splitAt_identify_joinAll root' hne' h'] at hshown
  have htexts : names'.map Utf8.decodeLossy = names.map Utf8.decodeLossy :=
    List.map_injective_iff.2 (fun _ _ => String.toList_injective) hshown
  rw [← map_encode_map_decodeLossy htext, ← map_encode_map_decodeLossy htext', htexts]

end Fixture

namespace Discovery

variable {w w' : World} {root root' : Path} {loc loc' : Location} {es es' : List (Bytes × Entry)}
  {route : List Bytes}

theorem isName_of_fixture_route {extension : String} {way : List Ancestor}
    (hw : w.files.WellFormed) (h : Route w (IsFixtureAt w extension) way route) :
    ∀ name ∈ route, IsName name :=
  (h.mono fun _ _ hfixture => hfixture.1.holds).isName hw

def identifiers (w : World) (root : Path) (extension : String) : List String :=
  (collect w root extension).1.map Fixture.id

/-- The fixtures of the same tree have the same identifiers, whatever the roots, if limits do not
tell the walks apart. -/
theorem identifiers_eq (hw : w.files.WellFormed) (hw' : w'.files.WellFormed)
    (h : w.find true root = .ok (loc, .directory es))
    (h' : w'.find true root' = .ok (loc', .directory es'))
    (hsame : SameTree w.files loc w'.files loc')
    (hshown : ShownAlike w [⟨root, loc⟩] w' [⟨root', loc'⟩]) (extension : String) :
    identifiers w root extension = identifiers w' root' extension := by
  obtain ⟨hgrants, hgrants'⟩ := hsame.grants_both hw hw' (World.locate_eq_ok_iff.2 ⟨_, h⟩)
    (World.locate_eq_ok_iff.2 ⟨_, h'⟩) hshown
  obtain ⟨routes, hroutes, hfixtures, hfixtures'⟩ :=
    exists_same_routes hw hw' h h' hsame hgrants hgrants' extension
  rw [identifiers, identifiers, hfixtures, hfixtures', List.map_map, List.map_map]
  refine List.map_congr_left fun route hroute => ?_
  have hnames := isName_of_fixture_route hw (hroutes route hroute)
  simp only [Function.comp_apply, Fixture.ofPath, Fixture.identify_joinAll _ hnames]

/-- Copies of a directory without links are the same tree. -/
theorem sameTree_of_find (hw : w.files.WellFormed) (hw' : w'.files.WellFormed)
    (h : w.find true root = .ok (loc, .directory es))
    (h' : w'.find true root' = .ok (loc', .directory es))
    (hplain : ∀ names path, (Entry.directory es).get? names ≠ some (.link path)) :
    SameTree w.files loc w'.files loc' := by
  refine sameTree_of_copies ?_ ?_
  · intro names hne
    rw [World.get?_below_find hw h hne, World.get?_below_find hw' h' hne]
  · intro names path hne
    rw [World.get?_below_find hw h hne]
    exact hplain names path

/-- Routes through texts are told apart by their identifiers. -/
theorem pairwise_identify_ne (hw : w.files.WellFormed)
    (h : w.find true root = .ok (loc, .directory es)) (extension : String) :
    ∃ routes : List (List Bytes),
      (collect w root extension).1 =
        routes.map (fun route => Fixture.ofPath (root.joinAll route) root) ∧
      (∀ route ∈ routes, route ≠ [] ∧ ∀ name ∈ route, IsName name) ∧
      routes.Pairwise fun route route' =>
        (∀ name ∈ route ++ route', (Utf8.decode? name).isSome) →
          Fixture.identify (root.joinAll route) root ≠
            Fixture.identify (root.joinAll route') root := by
  obtain ⟨routes, hfixtures, hmem, -, hordered⟩ := exists_fixture_routes hw h extension
  have hnames : ∀ route ∈ routes, route ≠ [] ∧ ∀ name ∈ route, IsName name := by
    intro route hroute
    have hfixture := (hmem route).1 hroute
    exact ⟨hfixture.ne_nil, isName_of_fixture_route hw hfixture⟩
  refine ⟨routes, hfixtures, hnames, hordered.imp_of_mem ?_⟩
  intro route route' hroute hroute' hprecedes htext heq
  obtain ⟨htext, htext'⟩ := List.forall_mem_append.1 htext
  obtain ⟨hne, hname⟩ := hnames route hroute
  obtain ⟨hne', hname'⟩ := hnames route' hroute'
  exact hprecedes.ne (Fixture.eq_of_identify_eq hne hne' hname hname' htext htext' heq)

/-- The identifier of a path that goes on from a root through texts, however the root is spelled, is
the texts with slashes between them, in which they are found again. Names that are not texts share
an identifier exactly if the same is shown for the paths below the root. So under one root routes
through texts have distinct identifiers, and the same tree has the same list of them under every
root where the limits of the operating system do not tell the walks apart; in particular under two
spellings of one root, and where a tree without links is copied. -/
theorem identifiers_faithful_and_relocatable :
    (∀ (root : Path) (names : List String), names ≠ [] →
      (∀ name ∈ names, name ≠ "" ∧ name ≠ "." ∧ name ≠ ".." ∧ '/' ∉ name.toList) →
      Fixture.identify (root.joinAll (names.map Utf8.encode)) root = "/".intercalate names ∧
      Split.splitAt '/' ("/".intercalate names).toList = names.map String.toList) ∧
    (∀ (root root' : Path) (names names' : List Bytes),
      (∀ name ∈ names, IsName name) → (∀ name ∈ names', IsName name) →
      (Fixture.identify (root.joinAll names) root = Fixture.identify (root'.joinAll names') root' ↔
        Utf8.decodeLossy (Split.joinWith Path.slash names) =
          Utf8.decodeLossy (Split.joinWith Path.slash names'))) ∧
    (∀ (w : World) (root : Path) (loc : Location) (es : List (Bytes × Entry)) (extension : String),
      w.files.WellFormed → w.find true root = .ok (loc, .directory es) →
      ∃ routes : List (List Bytes),
        (collect w root extension).1 =
          routes.map (fun route => Fixture.ofPath (root.joinAll route) root) ∧
        (∀ route ∈ routes, route ≠ [] ∧ ∀ name ∈ route, IsName name) ∧
        routes.Pairwise fun route route' =>
          (∀ name ∈ route ++ route', (Utf8.decode? name).isSome) →
            Fixture.identify (root.joinAll route) root ≠
              Fixture.identify (root.joinAll route') root) ∧
    (∀ (w w' : World) (root root' : Path) (loc loc' : Location) (es es' : List (Bytes × Entry))
      (extension : String), w.files.WellFormed → w'.files.WellFormed →
      w.find true root = .ok (loc, .directory es) →
      w'.find true root' = .ok (loc', .directory es') →
      (SameTree w.files loc w'.files loc' ∨ (w = w' ∧ loc = loc') ∨
        (es = es' ∧ ∀ names path, (Entry.directory es).get? names ≠ some (.link path))) →
      ShownAlike w [⟨root, loc⟩] w' [⟨root', loc'⟩] →
      identifiers w root extension = identifiers w' root' extension) := by
  refine ⟨?_, ?_, ?_, ?_⟩
  · intro root names hne hnames
    have hname : ∀ name ∈ names.map Utf8.encode, IsName name := by
      refine List.forall_mem_map.2 fun name hmem => ?_
      obtain ⟨hempty, hdot, hdots, hslash⟩ := hnames name hmem
      exact isName_encode hempty hdot hdots hslash
    have htexts : (names.map Utf8.encode).map Utf8.decodeLossy = names := by
      rw [List.map_map]
      refine (List.map_congr_left fun name _ => ?_).trans (List.map_id names)
      exact Utf8.decodeLossy_encode name
    have hid := Fixture.identify_joinAll_eq_intercalate root hname
    have hsplit := Fixture.splitAt_identify_joinAll root (by simpa using hne) hname
    rw [htexts] at hid hsplit
    exact ⟨hid, hid ▸ hsplit⟩
  · intro root root' names names' hnames hnames'
    rw [Fixture.identify_joinAll root hnames, Fixture.identify_joinAll root' hnames']
  · intro w root loc es extension hw h
    exact pairwise_identify_ne hw h extension
  · intro w w' root root' loc loc' es es' extension hw hw' h h' hsame hshown
    have htree : SameTree w.files loc w'.files loc' := by
      rcases hsame with hsame | ⟨rfl, rfl⟩ | ⟨rfl, hplain⟩
      · exact hsame
      · exact sameTree_refl w.files loc
      · exact sameTree_of_find hw hw' h h' hplain
    exact identifiers_eq hw hw' h h' htree hshown extension

/-- The suite of `linkedWorld` is walked without a warning by every path that the link can be looked
at behind. -/
theorem unhindered_linkedWorld (hroot : linkedWorld.find true root =
      .ok ([[115]], .directory [([46, 102], .file [] false), ([108], .link ⟨[47, 111]⟩)]))
    (hlink : linkedWorld.locate (root.join ⟨[108]⟩) = .ok [[111]]) :
    Unhindered linkedWorld [⟨root, [[115]]⟩] := by
  have hdirectory : linkedWorld.files.get? [[111]] =
      some (.directory [([98, 46, 102], .file [] false)]) := rfl
  have horder : inOrder [([46, 102], .file [] false), ([108], .link ⟨[47, 111]⟩)] =
      [([46, 102], .file [] false), ([108], .link ⟨[47, 111]⟩)] :=
    List.mergeSort_of_pairwise (by decide)
  have hnew : ([⟨root, [[115]]⟩] : List Ancestor).find? (fun a => a.location == [[111]]) = none :=
    rfl
  have hwarnings : (collect linkedWorld root "f").2 = [] := by
    rw [collect, walk_of_find hroot, horder]
    simp only [visit, hlink]
    split
    next inner hinner =>
        cases hdirectory.symm.trans hinner
        split
        next a hfind => cases hnew.symm.trans hfind
        next => simp [inOrder_singleton, visit, Visit.warning?]
    next content executable hfile => cases hdirectory.symm.trans hfile
    next hnot _ => exact absurd hdirectory (hnot _)
  exact unhindered_of_no_warning linkedWorld_wellFormed hroot hwarnings

/-- Below `.//s/../`, `é/b.f` is named as it is written, and `\xff` and `\xfe` are named alike. The
suite of `linkedWorld` has the same identifiers as `/s` and as `/./s//`. -/
theorem identifiers_faithful_and_relocatable_odd_roots :
    let root := Path.ofText ".//s/../"
    Fixture.identify (root.joinAll (["é", "b.f"].map Utf8.encode)) root = "é/b.f" ∧
      Fixture.identify (root.joinAll [[255]]) root = Fixture.identify (root.joinAll [[254]]) root ∧
      identifiers linkedWorld ⟨[47, 115]⟩ "f" =
        identifiers linkedWorld ⟨[47, 46, 47, 115, 47, 47]⟩ "f" := by
  intro root
  obtain ⟨hjoined, hshared, -, hrelocated⟩ := identifiers_faithful_and_relocatable
  have hroot : linkedWorld.find true ⟨[47, 115]⟩ = .ok ([[115]], _) := rfl
  have hroot' : linkedWorld.find true ⟨[47, 46, 47, 115, 47, 47]⟩ = .ok ([[115]], _) := rfl
  refine ⟨?_, ?_, ?_⟩
  · exact (hjoined root ["é", "b.f"] (by decide) (by decide)).1
  · exact (hshared root root [[255]] [[254]] (by decide) (by decide)).2 (by decide +kernel)
  · exact hrelocated linkedWorld linkedWorld _ _ _ _ _ _ "f" linkedWorld_wellFormed
      linkedWorld_wellFormed hroot hroot' (.inr (.inl ⟨rfl, rfl⟩)) (.inl
        ⟨unhindered_linkedWorld hroot rfl, unhindered_linkedWorld hroot' rfl⟩)

/-- One directory by two paths: a fixture below the first has an identifier, and below the second,
which is longer, nothing is found. -/
theorem identifiers_differ_at_limit :
    deepWorld.locate ⟨[46]⟩ = .ok [] ∧ deepWorld.locate (.stays 2047) = .ok [] ∧
      "dd/x.f" ∈ identifiers deepWorld ⟨[46]⟩ "f" ∧
      identifiers deepWorld (.stays 2047) "f" = [] := by
  have hstays := World.find_stays (w := deepWorld) (n := 2047) rfl rfl (by decide) (by decide)
    (by decide)
  refine ⟨rfl, World.locate_eq_ok_iff.2 ⟨_, hstays⟩, ?_, ?_⟩
  · have hroute : Route deepWorld (IsFixtureAt deepWorld "f") [⟨⟨[46]⟩, []⟩]
        [[100, 100], [120, 46, 102]] := by
      refine .enter (.directory ⟨_, rfl⟩ rfl) (.last ⟨.file rfl, ?_⟩)
      exact ⟨by decide, [120], by decide, by decide⟩
    have hroot : deepWorld.find true ⟨[46]⟩ = .ok ([], _) := rfl
    obtain ⟨routes, hfixtures, hmem, -, -⟩ := exists_fixture_routes deepWorld_wellFormed hroot "f"
    rw [identifiers, hfixtures, List.map_map]
    exact List.mem_map.2 ⟨_, (hmem _).2 hroute, by decide +kernel⟩
  · rw [identifiers, collect, walk_deepWorld]
    rfl

end Discovery

end Conformance

import Conformance.Proofs.Discovery.Matching
import Conformance.Proofs.Program.Plan
import Mathlib.Data.List.Sort

/-!
# The fixtures of a suite

The fixtures under a directory are the routes to files of the right name
(`IsFixtureAt`), each once, in the order of `Precedes`. A list without
repetitions is determined by its members and its order, and both are the same
wherever the tree is the same and the same paths are accepted
(`exists_same_routes`). In particular the fixtures do not depend on how
directories list their entries (`FileSystem.Alike`).

A route goes only where the operating system accepts the path so far. It accepts
no path of more than `maxPath` bytes and none with more than `maxLinks` links on
it, so a directory or a link can be sound and yet have nothing below it.
-/

namespace Conformance

namespace Discovery

/-- The name has a non-empty stem and the extension, which is what stands behind its last dot. -/
def IsFixtureName (extension : String) (name : Bytes) : Prop :=
  Path.dot ∉ Utf8.encode extension ∧
    ∃ before, before ≠ [] ∧ name = before ++ Path.dot :: Utf8.encode extension

def IsFixtureAt (w : World) (extension : String) (dir : Ancestor) (name : Bytes) : Prop :=
  LeadsToFile w dir name ∧ IsFixtureName extension name

variable {fs : FileSystem} {w : World} {dir : Ancestor} {loc target : Location}
  {above way : List Ancestor} {name name' : Bytes} {names names' : List Bytes}
  {extension : String} {ends : Ancestor → Bytes → Prop}

theorem Route.isName (hw : w.files.WellFormed) (h : Route w (Holds w) way names) :
    ∀ name ∈ names, IsName name := by
  induction h with
  | last h => exact List.forall_mem_singleton.2 (h.isName hw)
  | enter h next ih => exact List.forall_mem_cons.2 ⟨h.holds.isName hw, ih⟩

theorem getLast?_cons_of_route (h : Route w ends way names) :
    (name :: names).getLast? = names.getLast? := by
  obtain ⟨name', rest, rfl⟩ := List.exists_cons_of_ne_nil h.ne_nil
  rw [List.getLast?_cons_cons]

theorem route_and_iff {p : Bytes → Prop} :
    Route w (fun dir name => ends dir name ∧ p name) way names ↔
      Route w ends way names ∧ ∀ name ∈ names.getLast?, p name := by
  constructor
  · intro h
    induction h with
    | last h =>
        refine ⟨.last h.1, ?_⟩
        rintro name ⟨⟩
        exact h.2
    | enter h next ih => exact ⟨.enter h ih.1, getLast?_cons_of_route next ▸ ih.2⟩
  · rintro ⟨h, hlast⟩
    induction h with
    | last h => exact .last ⟨h, hlast _ rfl⟩
    | enter h next ih => exact .enter h (ih (getLast?_cons_of_route next ▸ hlast))

/-- Nothing is below what leads to a file. -/
theorem Route.eq_of_append (h : Route w (LeadsToFile w) way names)
    (h' : Route w ends way (names ++ names')) : names' = [] := by
  by_contra hne
  induction h with
  | last h => exact not_route_cons (fun target => h.not_enters) hne h'
  | enter h next ih => exact ih ((route_cons_iff h (by simp [hne])).1 h')

theorem Before.asymm (h : Before fs loc name name') : ¬ Before fs loc name' name := by
  intro h'
  rcases h with ⟨hnot, hdirectory⟩ | ⟨hsame, hlt⟩
  · rcases h' with ⟨hnot', -⟩ | ⟨hsame, -⟩
    · exact hnot' hdirectory
    · exact hnot (hsame.1 hdirectory)
  · rcases h' with ⟨hnot', hdirectory⟩ | ⟨-, hlt'⟩
    · exact hnot' (hsame.1 hdirectory)
    · exact List.lt_irrefl name (List.lt_trans hlt hlt')

theorem Precedes.asymm (h : Precedes w way names names') : ¬ Precedes w way names' names := by
  intro h'
  induction h with
  | differ h =>
      cases h' with
      | differ h' => exact h.asymm h'
      | enter => exact h.ne rfl
  | enter h next ih =>
      cases h' with
      | differ h' => exact h'.ne rfl
      | enter h' next' => exact ih (h.unique h' ▸ next')

theorem fixture?_eq_some_iff {v : Visit} {p : Path} :
    v.fixture? extension = some p ↔
      (v.IsFile ∧ v.path.extension? = some (Utf8.encode extension)) ∧ v.path = p := by
  cases v <;> simp [Visit.fixture?, Visit.IsFile, Visit.path]

theorem fixture?_of_sees {route : List Bytes} {v : Visit} {p : Path} (h : Sees w dir above route v)
    (hne : route ≠ []) (hnames : ∀ name ∈ route, IsName name) :
    v.fixture? extension = some p ↔
      Route w (IsFixtureAt w extension) (dir :: above) route ∧ dir.path.joinAll route = p := by
  obtain ⟨names, name, rfl⟩ := (List.eq_nil_or_concat route).resolve_left hne
  rw [List.concat_eq_append] at h hnames ⊢
  have hextension : (dir.path.joinAll (names ++ [name])).extension? =
      some (Utf8.encode extension) ↔ IsFixtureName extension name := by
    rw [Path.joinAll_concat]
    exact Path.extension?_join_name_eq_some_iff (dir.path.joinAll names) (hnames name (by simp))
  have hfixture : Route w (IsFixtureAt w extension) (dir :: above) (names ++ [name]) ↔
      Route w (LeadsToFile w) (dir :: above) (names ++ [name]) ∧ IsFixtureName extension name := by
    refine (route_and_iff (p := IsFixtureName extension)).trans ?_
    simp
  rw [fixture?_eq_some_iff, h.isFile_iff, h.path_eq, hextension, hfixture]

open Classical in
theorem filterMap_fixture?_of_sees {routes : List (List Bytes)} {visits : List Visit}
    (h : List.Forall₂ (Sees w dir above) routes visits)
    (hnames : ∀ route ∈ routes, route ≠ [] ∧ ∀ name ∈ route, IsName name) (extension : String) :
    visits.filterMap (Visit.fixture? extension) =
      (routes.filter fun route => Route w (IsFixtureAt w extension) (dir :: above) route).map
        dir.path.joinAll := by
  induction h with
  | nil => rfl
  | @cons route v routes visits hsees _ ih =>
      obtain ⟨⟨hne, hroute⟩, hroutes⟩ := List.forall_mem_cons.1 hnames
      rw [List.filterMap_cons, List.filter_cons, ih hroutes]
      by_cases hfixture : Route w (IsFixtureAt w extension) (dir :: above) route
      · rw [(fixture?_of_sees hsees hne hroute).2 ⟨hfixture, rfl⟩]
        simp [hfixture]
      · have hnone : v.fixture? extension = none := by
          rw [Option.eq_none_iff_forall_ne_some]
          intro p hp
          exact hfixture ((fixture?_of_sees hsees hne hroute).1 hp).1
        simp [hfixture, hnone]

variable {root : Path} {es : List (Bytes × Entry)}

theorem exists_fixture_routes (hw : w.files.WellFormed)
    (h : w.find true root = .ok (loc, .directory es)) (extension : String) :
    ∃ routes : List (List Bytes),
      (collect w root extension).1 =
        routes.map (fun route => Fixture.ofPath (root.joinAll route) root) ∧
      (∀ route, route ∈ routes ↔ Route w (IsFixtureAt w extension) [⟨root, loc⟩] route) ∧
      (routes.map root.joinAll).Nodup ∧
      routes.Pairwise (Precedes w [⟨root, loc⟩]) := by
  classical
  obtain ⟨visits, routes, hwalk, hsees, hmem, hordered⟩ := exists_routes hw h
  have hnames : ∀ route ∈ routes, route ≠ [] ∧ ∀ name ∈ route, IsName name := by
    intro route hroute
    have hholds := (hmem route).1 hroute
    exact ⟨hholds.ne_nil, hholds.isName hw⟩
  have hfixtures := filterMap_fixture?_of_sees hsees hnames extension
  set kept := routes.filter fun route => Route w (IsFixtureAt w extension) [⟨root, loc⟩] route
    with hkept
  have hmem_kept : ∀ route, route ∈ kept ↔
      Route w (IsFixtureAt w extension) [⟨root, loc⟩] route := by
    intro route
    rw [hkept, List.mem_filter, hmem, decide_eq_true_eq]
    exact and_iff_right_of_imp fun hroute => hroute.mono fun dir name hfixture => hfixture.1.holds
  have hsorted : kept.Pairwise (Precedes w [⟨root, loc⟩]) := by
    refine (hordered.filter _).imp_of_mem ?_
    rintro route route' hroute hroute' (hprecedes | ⟨⟨rest, rfl⟩, hne⟩)
    · exact hprecedes
    · have hfile := ((hmem_kept route).1 hroute).mono fun dir name hfixture => hfixture.1
      have hrest := hfile.eq_of_append ((hmem_kept _).1 hroute')
      exact absurd (by rw [hrest, List.append_nil]) hne
  refine ⟨kept, ?_, hmem_kept, ?_, hsorted⟩
  · rw [collect, hwalk, List.filterMap_cons_none rfl, hfixtures, List.map_map]
    rfl
  · refine List.pairwise_map.2 (hsorted.imp_of_mem ?_)
    intro route route' hroute hroute' hprecedes heq
    obtain ⟨hne, hname⟩ := hnames route (List.mem_of_mem_filter hroute)
    obtain ⟨hne', hname'⟩ := hnames route' (List.mem_of_mem_filter hroute')
    exact hprecedes.ne (Path.joinAll_injective hne hne' hname hname' heq)

/-- The fixtures of the same tree are found on the same routes, in the same order, where the same
paths are accepted. -/
theorem exists_same_routes {w' : World} {root' : Path} {loc' : Location}
    {es' : List (Bytes × Entry)} (hw : w.files.WellFormed) (hw' : w'.files.WellFormed)
    (h : w.find true root = .ok (loc, .directory es))
    (h' : w'.find true root' = .ok (loc', .directory es'))
    (hsame : SameTree w.files loc w'.files loc')
    (hgrants : Grants w [⟨root, loc⟩] w' [⟨root', loc'⟩])
    (hgrants' : Grants w' [⟨root', loc'⟩] w [⟨root, loc⟩]) (extension : String) :
    ∃ routes : List (List Bytes),
      (∀ route ∈ routes, Route w (IsFixtureAt w extension) [⟨root, loc⟩] route) ∧
      (collect w root extension).1 =
        routes.map (fun route => Fixture.ofPath (root.joinAll route) root) ∧
      (collect w' root' extension).1 =
        routes.map (fun route => Fixture.ofPath (root'.joinAll route) root') := by
  obtain ⟨pair, hmatches, hpair⟩ := hsame
  obtain ⟨routes, hfixtures, hmem, -, hordered⟩ := exists_fixture_routes hw h extension
  obtain ⟨routes', hfixtures', hmem', -, hordered'⟩ := exists_fixture_routes hw' h' extension
  have hlocate := World.locate_eq_ok_iff.2 ⟨_, h⟩
  have hlocate' := World.locate_eq_ok_iff.2 ⟨_, h'⟩
  have habreast : Abreast w w' pair ⟨root, loc⟩ [] ⟨root', loc'⟩ [] :=
    ⟨⟨.cons hpair .nil, hlocate, hlocate'⟩, hgrants⟩
  have habreast' : Abreast w' w (flip pair) ⟨root', loc'⟩ [] ⟨root, loc⟩ [] :=
    ⟨⟨.cons hpair .nil, hlocate', hlocate⟩, hgrants'⟩
  have hperm : routes'.Perm routes := by
    refine (List.perm_ext_iff_of_nodup (hordered'.imp Precedes.ne) (hordered.imp Precedes.ne)).2 ?_
    intro route
    rw [hmem, hmem']
    constructor
    · refine .carry hw' hmatches.symm habreast' ?_
      exact fun hbeside hfixture => ⟨hfixture.1.carry hw' hmatches.symm hbeside, hfixture.2⟩
    · refine .carry hw hmatches habreast ?_
      exact fun hbeside hfixture => ⟨hfixture.1.carry hw hmatches hbeside, hfixture.2⟩
  have hroutes : routes' = routes := by
    refine hperm.eq_of_pairwise ?_ hordered' (hordered.imp (.carry hw hmatches habreast))
    intro route route' _ _ hprecedes hprecedes'
    exact absurd hprecedes' hprecedes.asymm
  exact ⟨routes, fun route => (hmem route).1, hfixtures, hroutes ▸ hfixtures'⟩

/-- The fixtures are the same if nothing is missing but links that lead nowhere. -/
theorem collect_eq_of_keeps {files : FileSystem} (hw : w.files.WellFormed)
    (hfiles : files.WellFormed) (h : w.files.Keeps files) (h' : files.Keeps w.files)
    (hroot : w.find true root = .ok (loc, .directory es)) (extension : String) :
    (collect { w with files } root extension).1 = (collect w root extension).1 := by
  obtain ⟨es', hroot'⟩ := World.find_of_keeps h hroot
  have hback : Grants { w with files } [⟨root, loc⟩] w [⟨root, loc⟩] :=
    grants_of_keeps (w := { w with files }) h' _
  obtain ⟨routes, -, hfixtures, hfixtures'⟩ :=
    exists_same_routes hw hfiles hroot hroot' (sameTree_of_keeps h h' loc) (grants_of_keeps h _)
      hback extension
  rw [hfixtures, hfixtures']

/-- Below a root that is a directory, the fixtures are the files that a route leads to and that have
the name of one, each once and in the order of routes, whatever the order in which directories list
their entries; and nothing is collected only if there are none. -/
theorem collect_exact (w : World) (hw : w.files.WellFormed) {root : Path} {loc : Location}
    {es : List (Bytes × Entry)} (hroot : w.find true root = .ok (loc, .directory es))
    (extension : String) :
    (∃ routes : List (List Bytes),
      (collect w root extension).1 =
        routes.map (fun route => Fixture.ofPath (root.joinAll route) root) ∧
      (∀ route, route ∈ routes ↔ Route w (IsFixtureAt w extension) [⟨root, loc⟩] route) ∧
      (routes.map root.joinAll).Nodup ∧
      routes.Pairwise (Precedes w [⟨root, loc⟩])) ∧
    (∀ files : FileSystem, files.WellFormed → w.files.Alike files →
      (collect { w with files } root extension).1 = (collect w root extension).1) ∧
    ((discover w root extension).1 = .error (nothingCollected root) ↔
      ∀ route, ¬ Route w (IsFixtureAt w extension) [⟨root, loc⟩] route) ∧
    ((∃ route, Route w (IsFixtureAt w extension) [⟨root, loc⟩] route) →
      (discover w root extension).1 = .ok (collect w root extension).1) := by
  have hroutes := exists_fixture_routes hw hroot extension
  refine ⟨hroutes, fun files hfiles halike =>
    collect_eq_of_keeps hw hfiles halike.keeps halike.symm.keeps hroot extension, ?_⟩
  obtain ⟨routes, hfixtures, hmem, -, -⟩ := hroutes
  have hempty : (collect w root extension).1 = [] ↔
      ∀ route, ¬ Route w (IsFixtureAt w extension) [⟨root, loc⟩] route := by
    rw [hfixtures, List.map_eq_nil_iff, List.eq_nil_iff_forall_not_mem]
    simp only [hmem]
  by_cases hnone : (collect w root extension).1 = []
  · obtain ⟨log, hdiscover⟩ := discover_of_eq_nil hnone
    refine ⟨iff_of_true (by rw [hdiscover]) (hempty.1 hnone), ?_⟩
    rintro ⟨route, hroute⟩
    exact absurd hroute (hempty.1 hnone route)
  · obtain ⟨log, hdiscover⟩ := discover_of_ne_nil hnone
    rw [hdiscover]
    exact ⟨iff_of_false (by simp) fun h => hnone (hempty.2 h), fun _ => rfl⟩

/-- The suite `/s` holds `.f`, the link `l` to `/o`, and in `/o` there is `b.f`. -/
def linkedWorld : World where
  files := ⟨[([115], .directory [([46, 102], .file [] false), ([108], .link ⟨[47, 111]⟩)]),
    ([111], .directory [([98, 46, 102], .file [] false)])]⟩
  cwd := some []
  environment := ⟨[]⟩

theorem linkedWorld_wellFormed : linkedWorld.files.WellFormed := by
  refine .directory (by decide) (by decide) (List.forall_mem_cons.2 ⟨?_, ?_⟩)
  · refine .directory (by decide) (by decide) (List.forall_mem_cons.2 ⟨.file _ _, ?_⟩)
    exact List.forall_mem_singleton.2 (.link _)
  · refine List.forall_mem_singleton.2 (.directory (by decide) (by decide) ?_)
    exact List.forall_mem_singleton.2 (.file _ _)

/-- The file behind the link is a fixture, and the file without a stem is none. -/
theorem collect_exact_behind_link :
    ∃ routes : List (List Bytes),
      (discover linkedWorld ⟨[47, 115]⟩ "f").1 =
        .ok (routes.map fun route => .ofPath (Path.joinAll ⟨[47, 115]⟩ route) ⟨[47, 115]⟩) ∧
      [[108], [98, 46, 102]] ∈ routes ∧ [[46, 102]] ∉ routes := by
  have hfind : linkedWorld.find true ⟨[47, 115]⟩ =
    .ok ([[115]], .directory [([46, 102], .file [] false), ([108], .link ⟨[47, 111]⟩)]) := rfl
  have henters : Enters linkedWorld ⟨⟨[47, 115]⟩, [[115]]⟩ [] [108] [[111]] :=
    .link ⟨_, rfl⟩ rfl ⟨_, rfl⟩ (by decide)
  have hroute : Route linkedWorld (IsFixtureAt linkedWorld "f") [⟨⟨[47, 115]⟩, [[115]]⟩]
      [[108], [98, 46, 102]] := by
    refine .enter henters (.last ⟨.file rfl, ?_⟩)
    exact ⟨by decide, [98], by decide, by decide⟩
  obtain ⟨⟨routes, hfixtures, hmem, -, -⟩, -, -, hdiscover⟩ :=
    collect_exact linkedWorld linkedWorld_wellFormed hfind "f"
  refine ⟨routes, hfixtures ▸ hdiscover ⟨_, hroute⟩, (hmem _).2 hroute, fun h => ?_⟩
  obtain ⟨-, -, before, hne, hname⟩ := route_singleton_iff.1 ((hmem _).1 h)
  have hencode : Utf8.encode "f" = [102] := by decide
  have hlength := congrArg List.length hname
  simp [hencode] at hlength
  exact hne hlength

/-- The working directory `/` holds the directory `dd` with the file `x.f`. -/
def deepWorld : World where
  files := ⟨[([100, 100], .directory [([120, 46, 102], .file [] false)])]⟩
  cwd := some []
  environment := ⟨[]⟩

theorem deepWorld_wellFormed : deepWorld.files.WellFormed := by
  refine .directory (by decide) (by decide) (List.forall_mem_singleton.2 ?_)
  exact .directory (by decide) (by decide) (List.forall_mem_singleton.2 (.file _ _))

/-- The working directory `/` holds the link `l` to itself, the suite `s` with the link `a` to `/o`,
and in `o` the file `x.f`. -/
def windingWorld : World where
  files := ⟨[([108], .link ⟨[46]⟩), ([115], .directory [([97], .link ⟨[47, 111]⟩)]),
    ([111], .directory [([120, 46, 102], .file [] false)])]⟩
  cwd := some []
  environment := ⟨[]⟩

/-- The path of the suite through the link `l`, which is passed forty times. -/
def windingRoot : Path := ⟨(List.replicate 40 [108, 47]).flatten ++ [115]⟩

theorem inOrder_singleton (name : Bytes) (e : Entry) : inOrder [(name, e)] = [(name, e)] :=
  List.mergeSort_singleton _

/-- The root has a path of 4094 bytes, and `dd` behind it is too long by one byte. -/
theorem walk_deepWorld :
    walk deepWorld (.stays 2047) = [.directory (.stays 2047),
      .passedOver ((Path.stays 2047).join ⟨[100, 100]⟩) (.unreadable .nameTooLong)] := by
  have hroot := World.find_stays (w := deepWorld) (n := 2047) rfl rfl (by decide) (by decide)
    (by decide)
  have hlong : World.pathError? ((Path.stays 2047).join ⟨[100, 100]⟩) = some .nameTooLong := by
    have hname : IsName [100, 100] := by decide
    have hbytes := Path.bytes_join_name (.stays 2047) hname
    rw [Path.stem_stays] at hbytes
    refine World.pathError?_eq_nameTooLong ?_ ?_
    · rw [hbytes, List.mem_append, not_or]
      exact ⟨Path.zero_notMem_stays 2047, by decide⟩
    · rw [hbytes, List.length_append, Path.length_stays]
      decide
  have hlocate : deepWorld.locate ((Path.stays 2047).join ⟨[100, 100]⟩) = .error .nameTooLong := by
    simp only [World.locate, World.find, World.target, hlong]
    rfl
  rw [walk_of_find hroot, deepWorld, inOrder_singleton, ← deepWorld, visit, hlocate, visit]
  rfl

set_option maxRecDepth 10000 in
theorem find_windingRoot :
    windingWorld.find true windingRoot = .ok ([[115]], .directory [([97], .link ⟨[47, 111]⟩)]) :=
  rfl

set_option maxRecDepth 10000 in
theorem locate_windingRoot_join :
    windingWorld.locate (windingRoot.join ⟨[97]⟩) = .error .tooManyLinks :=
  rfl

theorem walk_windingWorld :
    walk windingWorld windingRoot = [.directory windingRoot,
      .passedOver (windingRoot.join ⟨[97]⟩) (.unreadable .tooManyLinks)] := by
  rw [walk_of_find find_windingRoot, inOrder_singleton, visit, locate_windingRoot_join, visit]
  rfl

theorem isDirectory_deepWorld : deepWorld.isDirectory (.stays 2047) = true := by
  rw [World.isDirectory, World.find_stays (w := deepWorld) (n := 2047) rfl rfl (by decide)
    (by decide) (by decide)]
  rfl

theorem locate_windingRoot : windingWorld.locate windingRoot = .ok [[115]] :=
  World.locate_eq_ok_iff.2 ⟨_, find_windingRoot⟩

theorem linksTo_windingWorld : LinksTo windingWorld.files [[115]] [97] [[111]] :=
  ⟨⟨_, rfl⟩, rfl, ⟨_, rfl⟩⟩

/-- A directory with a fixture, and a link to one, that nothing is collected from: the path of the
first is too long behind the root, and the second is one link more than the system follows. -/
theorem collect_stops_at_limits :
    (deepWorld.isDirectory (.stays 2047) = true ∧ deepWorld.cwd = some [] ∧
      deepWorld.files.get? [[100, 100]] = some (.directory [([120, 46, 102], .file [] false)]) ∧
      (collect deepWorld (.stays 2047) "f").1 = []) ∧
    (windingWorld.locate windingRoot = .ok [[115]] ∧
      LinksTo windingWorld.files [[115]] [97] [[111]] ∧
      windingWorld.files.get? [[111]] = some (.directory [([120, 46, 102], .file [] false)]) ∧
      (collect windingWorld windingRoot "f").1 = []) ∧
    IsFixtureName "f" [120, 46, 102] := by
  refine ⟨⟨isDirectory_deepWorld, rfl, rfl, ?_⟩,
    ⟨locate_windingRoot, linksTo_windingWorld, rfl, ?_⟩, ?_⟩
  · rw [collect, walk_deepWorld]
    rfl
  · rw [collect, walk_windingWorld]
    rfl
  · exact ⟨by decide, [120], by decide, by decide⟩

end Discovery

end Conformance

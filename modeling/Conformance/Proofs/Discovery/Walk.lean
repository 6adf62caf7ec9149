import Conformance.Proofs.Discovery.Route
import Mathlib.Data.List.Forall2

/-!
# What a walk visits

A walk makes one visit for every route there is, and makes the visits in order:
at the first name that differs, what is not itself a directory comes first, and
names of one kind ascend (`Precedes`). An entry comes before what is below it.
`Traces` ties the visits of some entries of a directory to their routes, and
`exists_traces` follows the recursion of `visit`. On the way every directory is
where its path leads, so that what is looked at by its path is what is there.

Routes are bounded, so no walk goes on for ever (`walk_ends`).
-/

namespace Conformance

namespace Discovery

def Visit.path : Visit → Path
  | .file p => p
  | .directory p => p
  | .other p => p
  | .passedOver p _ => p

def Visit.IsFile (v : Visit) : Prop := ∃ p, v = .file p

theorem bytesLE_iff (a b : Bytes) : bytesLE a b = true ↔ a ≤ b := by
  induction a generalizing b with
  | nil => simp [bytesLE]
  | cons x a ih =>
      cases b with
      | nil => simp [bytesLE]
      | cons y b => simp [bytesLE, ih, List.cons_le_cons_iff]

theorem comesBefore_trans (x y z : Bytes × Entry) (hxy : comesBefore x y = true)
    (hyz : comesBefore y z = true) : comesBefore x z = true := by
  simp only [comesBefore, beq_iff_eq] at hxy hyz ⊢
  cases hx : x.2.isDirectory <;> cases hy : y.2.isDirectory <;> cases hz : z.2.isDirectory <;>
    simp_all [bytesLE_iff]
  · exact List.le_trans hxy hyz
  · exact List.le_trans hxy hyz

theorem comesBefore_total (x y : Bytes × Entry) :
    (comesBefore x y || comesBefore y x) = true := by
  simp only [comesBefore, beq_iff_eq, Bool.or_eq_true]
  cases hx : x.2.isDirectory <;> cases hy : y.2.isDirectory <;> simp [bytesLE_iff, List.le_total]

theorem mem_inOrder {es : List (Bytes × Entry)} {x : Bytes × Entry} : x ∈ inOrder es ↔ x ∈ es :=
  (List.mergeSort_perm es comesBefore).mem_iff

/-- At the first name that differs, directories come last and names ascend. -/
def Before (fs : FileSystem) (dir : Location) (name name' : Bytes) : Prop :=
  (¬ IsDirectoryAt fs (dir ++ [name]) ∧ IsDirectoryAt fs (dir ++ [name'])) ∨
    ((IsDirectoryAt fs (dir ++ [name]) ↔ IsDirectoryAt fs (dir ++ [name'])) ∧ name < name')

/-- The order of two routes is the order at the first name that differs. -/
inductive Precedes (w : World) : List Ancestor → List Bytes → List Bytes → Prop where
  | differ {dir : Ancestor} {above : List Ancestor} {name name' : Bytes}
      {names names' : List Bytes} (h : Before w.files dir.location name name') :
      Precedes w (dir :: above) (name :: names) (name' :: names')
  | enter {dir : Ancestor} {target : Location} {above : List Ancestor} {name : Bytes}
      {names names' : List Bytes} (h : Enters w dir above name target)
      (next : Precedes w (⟨dir.path.join ⟨name⟩, target⟩ :: dir :: above) names names') :
      Precedes w (dir :: above) (name :: names) (name :: names')

variable {fs : FileSystem} {w : World} {dir : Ancestor} {loc target : Location}
  {above way : List Ancestor} {name : Bytes} {names names' : List Bytes}

theorem Before.ne {name' : Bytes} (h : Before fs loc name name') : name ≠ name' := by
  rintro rfl
  rcases h with ⟨hnot, hdirectory⟩ | ⟨-, hlt⟩
  · exact hnot hdirectory
  · exact List.lt_irrefl name hlt

theorem Precedes.ne (h : Precedes w way names names') : names ≠ names' := by
  induction h with
  | differ h => exact fun heq => h.ne (List.cons.inj heq).1
  | enter h next ih => exact fun heq => ih (List.cons.inj heq).2

theorem isDirectoryAt_iff {e : Entry} (h : fs.get? loc = some e) :
    IsDirectoryAt fs loc ↔ e.isDirectory = true := by
  cases e <;> simp [IsDirectoryAt, h, Entry.isDirectory]

theorem before_of_comesBefore {x y : Bytes × Entry} (hx : fs.get? (loc ++ [x.1]) = some x.2)
    (hy : fs.get? (loc ++ [y.1]) = some y.2) (hne : x.1 ≠ y.1) (h : comesBefore x y = true) :
    Before fs loc x.1 y.1 := by
  simp only [comesBefore, beq_iff_eq] at h
  rw [Before, isDirectoryAt_iff hx, isDirectoryAt_iff hy]
  split at h
  next hsame =>
      rw [bytesLE_iff] at h
      refine .inr ⟨by rw [hsame], ?_⟩
      rcases List.le_iff_lt_or_eq.1 h with hlt | heq
      · exact hlt
      · exact absurd heq hne
  next hother =>
      refine .inl ⟨fun hx => hother ?_, h⟩
      rw [hx, h]

theorem pairwise_before_inOrder (hfs : fs.WellFormed) {es : List (Bytes × Entry)}
    (hes : fs.get? loc = some (.directory es)) :
    (inOrder es).Pairwise fun x y => Before fs loc x.1 y.1 := by
  have hsorted := List.pairwise_mergeSort comesBefore_trans comesBefore_total es
  have hdistinct : (inOrder es).Pairwise fun x y => x.1 ≠ y.1 := by
    have hdirectory : (Entry.directory es).WellFormed := Entry.WellFormed.get? hfs hes
    cases hdirectory with
    | directory distinct named inner =>
        have hpairs : es.Pairwise fun x y => x.1 ≠ y.1 := List.pairwise_map.1 distinct
        exact ((List.mergeSort_perm es comesBefore).pairwise_iff fun h => h.symm).2 hpairs
  refine (hsorted.and hdistinct).imp_of_mem ?_
  intro x y hx hy h
  exact before_of_comesBefore (hfs.get?_of_mem hes (mem_inOrder.1 hx)).1
    (hfs.get?_of_mem hes (mem_inOrder.1 hy)).1 h.2 h.1

/-- The visit is the one of a route from a directory. -/
structure Sees (w : World) (dir : Ancestor) (above : List Ancestor) (route : List Bytes)
    (v : Visit) : Prop where
  path_eq : v.path = dir.path.joinAll route
  isFile_iff : v.IsFile ↔ Route w (LeadsToFile w) (dir :: above) route
  passedOver_iff : ∀ o, v = .passedOver v.path o ↔ Refused w (dir :: above) route o

/-- The visits of some entries of a directory are those of all routes through them, in order. -/
structure Traces (w : World) (dir : Ancestor) (above : List Ancestor)
    (es : List (Bytes × Entry)) (visits : List Visit) (routes : List (List Bytes)) : Prop where
  sees : List.Forall₂ (Sees w dir above) routes visits
  mem_iff : ∀ route, route ∈ routes ↔
    Route w (Holds w) (dir :: above) route ∧ ∃ x ∈ es, route.head? = some x.1
  ordered : routes.Pairwise fun r r' =>
    Precedes w (dir :: above) r r' ∨ (r <+: r' ∧ r ≠ r')

theorem traces_nil : Traces w dir above [] [] [] where
  sees := .nil
  mem_iff := by simp
  ordered := .nil

/-- The first entry and the others. -/
theorem Traces.append {x : Bytes × Entry} {es : List (Bytes × Entry)} {first rest : List Visit}
    {routes routes' : List (List Bytes)} (h : Traces w dir above [x] first routes)
    (h' : Traces w dir above es rest routes')
    (hbefore : ∀ y ∈ es, Before w.files dir.location x.1 y.1) :
    Traces w dir above (x :: es) (first ++ rest) (routes ++ routes') where
  sees := List.rel_append h.sees h'.sees
  mem_iff := by
    intro route
    rw [List.mem_append, h.mem_iff, h'.mem_iff, ← and_or_left]
    simp
  ordered := by
    refine List.pairwise_append.2 ⟨h.ordered, h'.ordered, ?_⟩
    intro r hr r' hr'
    obtain ⟨hroute, y, hy, hhead⟩ := (h.mem_iff r).1 hr
    obtain ⟨hroute', y', hy', hhead'⟩ := (h'.mem_iff r').1 hr'
    obtain rfl := List.mem_singleton.1 hy
    obtain ⟨names, rfl⟩ := List.head?_eq_some_iff.1 hhead
    obtain ⟨names', rfl⟩ := List.head?_eq_some_iff.1 hhead'
    exact .inl (.differ (hbefore y' hy'))

/-- The visit is the one of an entry that is not entered. -/
structure Looks (w : World) (dir : Ancestor) (above : List Ancestor) (name : Bytes) (v : Visit) :
    Prop where
  path_eq : v.path = dir.path.join ⟨name⟩
  isFile_iff : v.IsFile ↔ LeadsToFile w dir name
  passedOver_iff : ∀ o, v = .passedOver v.path o ↔ Refuses w dir above name o
  not_enters : ∀ target, ¬ Enters w dir above name target

theorem looks_file (h : LeadsToFile w dir name) :
    Looks w dir above name (.file (dir.path.join ⟨name⟩)) where
  path_eq := rfl
  isFile_iff := iff_of_true ⟨_, rfl⟩ h
  passedOver_iff o := iff_of_false (by simp) fun hrefuses => hrefuses.not_leadsToFile h
  not_enters target := h.not_enters

theorem looks_passedOver {o : Obstacle} (h : Refuses w dir above name o) :
    Looks w dir above name (.passedOver (dir.path.join ⟨name⟩) o) where
  path_eq := rfl
  isFile_iff := by
    refine iff_of_false ?_ h.not_leadsToFile
    rintro ⟨p, hp⟩
    cases hp
  passedOver_iff o' := by
    constructor
    · rintro ⟨⟩
      exact h
    · intro h'
      rw [h.unique h']
      rfl
  not_enters target := h.not_enters

theorem looks_other (hfile : ¬ LeadsToFile w dir name)
    (hrefuses : ∀ o, ¬ Refuses w dir above name o)
    (henters : ∀ target, ¬ Enters w dir above name target) :
    Looks w dir above name (.other (dir.path.join ⟨name⟩)) where
  path_eq := rfl
  isFile_iff := by
    refine iff_of_false ?_ hfile
    rintro ⟨p, hp⟩
    cases hp
  passedOver_iff o := iff_of_false (by simp) (hrefuses o)
  not_enters := henters

theorem traces_leaf {x : Bytes × Entry} {v : Visit}
    (hx : w.files.get? (dir.location ++ [x.1]) = some x.2) (h : Looks w dir above x.1 v) :
    Traces w dir above [x] [v] [[x.1]] where
  sees := by
    refine .cons ⟨h.path_eq, ?_, fun o => ?_⟩ .nil
    · rw [h.isFile_iff, route_singleton_iff]
    · rw [h.passedOver_iff, refused_singleton_iff]
  mem_iff := by
    intro route
    rw [List.mem_singleton]
    constructor
    · rintro rfl
      exact ⟨.last ⟨_, hx⟩, x, List.mem_singleton_self x, rfl⟩
    · rintro ⟨hroute, y, hy, hhead⟩
      obtain rfl := List.mem_singleton.1 hy
      obtain ⟨names, rfl⟩ := List.head?_eq_some_iff.1 hhead
      by_cases hne : names = []
      · rw [hne]
      · exact absurd hroute (not_route_cons h.not_enters hne)
  ordered := List.pairwise_singleton _ _

theorem Route.exists_mem {es : List (Bytes × Entry)}
    (h : Route w (Holds w) (dir :: above) names)
    (hes : ∀ name, Holds w dir name → ∃ y ∈ es, name = y.1) :
    ∃ y ∈ es, names.head? = some y.1 := by
  obtain ⟨name, rest, rfl, hholds⟩ := h.holds_head
  obtain ⟨y, hy, rfl⟩ := hes name hholds
  exact ⟨y, hy, List.head?_cons⟩

theorem traces_enter {x : Bytes × Entry} {es : List (Bytes × Entry)} {visits : List Visit}
    {routes : List (List Bytes)} (h : Enters w dir above x.1 target)
    (hes : ∀ name, Holds w ⟨dir.path.join ⟨x.1⟩, target⟩ name → ∃ y ∈ es, name = y.1)
    (hbelow : Traces w ⟨dir.path.join ⟨x.1⟩, target⟩ (dir :: above) es visits routes) :
    Traces w dir above [x] (.directory (dir.path.join ⟨x.1⟩) :: visits)
      ([x.1] :: routes.map (x.1 :: ·)) where
  sees := by
    refine .cons ⟨rfl, ?_, fun o => ?_⟩ ?_
    · rw [route_singleton_iff]
      refine iff_of_false ?_ fun hfile => hfile.not_enters h
      rintro ⟨p, hp⟩
      cases hp
    · rw [refused_singleton_iff]
      exact iff_of_false (by simp) fun hrefuses => hrefuses.not_enters h
    · have hroutes : List.Forall₂ (fun route v => route ≠ [] ∧
          Sees w ⟨dir.path.join ⟨x.1⟩, target⟩ (dir :: above) route v) routes visits :=
        (List.forall₂_and_left routes visits).2
          ⟨fun route hroute => ((hbelow.mem_iff route).1 hroute).1.ne_nil, hbelow.sees⟩
      rw [List.forall₂_map_left_iff]
      refine hroutes.imp ?_
      rintro route v ⟨hne, hpath, hfile, hrefused⟩
      refine ⟨hpath, ?_, fun o => ?_⟩
      · rw [hfile, route_cons_iff h hne]
      · rw [hrefused, refused_cons_iff h hne]
  mem_iff := by
    intro route
    rw [List.mem_cons, List.mem_map]
    constructor
    · rintro (rfl | ⟨names, hnames, rfl⟩)
      · exact ⟨.last h.holds, x, List.mem_singleton_self x, rfl⟩
      · exact ⟨.enter h ((hbelow.mem_iff names).1 hnames).1, x, List.mem_singleton_self x, rfl⟩
    · rintro ⟨hroute, y, hy, hhead⟩
      obtain rfl := List.mem_singleton.1 hy
      obtain ⟨names, rfl⟩ := List.head?_eq_some_iff.1 hhead
      by_cases hne : names = []
      · exact .inl (by rw [hne])
      · have hnext := (route_cons_iff h hne).1 hroute
        exact .inr ⟨names, (hbelow.mem_iff names).2 ⟨hnext, hnext.exists_mem hes⟩, rfl⟩
  ordered := by
    refine List.pairwise_cons.2 ⟨?_, List.pairwise_map.2 (hbelow.ordered.imp ?_)⟩
    · intro route hroute
      obtain ⟨names, hnames, rfl⟩ := List.mem_map.1 hroute
      refine .inr ⟨List.prefix_append [x.1] names, ?_⟩
      intro heq
      exact ((hbelow.mem_iff names).1 hnames).1.ne_nil (List.cons.inj heq).2.symm
    · rintro r r' (hprecedes | ⟨hstart, hne⟩)
      · exact .inl (.enter h hprecedes)
      · refine .inr ⟨(List.prefix_cons_inj x.1).2 hstart, ?_⟩
        exact fun heq => hne (List.cons.inj heq).2

/-- What holds of no entries, and of a list of entries whenever it holds of its rest and of what is
below its first entry, holds of all entries that a walk comes to. -/
theorem visit_induction (fs : FileSystem)
    {motive : List Ancestor → Path → Location → List (Bytes × Entry) → Prop}
    (nil : ∀ ancestors path dir, motive ancestors path dir [])
    (cons : ∀ ancestors path dir name e rest, motive ancestors path dir rest →
      (∀ es, e = .directory es →
        motive (⟨path.join ⟨name⟩, dir ++ [name]⟩ :: ancestors) (path.join ⟨name⟩) (dir ++ [name])
          (inOrder es)) →
      (∀ target es, fs.get? target = some (.directory es) →
        ancestors.find? (fun a => a.location == target) = none →
        motive (⟨path.join ⟨name⟩, target⟩ :: ancestors) (path.join ⟨name⟩) target
          (inOrder es)) →
      motive ancestors path dir ((name, e) :: rest))
    (ancestors : List Ancestor) (path : Path) (dir : Location) (es : List (Bytes × Entry)) :
    motive ancestors path dir es :=
  match es with
  | [] => nil ancestors path dir
  | (name, e) :: rest =>
      cons ancestors path dir name e rest (visit_induction fs nil cons ancestors path dir rest)
        (fun es _he => visit_induction fs nil cons _ _ _ (inOrder es))
        (fun _ es _hget _hnew => visit_induction fs nil cons _ _ _ (inOrder es))
termination_by (remaining fs ancestors, sizeOf es)
decreasing_by
  · refine Prod.Lex.right _ ?_
    simp only [List.cons.sizeOf_spec]
    omega
  · refine Prod.Lex.right' _ (remaining_cons_le fs _ ancestors) ?_
    rw [sizeOf_inOrder, _he]
    simp only [List.cons.sizeOf_spec, Prod.mk.sizeOf_spec, Entry.directory.sizeOf_spec]
    omega
  · exact Prod.Lex.left _ _ (remaining_cons_lt _hget _hnew)

theorem exists_mem_inOrder_of_holds {es : List (Bytes × Entry)}
    (hes : w.files.get? dir.location = some (.directory es)) (h : Holds w dir name) :
    ∃ y ∈ inOrder es, name = y.1 := by
  obtain ⟨e, he⟩ := h
  rw [FileSystem.get?_append_singleton hes] at he
  exact ⟨(name, e), mem_inOrder.2 (mem_of_lookup he), rfl⟩

/-- What a walk does at one entry: it looks at it and passes on, or enters it. -/
inductive Handles (w : World) (dir : Ancestor) (above : List Ancestor) (name : Bytes) (e : Entry) :
    List Visit → Prop where
  | look {v : Visit} (h : Looks w dir above name v) : Handles w dir above name e [v]
  | directory {inner : List (Bytes × Entry)} (he : e = .directory inner)
      (henters : Enters w dir above name (dir.location ++ [name])) :
      Handles w dir above name e (.directory (dir.path.join ⟨name⟩) ::
        visit w (⟨dir.path.join ⟨name⟩, dir.location ++ [name]⟩ :: dir :: above)
          (dir.path.join ⟨name⟩) (dir.location ++ [name]) (inOrder inner))
  | link {target : Location} {inner : List (Bytes × Entry)}
      (hinner : w.files.get? target = some (.directory inner))
      (hnew : (dir :: above).find? (fun a => a.location == target) = none)
      (henters : Enters w dir above name target) :
      Handles w dir above name e (.directory (dir.path.join ⟨name⟩) ::
        visit w (⟨dir.path.join ⟨name⟩, target⟩ :: dir :: above) (dir.path.join ⟨name⟩) target
          (inOrder inner))

theorem handles_directory (hdir : w.locate dir.path = .ok dir.location) (hname : IsName name)
    {inner : List (Bytes × Entry)}
    (hget : w.files.get? (dir.location ++ [name]) = some (.directory inner))
    (above : List Ancestor) (rest : List (Bytes × Entry)) :
    ∃ visits, visit w (dir :: above) dir.path dir.location ((name, .directory inner) :: rest) =
        visits ++ visit w (dir :: above) dir.path dir.location rest ∧
      Handles w dir above name (.directory inner) visits := by
  have hdirectory : IsDirectoryAt w.files (dir.location ++ [name]) := ⟨inner, hget⟩
  rw [visit]
  refine ⟨_, rfl, ?_⟩
  cases hlocate : w.locate (dir.path.join ⟨name⟩) with
  | error error => exact .look (looks_passedOver (.unreadable (.inl hdirectory) hlocate))
  | ok loc =>
    exact .directory rfl ((enters_directory_iff hdir hname hdirectory).2 ⟨rfl, loc, hlocate⟩)

theorem handles_link {linked : Path}
    (hget : w.files.get? (dir.location ++ [name]) = some (.link linked))
    (above : List Ancestor) (rest : List (Bytes × Entry)) :
    ∃ visits, visit w (dir :: above) dir.path dir.location ((name, .link linked) :: rest) =
        visits ++ visit w (dir :: above) dir.path dir.location rest ∧
      Handles w dir above name (.link linked) visits := by
  have hlink : IsLinkAt w.files (dir.location ++ [name]) := ⟨linked, hget⟩
  rw [visit]
  refine ⟨_, rfl, ?_⟩
  cases hlocate : w.locate (dir.path.join ⟨name⟩) with
  | error error => exact .look (looks_passedOver (.unreadable (.inr hlink) hlocate))
  | ok target =>
      simp only
      split
      next inner hinner =>
          have hdirectory : IsDirectoryAt w.files target := ⟨inner, hinner⟩
          split
          next a hfind => exact .look (looks_passedOver (.loop hlink hlocate hdirectory hfind))
          next hnew =>
              have htarget := find?_location_eq_none_iff.1 hnew
              exact .link hinner hnew (.link hlink hlocate hdirectory htarget)
      next content executable hfile => exact .look (looks_file (.link hlink hlocate hfile))
      next hnot hfile =>
          have hdirectory : ¬ IsDirectoryAt w.files target := by
            rintro ⟨es, hes⟩
            exact hnot es hes
          refine .look (looks_other ?_ (fun o hrefuses => ?_) fun target' henters => ?_)
          · simpa [leadsToFile_link_iff hlink, hlocate] using hfile
          · cases hrefuses with
            | unreadable _ hlocate' => cases hlocate.symm.trans hlocate'
            | loop _ hlocate' hdirectory' =>
                cases hlocate.symm.trans hlocate'
                exact hdirectory hdirectory'
          · cases hlocate.symm.trans henters.locate_eq
            exact hdirectory henters.isDirectoryAt

theorem handles_entry (dir : Ancestor) (hdir : w.locate dir.path = .ok dir.location)
    (hname : IsName name) {e : Entry} (hget : w.files.get? (dir.location ++ [name]) = some e)
    (above : List Ancestor) (rest : List (Bytes × Entry)) :
    ∃ visits, visit w (dir :: above) dir.path dir.location ((name, e) :: rest) =
        visits ++ visit w (dir :: above) dir.path dir.location rest ∧
      Handles w dir above name e visits := by
  cases e with
  | file content executable =>
      exact ⟨_, by rw [visit], .look (looks_file (.file hget))⟩
  | device =>
      have hdirectory : ¬ IsDirectoryAt w.files (dir.location ++ [name]) := by
        rintro ⟨es, hes⟩
        simp [hget] at hes
      have hlink := not_isLinkAt hget (by simp)
      refine ⟨_, by rw [visit],
        .look (looks_other ?_ (fun o hrefuses => ?_) fun target henters => ?_)⟩
      · rintro (hfile | hl)
        · simp [hget] at hfile
        · exact hlink hl
      · cases hrefuses with
        | unreadable h => exact h.elim hdirectory hlink
        | loop h => exact hlink h
      · cases henters with
        | directory h => exact hdirectory h
        | link h => exact hlink h
  | directory inner => exact handles_directory hdir hname hget above rest
  | link linked => exact handles_link hget above rest

theorem exists_traces (hw : w.files.WellFormed) {all : List (Bytes × Entry)}
    (ancestors : List Ancestor) (path : Path) (loc : Location) (es : List (Bytes × Entry))
    (hway : ancestors = ⟨path, loc⟩ :: above) (hpath : w.locate path = .ok loc)
    (hloc : w.files.get? loc = some (.directory all)) (hes : ∀ x ∈ es, x ∈ all)
    (hordered : es.Pairwise fun x y => Before w.files loc x.1 y.1) :
    ∃ routes, Traces w ⟨path, loc⟩ above es (visit w ancestors path loc es) routes := by
  induction ancestors, path, loc, es using visit_induction w.files generalizing above all with
  | nil ancestors path loc =>
      rw [visit]
      exact ⟨[], traces_nil⟩
  | cons ancestors path loc name e rest hrest hdirectory hlink =>
      subst hway
      obtain ⟨hfirst, hothers⟩ := List.forall_mem_cons.1 hes
      obtain ⟨hbefore, hordered⟩ := List.pairwise_cons.1 hordered
      obtain ⟨hget, hname⟩ := hw.get?_of_mem hloc hfirst
      obtain ⟨routes', htraces'⟩ := hrest rfl hpath hloc hothers hordered
      obtain ⟨visits, hvisit, hhandles⟩ := handles_entry ⟨path, loc⟩ hpath hname hget above rest
      suffices hfirst : ∃ routes, Traces w ⟨path, loc⟩ above [(name, e)] visits routes by
        obtain ⟨routes, htraces⟩ := hfirst
        rw [hvisit]
        exact ⟨_, htraces.append htraces' hbefore⟩
      cases hhandles with
      | look hlooks => exact ⟨_, traces_leaf hget hlooks⟩
      | directory he henters =>
          rw [he] at hget
          obtain ⟨routes, htraces⟩ := hdirectory _ he rfl henters.locate_eq hget
            (fun x => mem_inOrder.1) (pairwise_before_inOrder hw hget)
          exact ⟨_, traces_enter henters (fun _ => exists_mem_inOrder_of_holds hget) htraces⟩
      | link hinner hnew henters =>
          obtain ⟨routes, htraces⟩ := hlink _ _ hinner hnew rfl henters.locate_eq hinner
            (fun x => mem_inOrder.1) (pairwise_before_inOrder hw hinner)
          exact ⟨_, traces_enter henters (fun _ => exists_mem_inOrder_of_holds hinner) htraces⟩

variable {root : Path} {es : List (Bytes × Entry)}

theorem walk_of_find (h : w.find true root = .ok (loc, .directory es)) :
    walk w root = .directory root :: visit w [⟨root, loc⟩] root loc (inOrder es) := by
  obtain ⟨x, hfalse⟩ := World.find_false_of_find_true h
  simp only [walk, hfalse, h]

theorem exists_routes (hw : w.files.WellFormed)
    (h : w.find true root = .ok (loc, .directory es)) :
    ∃ visits routes, walk w root = .directory root :: visits ∧
      List.Forall₂ (Sees w ⟨root, loc⟩ []) routes visits ∧
      (∀ route, route ∈ routes ↔ Route w (Holds w) [⟨root, loc⟩] route) ∧
      routes.Pairwise fun r r' => Precedes w [⟨root, loc⟩] r r' ∨ (r <+: r' ∧ r ≠ r') := by
  rw [walk_of_find h]
  rcases World.get?_of_find h with ⟨rfl, hnil⟩ | hget
  · obtain rfl : es = [] := by
      cases hnil
      rfl
    refine ⟨_, [], rfl, ?_, ?_, .nil⟩
    · simp [inOrder, visit]
    · intro route
      simp only [List.not_mem_nil, false_iff]
      intro hroute
      obtain ⟨name, rest, -, e, he⟩ := hroute.holds_head
      simp [FileSystem.get?_append_of_none (World.get?_removed hw)] at he
  · have hlocate := World.locate_eq_ok_iff.2 ⟨_, h⟩
    obtain ⟨routes, htraces⟩ := exists_traces hw [⟨root, loc⟩] root loc (inOrder es) rfl hlocate
      hget (fun x => mem_inOrder.1) (pairwise_before_inOrder hw hget)
    refine ⟨_, routes, rfl, htraces.sees, ?_, htraces.ordered⟩
    intro route
    rw [htraces.mem_iff]
    refine and_iff_left_of_imp ?_
    intro hroute
    exact hroute.exists_mem fun _ => exists_mem_inOrder_of_holds hget

theorem map_path_of_sees {routes : List (List Bytes)} {visits : List Visit}
    (h : List.Forall₂ (Sees w dir above) routes visits) :
    visits.map Visit.path = routes.map dir.path.joinAll := by
  induction h with
  | nil => rfl
  | cons hsees _ ih => rw [List.map_cons, List.map_cons, hsees.path_eq, ih]

theorem walk_of_not_directory (h : ∀ loc es, w.find true root ≠ .ok (loc, .directory es)) :
    (walk w root).map Visit.path = [root] := by
  unfold walk
  split
  next => rfl
  next =>
      split
      next => rfl
      next loc es hfind => exact absurd hfind (h loc es)
      next => rfl
      next => rfl

/-- The walk below any root ends, whatever its links lead to. It visits the root and then makes one
visit for every route there is, of which there are finitely many; none of them is longer than the
directories and the depth of their tree allow, and no names lead on for ever. This is not for want
of longer paths: no directories follow each other for ever of which each is in the one before or has
not been on the way yet. -/
theorem walk_ends (w : World) (hw : w.files.WellFormed) (root : Path) :
    ∃ routes : List (List Bytes),
      (walk w root).map Visit.path = root :: routes.map root.joinAll ∧
      routes.Nodup ∧
      (∀ route, route ∈ routes ↔ ∃ loc es, w.find true root = .ok (loc, .directory es) ∧
        Route w (Holds w) [⟨root, loc⟩] route) ∧
      (∀ route ∈ routes, route.length ≤
        w.files.directories.length * (depth w.files + 1) + depth w.files + 1) ∧
      (∀ (dir : Ancestor) (above : List Ancestor) (names : Nat → Bytes),
        ∃ n, ¬ Route w (Holds w) (dir :: above) ((List.range (n + 1)).map names)) ∧
      ∀ way : Nat → Location, (∀ n, IsDirectoryAt w.files (way n)) →
        ∃ n, (∀ name, way (n + 1) ≠ way n ++ [name]) ∧ ∃ m ≤ n, way (n + 1) = way m := by
  have hends : ∀ (dir : Ancestor) (above : List Ancestor) (names : Nat → Bytes),
      ∃ n, ¬ Route w (Holds w) (dir :: above) ((List.range (n + 1)).map names) := by
    intro dir above names
    refine ⟨leeway w.files dir above + 1, fun hroute => ?_⟩
    have hlength := hroute.length_le rfl
    rw [List.length_map, List.length_range] at hlength
    omega
  by_cases hroot : ∃ loc es, w.find true root = .ok (loc, .directory es)
  · obtain ⟨loc, es, hfind⟩ := hroot
    obtain ⟨visits, routes, hwalk, hsees, hmem, hordered⟩ := exists_routes hw hfind
    refine ⟨routes, ?_, ?_, ?_, ?_, hends, fun way => exists_repeated_of_directories⟩
    · rw [hwalk, List.map_cons, map_path_of_sees hsees]
      rfl
    · exact hordered.imp fun hor => hor.elim Precedes.ne And.right
    · intro route
      rw [hmem]
      constructor
      · exact fun hroute => ⟨loc, es, hfind, hroute⟩
      · rintro ⟨loc', es', hfind', hroute⟩
        rw [hfind] at hfind'
        cases hfind'
        exact hroute
    · intro route hroute
      have hlength := ((hmem route).1 hroute).length_le rfl
      have hunvisited : unvisited w.files [⟨root, loc⟩] ≤ w.files.directories.length :=
        List.countP_le_length
      have hmul := Nat.mul_le_mul_right (depth w.files + 1) hunvisited
      simp only [leeway] at hlength
      omega
  · have hnot : ∀ loc es, w.find true root ≠ .ok (loc, .directory es) :=
      fun loc es hfind => hroot ⟨loc, es, hfind⟩
    refine ⟨[], walk_of_not_directory hnot, .nil, ?_, by simp, hends,
      fun way => exists_repeated_of_directories⟩
    intro route
    simp only [List.not_mem_nil, false_iff]
    rintro ⟨loc, es, hfind, -⟩
    exact hnot loc es hfind

/-- In the suite `/p/s` the link `up` leads to `/p`, above the root. -/
def loopingWorld : World where
  files := ⟨[([112], .directory [([115], .directory [([117, 112], .link ⟨[47, 112]⟩)])])]⟩
  cwd := some []
  environment := ⟨[]⟩

theorem loopingWorld_wellFormed : loopingWorld.files.WellFormed := by
  refine .directory (by decide) (by decide) (List.forall_mem_singleton.2 ?_)
  refine .directory (by decide) (by decide) (List.forall_mem_singleton.2 ?_)
  exact .directory (by decide) (by decide) (List.forall_mem_singleton.2 (.link _))

/-- The walk enters `/p` through the link and then the suite again, which is on the way already and
is not a link. There the link is visited once more, and not followed. -/
theorem walk_ends_link_above_root :
    ∃ routes : List (List Bytes), (walk loopingWorld ⟨[47, 112, 47, 115]⟩).map Visit.path =
        ⟨[47, 112, 47, 115]⟩ :: routes.map (Path.joinAll ⟨[47, 112, 47, 115]⟩) ∧
      [[117, 112], [115], [117, 112]] ∈ routes ∧
      [[117, 112], [115], [117, 112], [115]] ∉ routes := by
  obtain ⟨routes, hpaths, -, hmem, -, -, -⟩ :=
    walk_ends loopingWorld loopingWorld_wellFormed ⟨[47, 112, 47, 115]⟩
  have hfind : loopingWorld.find true ⟨[47, 112, 47, 115]⟩ =
      .ok ([[112], [115]], .directory [([117, 112], .link ⟨[47, 112]⟩)]) := rfl
  let suite : Ancestor := ⟨⟨[47, 112, 47, 115]⟩, [[112], [115]]⟩
  let parent : Ancestor := ⟨suite.path.join ⟨[117, 112]⟩, [[112]]⟩
  have hup : Enters loopingWorld suite [] [117, 112] [[112]] :=
    .link ⟨_, rfl⟩ rfl ⟨_, rfl⟩ (by decide)
  have hagain : Enters loopingWorld parent [suite] [115] [[112], [115]] := .directory ⟨_, rfl⟩ rfl
  refine ⟨routes, hpaths, (hmem _).2 ⟨_, _, hfind, ?_⟩, fun h => ?_⟩
  · exact .enter hup (.enter hagain (.last ⟨_, rfl⟩))
  · obtain ⟨loc, es, hfind', hroute⟩ := (hmem _).1 h
    cases hfind.symm.trans hfind'
    rw [route_cons_iff hup (by simp), route_cons_iff hagain (by simp)] at hroute
    refine not_route_cons (fun target henters => ?_) (by simp) hroute
    obtain ⟨hlocate, -, hnew⟩ := (enters_link_iff ⟨_, rfl⟩).1 henters
    cases hlocate
    exact hnew (by decide)

end Discovery

end Conformance

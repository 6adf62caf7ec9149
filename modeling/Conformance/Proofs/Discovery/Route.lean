import Conformance.Proofs.FileSystem.Access
import Mathlib.Tactic.ByContra

/-!
# Routes of a walk

A route is the list of names from a directory down to an entry. `Enters` says
when a walk goes on below an entry: if the entry is a directory that is found by
its path, and if it is a link whose path leads to a directory that is not on the
way. The way holds the directories with the paths they were entered by, since it
is by the whole path that the operating system looks at a directory or a link. A
directory can be on the way twice, and the way alone bounds nothing. A walk does
not get past what is not found by its path, nor past a link to a directory on the
way (`Refuses`), and since that depends on how it got there, it is routes that are
refused (`Refused`).

What bounds a route is `leeway`, however long paths may be. A link that is
followed uses up one of the directories that are not on the way yet, and between
two links the walk goes down a tree whose depth is bounded, so every name of a
route costs some leeway (`Enters.leeway_lt`).
-/

namespace Conformance

namespace Discovery

def IsDirectoryAt (fs : FileSystem) (loc : Location) : Prop :=
  ∃ es, fs.get? loc = some (.directory es)

def IsLinkAt (fs : FileSystem) (loc : Location) : Prop :=
  ∃ path, fs.get? loc = some (.link path)

/-- From the directory `dir`, below the directories `above`, the walk enters the directory at a
location through the entry `name`. -/
inductive Enters (w : World) (dir : Ancestor) (above : List Ancestor) (name : Bytes) :
    Location → Prop where
  | directory (h : IsDirectoryAt w.files (dir.location ++ [name]))
      (hlocate : w.locate (dir.path.join ⟨name⟩) = .ok (dir.location ++ [name])) :
      Enters w dir above name (dir.location ++ [name])
  | link {target : Location} (h : IsLinkAt w.files (dir.location ++ [name]))
      (hlocate : w.locate (dir.path.join ⟨name⟩) = .ok target)
      (hdirectory : IsDirectoryAt w.files target)
      (hnew : target ∉ (dir :: above).map Ancestor.location) : Enters w dir above name target

/-- The walk enters the directories of all names but the last, which satisfies `ends` in the
directory it is in. The way to the first directory is given, the nearest directory first. -/
inductive Route (w : World) (ends : Ancestor → Bytes → Prop) :
    List Ancestor → List Bytes → Prop where
  | last {dir : Ancestor} {above : List Ancestor} {name : Bytes} (h : ends dir name) :
      Route w ends (dir :: above) [name]
  | enter {dir : Ancestor} {target : Location} {above : List Ancestor} {name : Bytes}
      {names : List Bytes} (h : Enters w dir above name target)
      (next : Route w ends (⟨dir.path.join ⟨name⟩, target⟩ :: dir :: above) names) :
      Route w ends (dir :: above) (name :: names)

def Holds (w : World) (dir : Ancestor) (name : Bytes) : Prop :=
  ∃ e, w.files.get? (dir.location ++ [name]) = some e

/-- The entry is a regular file or a link whose path leads to one. -/
inductive LeadsToFile (w : World) (dir : Ancestor) (name : Bytes) : Prop where
  | file {content : Bytes} {executable : Bool}
      (h : w.files.get? (dir.location ++ [name]) = some (.file content executable))
  | link {target : Location} {content : Bytes} {executable : Bool}
      (h : IsLinkAt w.files (dir.location ++ [name]))
      (hlocate : w.locate (dir.path.join ⟨name⟩) = .ok target)
      (hfile : w.files.get? target = some (.file content executable))

/-- From the directory `dir`, below the directories `above`, the walk does not get past the entry
`name`: a directory or a link that is not found by its path, or a link to a directory on the way. -/
inductive Refuses (w : World) (dir : Ancestor) (above : List Ancestor) (name : Bytes) :
    Obstacle → Prop where
  | unreadable {error : FileError}
      (h : IsDirectoryAt w.files (dir.location ++ [name]) ∨
        IsLinkAt w.files (dir.location ++ [name]))
      (hlocate : w.locate (dir.path.join ⟨name⟩) = .error error) :
      Refuses w dir above name (.unreadable error)
  | loop {target : Location} {ancestor : Ancestor} (h : IsLinkAt w.files (dir.location ++ [name]))
      (hlocate : w.locate (dir.path.join ⟨name⟩) = .ok target)
      (hdirectory : IsDirectoryAt w.files target)
      (hway : (dir :: above).find? (fun a => a.location == target) = some ancestor) :
      Refuses w dir above name (.loop ancestor.path)

variable {fs : FileSystem} {w : World} {dir : Ancestor} {loc target target' : Location}
  {above way : List Ancestor} {name : Bytes} {names : List Bytes} {o o' : Obstacle}
  {ends ends' : Ancestor → Bytes → Prop}

theorem not_isLinkAt {e : Entry} (h : fs.get? loc = some e) (hnot : ∀ path, e ≠ .link path) :
    ¬ IsLinkAt fs loc := by
  rintro ⟨path, hlink⟩
  exact hnot path (Option.some.inj (h.symm.trans hlink))

theorem IsDirectoryAt.not_isLinkAt (h : IsDirectoryAt fs loc) : ¬ IsLinkAt fs loc := by
  obtain ⟨es, hes⟩ := h
  exact Discovery.not_isLinkAt hes (by simp)

theorem Enters.locate_eq (h : Enters w dir above name target) :
    w.locate (dir.path.join ⟨name⟩) = .ok target := by
  cases h with
  | directory _ hlocate => exact hlocate
  | link _ hlocate => exact hlocate

theorem Enters.isDirectoryAt (h : Enters w dir above name target) :
    IsDirectoryAt w.files target := by
  cases h with
  | directory h => exact h
  | link _ _ hdirectory => exact hdirectory

theorem Enters.unique (h : Enters w dir above name target)
    (h' : Enters w dir above name target') : target = target' :=
  Except.ok.inj (h.locate_eq.symm.trans h'.locate_eq)

theorem IsDirectoryAt.holds (h : IsDirectoryAt w.files (dir.location ++ [name])) :
    Holds w dir name := by
  obtain ⟨es, hes⟩ := h
  exact ⟨_, hes⟩

theorem IsLinkAt.holds (h : IsLinkAt w.files (dir.location ++ [name])) : Holds w dir name := by
  obtain ⟨path, hlink⟩ := h
  exact ⟨_, hlink⟩

theorem Enters.holds (h : Enters w dir above name target) : Holds w dir name := by
  cases h with
  | directory h => exact h.holds
  | link h => exact h.holds

theorem Holds.isName (hw : w.files.WellFormed) (h : Holds w dir name) : IsName name := by
  obtain ⟨e, he⟩ := h
  obtain ⟨es, hes⟩ := FileSystem.get?_concat he
  rw [FileSystem.get?_append_singleton hes] at he
  exact (hw.get?_of_mem hes (mem_of_lookup he)).2

theorem enters_link_iff (h : IsLinkAt w.files (dir.location ++ [name])) :
    Enters w dir above name target ↔
      w.locate (dir.path.join ⟨name⟩) = .ok target ∧ IsDirectoryAt w.files target ∧
        target ∉ (dir :: above).map Ancestor.location := by
  constructor
  · intro henters
    cases henters with
    | directory hd => exact absurd h hd.not_isLinkAt
    | link h hlocate hdirectory hnew => exact ⟨hlocate, hdirectory, hnew⟩
  · rintro ⟨hlocate, hdirectory, hnew⟩
    exact .link h hlocate hdirectory hnew

/-- A directory that is found by its path is entered where it is. -/
theorem enters_directory_iff (hdir : w.locate dir.path = .ok dir.location) (hname : IsName name)
    (h : IsDirectoryAt w.files (dir.location ++ [name])) :
    Enters w dir above name target ↔
      target = dir.location ++ [name] ∧ ∃ loc, w.locate (dir.path.join ⟨name⟩) = .ok loc := by
  constructor
  · intro henters
    cases henters with
    | directory _ hlocate => exact ⟨rfl, _, hlocate⟩
    | link hl => exact absurd hl h.not_isLinkAt
  · rintro ⟨rfl, loc, hlocate⟩
    obtain ⟨es, hes⟩ := h
    have hself := World.locate_of_locate_join hdir hname hlocate
    obtain ⟨rfl, -⟩ := FileSystem.eq_of_locate_name hname hes (by simp) hself
    exact .directory ⟨es, hes⟩ hlocate

theorem leadsToFile_link_iff (h : IsLinkAt w.files (dir.location ++ [name])) :
    LeadsToFile w dir name ↔ ∃ target content executable,
      w.locate (dir.path.join ⟨name⟩) = .ok target ∧
        w.files.get? target = some (.file content executable) := by
  constructor
  · intro hleads
    cases hleads with
    | file hfile => exact absurd h (not_isLinkAt hfile (by simp))
    | link h hlocate hfile => exact ⟨_, _, _, hlocate, hfile⟩
  · rintro ⟨target, content, executable, hlocate, hfile⟩
    exact .link h hlocate hfile

theorem LeadsToFile.holds (h : LeadsToFile w dir name) : Holds w dir name := by
  cases h with
  | file h => exact ⟨_, h⟩
  | link h => exact h.holds

theorem LeadsToFile.not_enters (h : LeadsToFile w dir name) :
    ¬ Enters w dir above name target := by
  intro henters
  cases h with
  | file h =>
      cases henters with
      | directory hd =>
          obtain ⟨es, hes⟩ := hd
          simp [hes] at h
      | link hl => exact not_isLinkAt h (by simp) hl
  | link h hlocate hfile =>
      obtain ⟨hlocate', ⟨es, hes⟩, -⟩ := (enters_link_iff h).1 henters
      cases hlocate.symm.trans hlocate'
      simp [hes] at hfile

theorem find?_location_eq_none_iff :
    way.find? (fun a => a.location == target) = none ↔ target ∉ way.map Ancestor.location := by
  rw [List.find?_eq_none, List.mem_map]
  simp only [beq_iff_eq, not_exists, not_and]

theorem Refuses.holds (h : Refuses w dir above name o) : Holds w dir name := by
  cases h with
  | unreadable h => exact h.elim IsDirectoryAt.holds IsLinkAt.holds
  | loop h => exact h.holds

theorem Refuses.unique (h : Refuses w dir above name o) (h' : Refuses w dir above name o') :
    o = o' := by
  cases h with
  | unreadable _ hlocate =>
      cases h' with
      | unreadable _ hlocate' =>
          cases hlocate.symm.trans hlocate'
          rfl
      | loop _ hlocate' => cases hlocate.symm.trans hlocate'
  | loop _ hlocate _ hway =>
      cases h' with
      | unreadable _ hlocate' => cases hlocate.symm.trans hlocate'
      | loop _ hlocate' _ hway' =>
          cases hlocate.symm.trans hlocate'
          cases hway.symm.trans hway'
          rfl

theorem Refuses.not_enters (h : Refuses w dir above name o) :
    ¬ Enters w dir above name target := by
  intro henters
  cases h with
  | unreadable _ hlocate => cases hlocate.symm.trans henters.locate_eq
  | loop h hlocate _ hway =>
      obtain ⟨hlocate', -, hnew⟩ := (enters_link_iff h).1 henters
      cases hlocate.symm.trans hlocate'
      rw [← find?_location_eq_none_iff, hway] at hnew
      cases hnew

theorem Refuses.not_leadsToFile (h : Refuses w dir above name o) : ¬ LeadsToFile w dir name := by
  intro hleads
  cases hleads with
  | file hfile =>
      cases h with
      | unreadable h =>
          rcases h with ⟨es, hes⟩ | hlink
          · simp [hes] at hfile
          · exact not_isLinkAt hfile (by simp) hlink
      | loop h => exact not_isLinkAt hfile (by simp) h
  | link _ hlocate hfile =>
      cases h with
      | unreadable _ hlocate' => cases hlocate.symm.trans hlocate'
      | loop _ hlocate' hdirectory =>
          cases hlocate.symm.trans hlocate'
          obtain ⟨es, hes⟩ := hdirectory
          simp [hes] at hfile

theorem Route.ne_nil (h : Route w ends way names) : names ≠ [] := by
  cases h <;> simp

theorem Route.mono (himp : ∀ dir name, ends dir name → ends' dir name)
    (h : Route w ends way names) : Route w ends' way names := by
  induction h with
  | last h => exact .last (himp _ _ h)
  | enter h next ih => exact .enter h ih

theorem Route.holds_head (h : Route w (Holds w) (dir :: above) names) :
    ∃ name rest, names = name :: rest ∧ Holds w dir name := by
  cases h with
  | last h => exact ⟨_, _, rfl, h⟩
  | enter h next => exact ⟨_, _, rfl, h.holds⟩

theorem not_route_nil : ¬ Route w ends way [] := fun h => h.ne_nil rfl

theorem route_singleton_iff : Route w ends (dir :: above) [name] ↔ ends dir name := by
  constructor
  · intro h
    cases h with
    | last h => exact h
    | enter h next => exact absurd next not_route_nil
  · exact .last

/-- A route of more than one name starts by entering a directory. -/
theorem Route.exists_enters (h : Route w ends way (name :: names)) (hne : names ≠ []) :
    ∃ dir above target, way = dir :: above ∧ Enters w dir above name target := by
  cases h with
  | last => exact absurd rfl hne
  | enter h next => exact ⟨_, _, _, rfl, h⟩

theorem route_cons_iff (h : Enters w dir above name target) (hne : names ≠ []) :
    Route w ends (dir :: above) (name :: names) ↔
      Route w ends (⟨dir.path.join ⟨name⟩, target⟩ :: dir :: above) names := by
  constructor
  · intro hroute
    cases hroute with
    | last => exact absurd rfl hne
    | enter h' next => exact h.unique h' ▸ next
  · exact .enter h

theorem not_route_cons (h : ∀ target, ¬ Enters w dir above name target) (hne : names ≠ []) :
    ¬ Route w ends (dir :: above) (name :: names) := by
  intro hroute
  cases hroute with
  | last => exact hne rfl
  | enter h' next => exact h _ h'

/-- The walk enters the directories of all names but the last, which it does not get past. -/
inductive Refused (w : World) : List Ancestor → List Bytes → Obstacle → Prop where
  | last {dir : Ancestor} {above : List Ancestor} {name : Bytes} {o : Obstacle}
      (h : Refuses w dir above name o) : Refused w (dir :: above) [name] o
  | enter {dir : Ancestor} {target : Location} {above : List Ancestor} {name : Bytes}
      {names : List Bytes} {o : Obstacle} (h : Enters w dir above name target)
      (next : Refused w (⟨dir.path.join ⟨name⟩, target⟩ :: dir :: above) names o) :
      Refused w (dir :: above) (name :: names) o

theorem Refused.route (h : Refused w way names o) : Route w (Holds w) way names := by
  induction h with
  | last h => exact .last h.holds
  | enter h next ih => exact .enter h ih

theorem refused_singleton_iff :
    Refused w (dir :: above) [name] o ↔ Refuses w dir above name o := by
  constructor
  · intro h
    cases h with
    | last h => exact h
    | enter h next => exact absurd next.route not_route_nil
  · exact .last

theorem refused_cons_iff (h : Enters w dir above name target) (hne : names ≠ []) :
    Refused w (dir :: above) (name :: names) o ↔
      Refused w (⟨dir.path.join ⟨name⟩, target⟩ :: dir :: above) names o := by
  constructor
  · intro hrefused
    cases hrefused with
    | last => exact absurd rfl hne
    | enter h' next => exact h.unique h' ▸ next
  · exact .enter h

theorem Refused.unique (h : Refused w way names o) (h' : Refused w way names o') : o = o' := by
  induction h with
  | last h => exact h.unique (refused_singleton_iff.1 h')
  | enter h next ih => exact ih ((refused_cons_iff h next.route.ne_nil).1 h')

theorem Refused.not_leadsToFile (h : Refused w way names o) :
    ¬ Route w (LeadsToFile w) way names := by
  induction h with
  | last h => exact fun hroute => h.not_leadsToFile (route_singleton_iff.1 hroute)
  | enter h next ih => exact fun hroute => ih ((route_cons_iff h next.route.ne_nil).1 hroute)

/-- The length of the longest way down to a directory, links apart. -/
def depth (fs : FileSystem) : Nat := (fs.directories.map List.length).foldr max 0

/-- How many directories are not on a way. -/
def unvisited (fs : FileSystem) (way : List Ancestor) : Nat :=
  fs.directories.countP fun d => decide (d ∉ way.map Ancestor.location)

/-- What is left for a walk to go on with: for each directory that is not on the way as much as the
depth of the tree allows, and what is left of that below the directory it is in. -/
def leeway (fs : FileSystem) (dir : Ancestor) (above : List Ancestor) : Nat :=
  unvisited fs (dir :: above) * (depth fs + 1) + (depth fs - dir.location.length)

theorem IsDirectoryAt.mem_directories (h : IsDirectoryAt fs loc) : loc ∈ fs.directories := by
  obtain ⟨es, hes⟩ := h
  simpa [FileSystem.directories] using mem_directories_of_get? [] hes

theorem le_foldr_max {l : List Nat} {n : Nat} (h : n ∈ l) : n ≤ l.foldr max 0 := by
  induction l with
  | nil => cases h
  | cons m l ih =>
      rcases List.mem_cons.1 h with rfl | h
      · exact Nat.le_max_left _ _
      · exact Nat.le_trans (ih h) (Nat.le_max_right _ _)

theorem IsDirectoryAt.length_le_depth (h : IsDirectoryAt fs loc) : loc.length ≤ depth fs :=
  le_foldr_max (List.mem_map_of_mem h.mem_directories)

theorem unvisited_cons_le (fs : FileSystem) (dir : Ancestor) (way : List Ancestor) :
    unvisited fs (dir :: way) ≤ unvisited fs way := by
  refine List.countP_mono_left fun d _ hd => ?_
  simp only [decide_eq_true_eq, List.map_cons, List.mem_cons, not_or] at hd ⊢
  exact hd.2

theorem unvisited_cons_lt (h : IsDirectoryAt fs dir.location)
    (hnew : dir.location ∉ way.map Ancestor.location) :
    unvisited fs (dir :: way) < unvisited fs way := by
  refine countP_lt_countP (fun d _ hd => ?_) h.mem_directories (by simp)
    (decide_eq_true hnew)
  simp only [decide_eq_true_eq, List.map_cons, List.mem_cons, not_or] at hd ⊢
  exact hd.2

/-- A directory in the one before costs leeway. -/
theorem leeway_lt_of_child (dir : Ancestor) (h : IsDirectoryAt fs (dir.location ++ [name]))
    (path : Path) :
    leeway fs ⟨path, dir.location ++ [name]⟩ (dir :: above) < leeway fs dir above := by
  have hdepth := h.length_le_depth
  have hle := Nat.mul_le_mul_right (depth fs + 1)
    (unvisited_cons_le fs ⟨path, dir.location ++ [name]⟩ (dir :: above))
  rw [List.length_append, List.length_singleton] at hdepth
  simp only [leeway, List.length_append, List.length_singleton]
  omega

/-- A directory that is new on the way costs leeway: one directory fewer is worth more than all the
depth there is. -/
theorem leeway_lt_of_new (h : IsDirectoryAt fs target)
    (hnew : target ∉ (dir :: above).map Ancestor.location) (path : Path) :
    leeway fs ⟨path, target⟩ (dir :: above) < leeway fs dir above := by
  have hfewer : unvisited fs (⟨path, target⟩ :: dir :: above) < unvisited fs (dir :: above) :=
    unvisited_cons_lt h hnew
  have hlt := Nat.mul_le_mul_right (depth fs + 1) hfewer
  rw [Nat.succ_mul] at hlt
  simp only [leeway]
  omega

/-- Entering a directory costs leeway, through a link or not. -/
theorem Enters.leeway_lt (h : Enters w dir above name target) (path : Path) :
    leeway w.files ⟨path, target⟩ (dir :: above) < leeway w.files dir above := by
  cases h with
  | directory h => exact leeway_lt_of_child dir h path
  | link _ _ hdirectory hnew => exact leeway_lt_of_new hdirectory hnew path

/-- The leeway bounds every route. -/
theorem Route.length_le (h : Route w ends way names) (hway : way = dir :: above) :
    names.length ≤ leeway w.files dir above + 1 := by
  induction h generalizing dir above with
  | last h => simp
  | enter h next ih =>
      cases hway
      have hlength := ih rfl
      exact Nat.succ_le_succ (Nat.le_trans hlength (h.leeway_lt _))

/-- The directories of a sequence up to a place, without paths and the last one first. -/
def trail (way : Nat → Location) (n : Nat) : List Ancestor :=
  (List.range n).reverse.map fun m => ⟨⟨[]⟩, way m⟩

theorem trail_succ (way : Nat → Location) (n : Nat) :
    trail way (n + 1) = ⟨⟨[]⟩, way n⟩ :: trail way n := by
  simp [trail, List.range_succ]

/-- Of directories that follow each other for ever, one is neither in the one before nor new. -/
theorem exists_repeated_of_directories {way : Nat → Location}
    (h : ∀ n, IsDirectoryAt fs (way n)) :
    ∃ n, (∀ name, way (n + 1) ≠ way n ++ [name]) ∧ ∃ m ≤ n, way (n + 1) = way m := by
  by_contra hnever
  simp only [not_exists, not_and] at hnever
  have hlt (n : Nat) : leeway fs ⟨⟨[]⟩, way (n + 1)⟩ (trail way (n + 1)) <
      leeway fs ⟨⟨[]⟩, way n⟩ (trail way n) := by
    rw [trail_succ]
    by_cases hchild : ∃ name, way (n + 1) = way n ++ [name]
    · obtain ⟨name, hname⟩ := hchild
      have hdirectory := h (n + 1)
      rw [hname] at hdirectory ⊢
      exact leeway_lt_of_child ⟨_, way n⟩ hdirectory _
    · refine leeway_lt_of_new (h (n + 1)) ?_ _
      rw [← trail_succ, List.mem_map]
      rintro ⟨ancestor, hmem, hlocation⟩
      obtain ⟨m, hm, rfl⟩ := List.mem_map.1 hmem
      rw [List.mem_reverse, List.mem_range] at hm
      exact hnever n (fun name hname => hchild ⟨name, hname⟩) m (Nat.le_of_lt_succ hm)
        hlocation.symm
  have hspent (n : Nat) :
      leeway fs ⟨⟨[]⟩, way n⟩ (trail way n) + n ≤ leeway fs ⟨⟨[]⟩, way 0⟩ (trail way 0) := by
    induction n with
    | zero => exact Nat.le_refl _
    | succ n ih =>
        have hstep := hlt n
        omega
  have hover := hspent (leeway fs ⟨⟨[]⟩, way 0⟩ (trail way 0) + 1)
  omega

end Discovery

end Conformance

import Conformance.Proofs.Discovery.Walk
import Conformance.Proofs.FileSystem.Pruning

/-!
# The same tree in two places

A walk goes by the names of entries, by which of them are directories and which
lead to files, and by where links to directories lead. Two directories hold the
same tree if the directories that a walk from the one can enter pair up with
those that a walk from the other can enter, one to one, so that paired
directories agree in all of this (`SameTree`).

The paths of the two places differ, and so the operating system may refuse in the
one what it accepts in the other. If what is of use to one walk is not kept from
the other (`Grants`), then the two go on abreast: the loop check compares
directories only with each other, so it comes to the same answer on paired ways,
and routes and their order are the same in both places (`Route.carry`,
`Precedes.carry`). A walk that no limit stops is shown all of the same tree
(`Unhindered.grants`).
-/

namespace Conformance

namespace Discovery

/-- The entry is a link that by itself leads to a directory. -/
structure LinksTo (fs : FileSystem) (dir : Location) (name : Bytes) (target : Location) :
    Prop where
  isLink : IsLinkAt fs (dir ++ [name])
  locate_eq : fs.locate true dir [name] = .ok target
  directory : IsDirectoryAt fs target

/-- The entry is a regular file or a link that by itself leads to one. -/
inductive HoldsFile (fs : FileSystem) (dir : Location) (name : Bytes) : Prop where
  | file {content : Bytes} {executable : Bool}
      (h : fs.get? (dir ++ [name]) = some (.file content executable))
  | link {target : Location} {content : Bytes} {executable : Bool}
      (h : IsLinkAt fs (dir ++ [name])) (hlocate : fs.locate true dir [name] = .ok target)
      (hfile : fs.get? target = some (.file content executable))

/-- What is in a directory is in the paired one too, and leads to paired directories. -/
structure Carries (fs fs' : FileSystem) (pair : Location → Location → Prop) : Prop where
  directory : ∀ {dir dir' : Location} {name : Bytes}, pair dir dir' →
    IsDirectoryAt fs (dir ++ [name]) →
      IsDirectoryAt fs' (dir' ++ [name]) ∧ pair (dir ++ [name]) (dir' ++ [name])
  link : ∀ {dir dir' target : Location} {name : Bytes}, pair dir dir' →
    LinksTo fs dir name target → ∃ target', LinksTo fs' dir' name target' ∧ pair target target'
  file : ∀ {dir dir' : Location} {name : Bytes}, pair dir dir' →
    HoldsFile fs dir name → HoldsFile fs' dir' name

/-- Directories are paired one to one, and paired directories have the same in them. -/
structure Matches (fs fs' : FileSystem) (pair : Location → Location → Prop) : Prop where
  eq_iff : ∀ {dir dir' target target' : Location}, pair dir dir' → pair target target' →
    (dir = target ↔ dir' = target')
  forth : Carries fs fs' pair
  back : Carries fs' fs (flip pair)

def SameTree (fs : FileSystem) (dir : Location) (fs' : FileSystem) (dir' : Location) : Prop :=
  ∃ pair, Matches fs fs' pair ∧ pair dir dir'

/-- The entry is a link that leads nowhere by itself, whatever path it is looked at by. -/
def LeadsNowhere (w : World) (dir : Ancestor) (name : Bytes) : Prop :=
  IsLinkAt w.files (dir.location ++ [name]) ∧
    ∃ error, w.files.locate true dir.location [name] = .error error

/-- The entry is of use to a walk: a directory, a link to one, or what leads to a file. -/
inductive Yields (w : World) (dir : Ancestor) (name : Bytes) : Prop where
  | directory {loc : Location} (h : IsDirectoryAt w.files (dir.location ++ [name]))
      (hlocate : w.locate (dir.path.join ⟨name⟩) = .ok loc)
  | link {target : Location} (h : IsLinkAt w.files (dir.location ++ [name]))
      (hlocate : w.locate (dir.path.join ⟨name⟩) = .ok target)
      (hdirectory : IsDirectoryAt w.files target)
  | file (h : LeadsToFile w dir name)

/-- A walk is shown the entry: directories and links by their paths, if these are accepted, and
anything else with the directory that it is in. -/
def IsShown (w : World) (dir : Ancestor) (name : Bytes) : Prop :=
  (∃ loc, w.locate (dir.path.join ⟨name⟩) = .ok loc) ∨
    (Holds w dir name ∧ ¬ IsDirectoryAt w.files (dir.location ++ [name]) ∧
      ¬ IsLinkAt w.files (dir.location ++ [name]))

/-- What is of use to a walk is not kept from another walk where the other one comes to it. -/
def Grants (w : World) (way : List Ancestor) (w' : World) (way' : List Ancestor) : Prop :=
  ∀ route, Route w (Yields w) way route → Route w' (Holds w') way' route →
    Route w' (IsShown w') way' route

/-- No limit of the operating system stops the walk: what is not found by its path is a link that
leads nowhere. -/
def Unhindered (w : World) (way : List Ancestor) : Prop :=
  ∀ route error, Refused w way route (.unreadable error) → Route w (LeadsNowhere w) way route

/-- Limits do not tell two walks apart: they stop neither, or keep from each only what is of no use
to the other. -/
def ShownAlike (w : World) (way : List Ancestor) (w' : World) (way' : List Ancestor) : Prop :=
  (Unhindered w way ∧ Unhindered w' way') ∨ (Grants w way w' way' ∧ Grants w' way' w way)

/-- Two walks stand in paired directories, which they came to through paired ones. -/
structure Beside (w w' : World) (pair : Location → Location → Prop) (dir : Ancestor)
    (above : List Ancestor) (dir' : Ancestor) (above' : List Ancestor) : Prop where
  pairs : List.Forall₂ (fun a a' => pair a.location a'.location) (dir :: above) (dir' :: above')
  locate_eq : w.locate dir.path = .ok dir.location
  locate_eq' : w'.locate dir'.path = .ok dir'.location

/-- Two walks stand in paired directories, and the second one is shown what the first one uses. -/
structure Abreast (w w' : World) (pair : Location → Location → Prop) (dir : Ancestor)
    (above : List Ancestor) (dir' : Ancestor) (above' : List Ancestor) : Prop
    extends Beside w w' pair dir above dir' above' where
  grants : Grants w (dir :: above) w' (dir' :: above')

variable {fs fs' : FileSystem} {w w' : World} {pair : Location → Location → Prop}
  {dir dir' : Ancestor} {loc loc' target target' : Location} {above above' way way' : List Ancestor}
  {name : Bytes} {names names' : List Bytes} {ends ends' : Ancestor → Bytes → Prop}

theorem Matches.symm (h : Matches fs fs' pair) : Matches fs' fs (flip pair) where
  eq_iff := fun hdir htarget => (h.eq_iff hdir htarget).symm
  forth := h.back
  back := h.forth

theorem Matches.isDirectoryAt_iff (h : Matches fs fs' pair) (hdir : pair loc loc') (name : Bytes) :
    IsDirectoryAt fs (loc ++ [name]) ↔ IsDirectoryAt fs' (loc' ++ [name]) :=
  ⟨fun hname => (h.forth.directory hdir hname).1, fun hname => (h.back.directory hdir hname).1⟩

theorem Matches.mem_iff (h : Matches fs fs' pair) (htarget : pair target target')
    (hway : List.Forall₂ (fun a a' => pair a.location a'.location) way way') :
    target ∈ way.map Ancestor.location ↔ target' ∈ way'.map Ancestor.location := by
  induction hway with
  | nil => simp
  | cons hdir _ ih =>
      rw [List.map_cons, List.map_cons, List.mem_cons, List.mem_cons, ih, h.eq_iff htarget hdir]

theorem IsShown.exists_locate (h : IsShown w dir name)
    (hlooked : IsDirectoryAt w.files (dir.location ++ [name]) ∨
      IsLinkAt w.files (dir.location ++ [name])) :
    ∃ loc, w.locate (dir.path.join ⟨name⟩) = .ok loc := by
  rcases h with hlocate | ⟨-, hdirectory, hlink⟩
  · exact hlocate
  · exact absurd hlooked (not_or.2 ⟨hdirectory, hlink⟩)

theorem isShown_of_file {content : Bytes} {executable : Bool}
    (h : w.files.get? (dir.location ++ [name]) = some (.file content executable)) :
    IsShown w dir name := by
  refine .inr ⟨⟨_, h⟩, ?_, not_isLinkAt h (by simp)⟩
  rintro ⟨es, hes⟩
  simp [hes] at h

theorem leadsToFile_iff (hdir : w.locate dir.path = .ok dir.location) (hname : IsName name) :
    LeadsToFile w dir name ↔ HoldsFile w.files dir.location name ∧ IsShown w dir name := by
  constructor
  · intro h
    cases h with
    | file h => exact ⟨.file h, isShown_of_file h⟩
    | link h hlocate hfile =>
        exact ⟨.link h (World.locate_of_locate_join hdir hname hlocate) hfile, .inl ⟨_, hlocate⟩⟩
  · rintro ⟨h, hshown⟩
    cases h with
    | file h => exact .file h
    | link h hself hfile =>
        obtain ⟨loc, hlocate⟩ := hshown.exists_locate (.inr h)
        have hsame := World.locate_of_locate_join hdir hname hlocate
        cases hself.symm.trans hsame
        exact .link h hlocate hfile

theorem HoldsFile.holds (h : HoldsFile w.files dir.location name) : Holds w dir name := by
  cases h with
  | file h => exact ⟨_, h⟩
  | link h => exact h.holds

theorem Enters.yields (h : Enters w dir above name target) : Yields w dir name := by
  cases h with
  | directory h hlocate => exact .directory h hlocate
  | link h hlocate hdirectory => exact .link h hlocate hdirectory

theorem Grants.isShown (h : Grants w (dir :: above) w' (dir' :: above'))
    (hyields : Yields w dir name) (hholds : Holds w' dir' name) : IsShown w' dir' name :=
  route_singleton_iff.1 (h [name] (.last hyields) (.last hholds))

theorem Grants.enter (h : Grants w (dir :: above) w' (dir' :: above'))
    (henters : Enters w dir above name target) (henters' : Enters w' dir' above' name target') :
    Grants w (⟨dir.path.join ⟨name⟩, target⟩ :: dir :: above) w'
      (⟨dir'.path.join ⟨name⟩, target'⟩ :: dir' :: above') := by
  intro route hroute hroute'
  exact (route_cons_iff henters' hroute.ne_nil).1
    (h (name :: route) (.enter henters hroute) (.enter henters' hroute'))

theorem Unhindered.enter (h : Unhindered w (dir :: above))
    (henters : Enters w dir above name target) :
    Unhindered w (⟨dir.path.join ⟨name⟩, target⟩ :: dir :: above) := by
  intro route error hrefused
  exact (route_cons_iff henters hrefused.route.ne_nil).1 (h _ error (.enter henters hrefused))

/-- What one walk enters, the walk beside it enters too if it finds what is there. -/
theorem Enters.beside (hw : w.files.WellFormed) (h : Matches w.files w'.files pair)
    (hbeside : Beside w w' pair dir above dir' above') (henters : Enters w dir above name target)
    (hfound : Holds w' dir' name → IsShown w' dir' name) :
    ∃ target', Enters w' dir' above' name target' ∧
      Beside w w' pair ⟨dir.path.join ⟨name⟩, target⟩ (dir :: above)
        ⟨dir'.path.join ⟨name⟩, target'⟩ (dir' :: above') := by
  have hname := henters.holds.isName hw
  have hdir := (List.forall₂_cons.1 hbeside.pairs).1
  suffices hentered : ∃ target', Enters w' dir' above' name target' ∧ pair target target' by
    obtain ⟨target', henters', hpair⟩ := hentered
    exact ⟨target', henters', .cons hpair hbeside.pairs, henters.locate_eq, henters'.locate_eq⟩
  cases henters with
  | directory hdirectory =>
      obtain ⟨hdirectory', hpair⟩ := h.forth.directory hdir hdirectory
      have hlocate := (hfound hdirectory'.holds).exists_locate (.inl hdirectory')
      refine ⟨_, ?_, hpair⟩
      exact (enters_directory_iff hbeside.locate_eq' hname hdirectory').2 ⟨rfl, hlocate⟩
  | link hlink hlocate hdirectory hnew =>
      have hself := World.locate_of_locate_join hbeside.locate_eq hname hlocate
      obtain ⟨target', hlinks, hpair⟩ := h.forth.link hdir ⟨hlink, hself, hdirectory⟩
      obtain ⟨loc, hlocate'⟩ := (hfound hlinks.isLink.holds).exists_locate (.inr hlinks.isLink)
      have hself' := World.locate_of_locate_join hbeside.locate_eq' hname hlocate'
      cases hlinks.locate_eq.symm.trans hself'
      rw [h.mem_iff hpair hbeside.pairs] at hnew
      exact ⟨target', .link hlinks.isLink hlocate' hlinks.directory hnew, hpair⟩

theorem Enters.carry (hw : w.files.WellFormed) (h : Matches w.files w'.files pair)
    (habreast : Abreast w w' pair dir above dir' above')
    (henters : Enters w dir above name target) :
    ∃ target', Enters w' dir' above' name target' ∧
      Abreast w w' pair ⟨dir.path.join ⟨name⟩, target⟩ (dir :: above)
        ⟨dir'.path.join ⟨name⟩, target'⟩ (dir' :: above') := by
  obtain ⟨target', henters', hbeside⟩ := henters.beside hw h habreast.toBeside
    (habreast.grants.isShown henters.yields)
  exact ⟨target', henters', hbeside, habreast.grants.enter henters henters'⟩

theorem LeadsToFile.carry (hw : w.files.WellFormed) (h : Matches w.files w'.files pair)
    (habreast : Abreast w w' pair dir above dir' above') (hleads : LeadsToFile w dir name) :
    LeadsToFile w' dir' name := by
  have hname := hleads.holds.isName hw
  obtain ⟨hfile, -⟩ := (leadsToFile_iff habreast.locate_eq hname).1 hleads
  have hfile' := h.forth.file (List.forall₂_cons.1 habreast.pairs).1 hfile
  exact (leadsToFile_iff habreast.locate_eq' hname).2
    ⟨hfile', habreast.grants.isShown (.file hleads) hfile'.holds⟩

theorem Yields.not_leadsNowhere (hname : IsName name) (h : Matches w.files w'.files pair)
    (hbeside : Beside w w' pair dir above dir' above') (hyields : Yields w dir name) :
    ¬ LeadsNowhere w' dir' name := by
  have hdir := (List.forall₂_cons.1 hbeside.pairs).1
  rintro ⟨hlink, error, hself⟩
  cases hyields with
  | directory hdirectory => exact (h.forth.directory hdir hdirectory).1.not_isLinkAt hlink
  | link hlinked hlocate hdirectory =>
      have hself' := World.locate_of_locate_join hbeside.locate_eq hname hlocate
      obtain ⟨target', hlinks, -⟩ := h.forth.link hdir ⟨hlinked, hself', hdirectory⟩
      cases hself.symm.trans hlinks.locate_eq
  | file hleads =>
      obtain ⟨hfile, -⟩ := (leadsToFile_iff hbeside.locate_eq hname).1 hleads
      cases h.forth.file hdir hfile with
      | file hfile => exact not_isLinkAt hfile (by simp) hlink
      | link _ hlocate => cases hself.symm.trans hlocate

/-- A walk that no limit stops is shown everything but links that lead nowhere. -/
theorem Unhindered.isShown (h : Unhindered w (dir :: above)) (hholds : Holds w dir name)
    (hleads : ¬ LeadsNowhere w dir name) : IsShown w dir name := by
  by_cases hlooked : IsDirectoryAt w.files (dir.location ++ [name]) ∨
      IsLinkAt w.files (dir.location ++ [name])
  · cases hlocate : w.locate (dir.path.join ⟨name⟩) with
    | error error =>
        have hrefused : Refused w (dir :: above) [name] (.unreadable error) :=
          .last (.unreadable hlooked hlocate)
        exact absurd (route_singleton_iff.1 (h _ _ hrefused)) hleads
    | ok loc => exact .inl ⟨loc, hlocate⟩
  · exact .inr ⟨hholds, not_or.1 hlooked⟩

/-- Of the same tree, a walk that no limit stops is shown all that is of use to another walk. -/
theorem Unhindered.grants (hunhindered : Unhindered w' (dir' :: above')) (hw : w.files.WellFormed)
    (hw' : w'.files.WellFormed) (h : Matches w.files w'.files pair)
    (hbeside : Beside w w' pair dir above dir' above') :
    Grants w (dir :: above) w' (dir' :: above') := by
  intro route hroute hroute'
  generalize hway : dir :: above = way at hroute
  induction hroute generalizing dir above dir' above' with
  | last hyields =>
      cases hway
      have hholds := route_singleton_iff.1 hroute'
      have hnowhere := hyields.not_leadsNowhere (hholds.isName hw') h hbeside
      exact .last (hunhindered.isShown hholds hnowhere)
  | enter henters next ih =>
      cases hway
      obtain ⟨_, _, target', hway', henters'⟩ := hroute'.exists_enters next.ne_nil
      cases hway'
      obtain ⟨target'', henters'', hbelow⟩ :=
        henters.beside hw h hbeside fun _ => .inl ⟨_, henters'.locate_eq⟩
      exact .enter henters'' (ih (hunhindered.enter henters'') hbelow
        ((route_cons_iff henters'' next.ne_nil).1 hroute') rfl)

theorem SameTree.symm (h : SameTree fs loc fs' loc') : SameTree fs' loc' fs loc := by
  obtain ⟨pair, hmatches, hpair⟩ := h
  exact ⟨flip pair, hmatches.symm, hpair⟩

theorem SameTree.grants {root root' : Path} (h : SameTree w.files loc w'.files loc')
    (hw : w.files.WellFormed) (hw' : w'.files.WellFormed) (hroot : w.locate root = .ok loc)
    (hroot' : w'.locate root' = .ok loc') (hunhindered : Unhindered w' [⟨root', loc'⟩]) :
    Grants w [⟨root, loc⟩] w' [⟨root', loc'⟩] := by
  obtain ⟨pair, hmatches, hpair⟩ := h
  exact hunhindered.grants hw hw' hmatches ⟨.cons hpair .nil, hroot, hroot'⟩

theorem SameTree.grants_both {root root' : Path} (h : SameTree w.files loc w'.files loc')
    (hw : w.files.WellFormed) (hw' : w'.files.WellFormed) (hroot : w.locate root = .ok loc)
    (hroot' : w'.locate root' = .ok loc')
    (hshown : ShownAlike w [⟨root, loc⟩] w' [⟨root', loc'⟩]) :
    Grants w [⟨root, loc⟩] w' [⟨root', loc'⟩] ∧ Grants w' [⟨root', loc'⟩] w [⟨root, loc⟩] := by
  rcases hshown with ⟨hunhindered, hunhindered'⟩ | hgrants
  · exact ⟨h.grants hw hw' hroot hroot' hunhindered', h.symm.grants hw' hw hroot' hroot hunhindered⟩
  · exact hgrants

theorem Route.carry (hw : w.files.WellFormed) (h : Matches w.files w'.files pair)
    (habreast : Abreast w w' pair dir above dir' above')
    (hends : ∀ {dir above dir' above' name}, Abreast w w' pair dir above dir' above' →
      ends dir name → ends' dir' name)
    (hroute : Route w ends (dir :: above) names) : Route w' ends' (dir' :: above') names := by
  generalize hway : dir :: above = way at hroute
  induction hroute generalizing dir above dir' above' with
  | last hlast =>
      cases hway
      exact .last (hends habreast hlast)
  | enter henters next ih =>
      cases hway
      obtain ⟨target', henters', hbelow⟩ := henters.carry hw h habreast
      exact .enter henters' (ih hbelow rfl)

theorem Precedes.carry (hw : w.files.WellFormed) (h : Matches w.files w'.files pair)
    (habreast : Abreast w w' pair dir above dir' above')
    (hprecedes : Precedes w (dir :: above) names names') :
    Precedes w' (dir' :: above') names names' := by
  generalize hway : dir :: above = way at hprecedes
  induction hprecedes generalizing dir above dir' above' with
  | differ hbefore =>
      cases hway
      have hdir := (List.forall₂_cons.1 habreast.pairs).1
      refine .differ ?_
      rwa [Before, ← h.isDirectoryAt_iff hdir, ← h.isDirectoryAt_iff hdir]
  | enter henters next ih =>
      cases hway
      obtain ⟨target', henters', hbelow⟩ := henters.carry hw h habreast
      exact .enter henters' (ih hbelow rfl)

/-- A walk goes by the same, whatever links that lead nowhere are missing. -/
theorem carries_of_keeps (h : fs.Keeps fs') : Carries fs fs' Eq where
  directory := by
    rintro dir _ name rfl ⟨es, hes⟩
    exact ⟨h.directory hes, rfl⟩
  link := by
    rintro dir _ target name rfl ⟨⟨path, hlink⟩, hlocate, es, hes⟩
    exact ⟨target, ⟨⟨path, h.link hlink hlocate⟩, h.locate_eq hlocate, h.directory hes⟩, rfl⟩
  file := by
    rintro dir _ name rfl (hfile | ⟨⟨path, hlink⟩, hlocate, hfile⟩)
    · exact .file (h.file hfile)
    · exact .link ⟨path, h.link hlink hlocate⟩ (h.locate_eq hlocate) (h.file hfile)

theorem sameTree_of_keeps (h : fs.Keeps fs') (h' : fs'.Keeps fs) (dir : Location) :
    SameTree fs dir fs' dir := by
  refine ⟨Eq, ⟨?_, carries_of_keeps h, ?_⟩, rfl⟩
  · rintro dir _ target _ rfl rfl
    exact Iff.rfl
  · have hflip : flip (Eq : Location → Location → Prop) = Eq := by
      funext dir dir'
      exact propext eq_comm
    rw [hflip]
    exact carries_of_keeps h'

theorem sameTree_refl (fs : FileSystem) (dir : Location) : SameTree fs dir fs dir :=
  sameTree_of_keeps (FileSystem.Alike.keeps fun _ => rfl) (FileSystem.Alike.keeps fun _ => rfl) dir

/-- What is kept is shown by the same paths as before. -/
theorem grants_of_keeps {files : FileSystem} (h : w.files.Keeps files) (way : List Ancestor) :
    Grants w way { w with files } way := by
  intro route hroute hroute'
  generalize hsame : way = way' at hroute'
  induction hroute generalizing way' with
  | @last dir above name hyields =>
      subst hsame
      refine .last ?_
      cases hyields with
      | directory _ hlocate => exact .inl ⟨_, World.locate_of_keeps h hlocate⟩
      | link _ hlocate => exact .inl ⟨_, World.locate_of_keeps h hlocate⟩
      | file hleads =>
          cases hleads with
          | file hfile => exact isShown_of_file (h.file hfile)
          | link _ hlocate => exact .inl ⟨_, World.locate_of_keeps h hlocate⟩
  | enter henters next ih =>
      subst hsame
      obtain ⟨dir, above, target, hway, henters'⟩ := hroute'.exists_enters next.ne_nil
      cases hway
      have hlocate := World.locate_of_keeps h henters.locate_eq
      cases hlocate.symm.trans henters'.locate_eq
      exact .enter henters' (ih _ rfl ((route_cons_iff henters' next.ne_nil).1 hroute'))

/-- The locations are reached from two places by the same names. -/
def Corresponds (dir dir' loc loc' : Location) : Prop :=
  ∃ names, loc = dir ++ names ∧ loc' = dir' ++ names

theorem carries_of_copies
    (hsame : ∀ names, names ≠ [] → fs.get? (loc ++ names) = fs'.get? (loc' ++ names))
    (hplain : ∀ names path, names ≠ [] → fs.get? (loc ++ names) ≠ some (.link path)) :
    Carries fs fs' (Corresponds loc loc') where
  directory := by
    rintro _ _ name ⟨names, rfl, rfl⟩ hdirectory
    rw [List.append_assoc] at hdirectory ⊢
    rw [List.append_assoc]
    refine ⟨?_, _, rfl, rfl⟩
    rwa [IsDirectoryAt, ← hsame _ (by simp)]
  link := by
    rintro _ _ target name ⟨names, rfl, rfl⟩ ⟨⟨path, hlink⟩, -, -⟩
    rw [List.append_assoc] at hlink
    exact absurd hlink (hplain _ path (by simp))
  file := by
    rintro _ _ name ⟨names, rfl, rfl⟩ (hfile | ⟨⟨path, hlink⟩, -, -⟩)
    · rw [List.append_assoc, hsame _ (by simp), ← List.append_assoc] at hfile
      exact .file hfile
    · rw [List.append_assoc] at hlink
      exact absurd hlink (hplain _ _ (by simp))

/-- Copies of a tree without links are the same tree. -/
theorem sameTree_of_copies
    (hsame : ∀ names, names ≠ [] → fs.get? (loc ++ names) = fs'.get? (loc' ++ names))
    (hplain : ∀ names path, names ≠ [] → fs.get? (loc ++ names) ≠ some (.link path)) :
    SameTree fs loc fs' loc' := by
  refine ⟨Corresponds loc loc', ⟨?_, carries_of_copies hsame hplain, ?_⟩, [], by simp, by simp⟩
  · rintro _ _ _ _ ⟨names, rfl, rfl⟩ ⟨names', rfl, rfl⟩
    rw [List.append_cancel_left_eq, List.append_cancel_left_eq]
  · have hflip : flip (Corresponds loc loc') = Corresponds loc' loc := by
      funext dir' dir
      exact propext (exists_congr fun names => and_comm)
    rw [hflip]
    refine carries_of_copies (fun names hne => (hsame names hne).symm) ?_
    intro names path hne
    rw [← hsame names hne]
    exact hplain names path hne

end Discovery

end Conformance

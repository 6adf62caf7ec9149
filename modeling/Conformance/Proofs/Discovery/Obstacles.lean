import Conformance.Proofs.Discovery.Fixtures

/-!
# What a walk passes over

A walk passes over what it does not get past and nothing else, and it reports on
it once (`exists_refused_routes`). That depends on how the walk got there, so a
link may be followed on one route and refused on another. What is refused never
ends at a fixture.

There are few reasons (`Refused.cause`): a link leads nowhere by itself, or to a
directory on the way, or it is one link too many on its path, or the path is too
long for the operating system. The last is the only one that concerns directories.

Where a link leads nowhere there is nothing to enter and no file, so a walk goes
by the same directories, links and files if such links are missing
(`sameTree_of_keeps`).
-/

namespace Conformance

namespace Discovery

def warning (root : Path) (route : List Bytes) (o : Obstacle) : Log.Event :=
  Log.warn .discovery ("Skipping unreadable entry: " ++ o.message (root.joinAll route))

def HoldsLink (w : World) (dir : Ancestor) (name : Bytes) : Prop :=
  IsLinkAt w.files (dir.location ++ [name])

/-- The operating system does not accept the path, or one of the names in it. -/
def Overlong (path : Path) (names : List Bytes) : Prop :=
  World.pathError? (path.joinAll names) ≠ none ∨ ∃ name ∈ names, maxName < name.length

variable {w : World} {dir : Ancestor} {above way : List Ancestor} {target : Location}
  {name : Bytes} {names : List Bytes} {o : Obstacle} {error : FileError}

theorem exists_message_warning (root : Path) (route : List Bytes) (o : Obstacle) :
    ∃ before after, (warning root route o).message =
      before ++ (root.joinAll route).display ++ after := by
  have hwithin (skipping start shown middle last : String) :
      skipping ++ (start ++ shown ++ middle ++ last) =
        skipping ++ start ++ shown ++ (middle ++ last) := by
    simp only [String.append_assoc]
  cases o with
  | unreadable error => exact ⟨_, _, hwithin _ _ _ _ _⟩
  | loop ancestor => exact ⟨_, _, hwithin _ _ _ _ _⟩

theorem LeadsNowhere.exists_refuses (h : LeadsNowhere w dir name) (hw : w.files.WellFormed)
    (hdir : w.locate dir.path = .ok dir.location) :
    ∃ error, Refuses w dir above name (.unreadable error) := by
  obtain ⟨hlink, error, hself⟩ := h
  have hname := hlink.holds.isName hw
  cases hlocate : w.locate (dir.path.join ⟨name⟩) with
  | error error' => exact ⟨error', .unreadable (.inr hlink) hlocate⟩
  | ok target => cases hself.symm.trans (World.locate_of_locate_join hdir hname hlocate)

theorem Refuses.cause (hw : w.files.WellFormed) (hdir : w.locate dir.path = .ok dir.location)
    (h : Refuses w dir above name (.unreadable error)) :
    LeadsNowhere w dir name ∨ (HoldsLink w dir name ∧ error = .tooManyLinks) ∨
      Overlong dir.path [name] := by
  have hname := h.holds.isName hw
  cases h with
  | unreadable h hlocate =>
      by_cases hshort : World.pathError? (dir.path.join ⟨name⟩) = none
      · rcases h with ⟨es, hes⟩ | hlink
        · refine .inr (.inr (.inr ⟨name, List.mem_singleton_self name, ?_⟩))
          by_contra hle
          have hfound := (World.locate_join_eq_ok_iff hw hdir hname hes (by simp)).2
            ⟨hshort, Nat.le_of_not_lt hle⟩
          cases hlocate.symm.trans hfound
        · cases hself : w.files.locate true dir.location [name] with
          | error error' => exact .inl ⟨hlink, error', hself⟩
          | ok target =>
              have hlinks := World.error_of_locate_join hw hdir hname hself hshort hlocate
              exact .inr (.inl ⟨hlink, hlinks⟩)
      · exact .inr (.inr (.inl hshort))

/-- What is refused without being a link to a directory on the way is a link that leads nowhere or
one link too many, or its path is too long. -/
theorem Refused.cause (hw : w.files.WellFormed) (hdir : w.locate dir.path = .ok dir.location)
    (h : Refused w (dir :: above) names (.unreadable error)) :
    Route w (LeadsNowhere w) (dir :: above) names ∨
      (Route w (HoldsLink w) (dir :: above) names ∧ error = .tooManyLinks) ∨
      Overlong dir.path names := by
  generalize hway : dir :: above = way at h
  generalize ho : Obstacle.unreadable error = o at h
  induction h generalizing dir above with
  | last h =>
      cases hway
      cases ho
      exact (h.cause hw hdir).imp .last (.imp_left (.imp_left .last))
  | enter henters next ih =>
      cases hway
      rcases ih henters.locate_eq rfl ho with h | ⟨h, hlinks⟩ | h
      · exact .inl (.enter henters h)
      · exact .inr (.inl ⟨.enter henters h, hlinks⟩)
      · exact .inr (.inr (h.imp_right fun ⟨name, hmem, hlong⟩ =>
          ⟨name, List.mem_cons_of_mem _ hmem, hlong⟩))

theorem exists_refused_of_leadsNowhere (hw : w.files.WellFormed)
    (hdir : w.locate dir.path = .ok dir.location)
    (h : Route w (LeadsNowhere w) (dir :: above) names) :
    ∃ error, Refused w (dir :: above) names (.unreadable error) := by
  generalize hway : dir :: above = way at h
  induction h generalizing dir above with
  | @last _ _ name h =>
      cases hway
      obtain ⟨error, hrefuses⟩ := h.exists_refuses hw hdir
      exact ⟨error, .last hrefuses⟩
  | enter henters next ih =>
      cases hway
      obtain ⟨error, hrefused⟩ := ih henters.locate_eq rfl
      exact ⟨error, .enter henters hrefused⟩

theorem exists_warnings {routes : List (List Bytes)} {visits : List Visit}
    (h : List.Forall₂ (Sees w dir above) routes visits) :
    ∃ refused : List (List Bytes × Obstacle),
      visits.filterMap Visit.warning? = refused.map (fun x => warning dir.path x.1 x.2) ∧
      (refused.map Prod.fst).Sublist routes ∧
      ∀ route o, (route, o) ∈ refused ↔ route ∈ routes ∧ Refused w (dir :: above) route o := by
  induction h with
  | nil => exact ⟨[], rfl, List.Sublist.refl [], by simp⟩
  | @cons route v routes visits hsees _ ih =>
      obtain ⟨refused, hwarnings, hsublist, hmem⟩ := ih
      by_cases hv : ∃ o, Refused w (dir :: above) route o
      · obtain ⟨o, ho⟩ := hv
        refine ⟨(route, o) :: refused, ?_, hsublist.cons_cons route, fun route' o' => ?_⟩
        · rw [(hsees.passedOver_iff o).2 ho, hsees.path_eq, List.map_cons, ← hwarnings]
          rfl
        · rw [List.mem_cons, List.mem_cons, hmem, Prod.mk.injEq, or_and_right]
          refine or_congr_left ⟨?_, ?_⟩
          · rintro ⟨rfl, rfl⟩
            exact ⟨rfl, ho⟩
          · rintro ⟨rfl, h'⟩
            exact ⟨rfl, h'.unique ho⟩
      · have hnone : v.warning? = none := by
          cases v with
          | passedOver p o => exact absurd ⟨o, (hsees.passedOver_iff o).1 rfl⟩ hv
          | _ => rfl
        refine ⟨refused, ?_, hsublist.cons route, fun route' o' => ?_⟩
        · rw [List.filterMap_cons_none hnone, hwarnings]
        · rw [hmem, List.mem_cons, or_and_right]
          refine (or_iff_right ?_).symm
          rintro ⟨rfl, h'⟩
          exact hv ⟨o', h'⟩

variable {root : Path} {loc : Location} {es : List (Bytes × Entry)}

/-- Below a root that is a directory, every route that is refused is visited once and reported. -/
theorem exists_refused_routes (hw : w.files.WellFormed)
    (hroot : w.find true root = .ok (loc, .directory es)) (extension : String) :
    ∃ refused : List (List Bytes × Obstacle),
      (collect w root extension).2 = refused.map (fun x => warning root x.1 x.2) ∧
      (refused.map Prod.fst).Nodup ∧
      ∀ route o, (route, o) ∈ refused ↔ Refused w [⟨root, loc⟩] route o := by
  obtain ⟨visits, routes, hwalk, hsees, hmem, hordered⟩ := exists_routes hw hroot
  obtain ⟨refused, hwarnings, hsublist, hrefused⟩ := exists_warnings hsees
  refine ⟨refused, ?_, ?_, fun route o => ?_⟩
  · have hfirst : Visit.warning? (.directory root) = none := rfl
    rw [collect, hwalk]
    exact (List.filterMap_cons_none hfirst).trans hwarnings
  · exact (hordered.imp fun hor => hor.elim Precedes.ne And.right).sublist hsublist
  · rw [hrefused, hmem]
    exact and_iff_right_of_imp Refused.route

/-- A walk that warns of nothing is stopped by no limit. -/
theorem unhindered_of_no_warning (hw : w.files.WellFormed)
    (hroot : w.find true root = .ok (loc, .directory es)) {extension : String}
    (h : (collect w root extension).2 = []) : Unhindered w [⟨root, loc⟩] := by
  obtain ⟨refused, hwarnings, -, hmem⟩ := exists_refused_routes hw hroot extension
  rw [h] at hwarnings
  obtain rfl := List.map_eq_nil_iff.1 hwarnings.symm
  intro route error hrefused
  cases (hmem route _).2 hrefused

/-- Deleting links that lead nowhere changes no fixture. -/
theorem collect_without (hw : w.files.WellFormed)
    (hroot : w.find true root = .ok (loc, .directory es)) {gone : Location → Bool}
    (hgone : ∀ loc, gone loc = true → w.files.isBroken loc = true) (extension : String) :
    (collect { w with files := w.files.without gone } root extension).1 =
      (collect w root extension).1 :=
  collect_eq_of_keeps hw (hw.without gone) (FileSystem.keeps_without hgone)
    (FileSystem.without_keeps hgone) hroot extension

theorem Refused.path_ne (hw : w.files.WellFormed)
    (hroot : w.find true root = .ok (loc, .directory es)) {route : List Bytes}
    (h : Refused w [⟨root, loc⟩] route o) {extension : String} :
    ∀ f ∈ (collect w root extension).1, f.path ≠ root.joinAll route := by
  obtain ⟨routes, hfixtures, hmem, -, -⟩ := exists_fixture_routes hw hroot extension
  intro f hf hpath
  rw [hfixtures] at hf
  obtain ⟨route', hroute', rfl⟩ := List.mem_map.1 hf
  have hfile := ((hmem route').1 hroute').mono fun dir name hfixture => hfixture.1
  have hholds := hfile.mono fun dir name hleads => hleads.holds
  have heq : route' = route :=
    Path.joinAll_injective hholds.ne_nil h.route.ne_nil (hholds.isName hw) (h.route.isName hw) hpath
  exact h.not_leadsToFile (heq ▸ hfile)

/-- Below a root that is a directory, a walk warns once of everything that it does not get past on
the way it comes to it, and of nothing else. That is every link that leads nowhere, and every link
to a directory on the way. Otherwise it is a link that is one too many on its path, or the path is
too long. The warning names the path of what is refused, which is no fixture, and the fixtures stay
the same if links that lead nowhere are deleted, all of them or only some. -/
theorem collect_isolates (w : World) (hw : w.files.WellFormed) {root : Path} {loc : Location}
    {es : List (Bytes × Entry)} (hroot : w.find true root = .ok (loc, .directory es))
    (extension : String) :
    (∃ refused : List (List Bytes × Obstacle),
      (collect w root extension).2 = refused.map (fun x => warning root x.1 x.2) ∧
      (refused.map Prod.fst).Nodup ∧
      ∀ route o, (route, o) ∈ refused ↔ Refused w [⟨root, loc⟩] route o) ∧
    (∀ route o, Refused w [⟨root, loc⟩] route o →
      (warning root route o).level = .warn ∧
      (∃ before after, (warning root route o).message =
        before ++ (root.joinAll route).display ++ after) ∧
      ∀ f ∈ (collect w root extension).1, f.path ≠ root.joinAll route) ∧
    (∀ route, Route w (LeadsNowhere w) [⟨root, loc⟩] route →
      ∃ error, Refused w [⟨root, loc⟩] route (.unreadable error)) ∧
    (∀ route error, Refused w [⟨root, loc⟩] route (.unreadable error) →
      Route w (LeadsNowhere w) [⟨root, loc⟩] route ∨
      (Route w (HoldsLink w) [⟨root, loc⟩] route ∧ error = .tooManyLinks) ∨
      Overlong root route) ∧
    ∀ among : Location → Bool,
      (collect { w with files := w.files.without fun loc => among loc && w.files.isBroken loc }
        root extension).1 = (collect w root extension).1 := by
  have hdir := World.locate_eq_ok_iff.2 ⟨_, hroot⟩
  refine ⟨exists_refused_routes hw hroot extension, fun route o h => ?_, fun route h => ?_,
    fun route error h => ?_, fun among => ?_⟩
  · exact ⟨rfl, exists_message_warning root route o, h.path_ne hw hroot⟩
  · exact exists_refused_of_leadsNowhere hw hdir h
  · exact h.cause hw hdir
  · exact collect_without hw hroot (fun loc hloc => (Bool.and_eq_true_iff.1 hloc).2) extension

/-- The suite `/r` holds the directories `a` and `b`, in which `x` leads to `b` and `y` to `a`, the
fixture `b/f.f`, the link `c` to itself and the link `d` to a name that is free. -/
def tangledWorld : World where
  files := ⟨[([114], .directory [
    ([97], .directory [([120], .link ⟨[46, 46, 47, 98]⟩)]),
    ([98], .directory [([121], .link ⟨[46, 46, 47, 97]⟩), ([102, 46, 102], .file [] false)]),
    ([99], .link ⟨[99]⟩), ([100], .link ⟨[101]⟩)])]⟩
  cwd := some []
  environment := ⟨[]⟩

theorem tangledWorld_wellFormed : tangledWorld.files.WellFormed := by
  refine .directory (by decide) (by decide) (List.forall_mem_singleton.2 ?_)
  refine .directory (by decide) (by decide) ?_
  simp only [List.forall_mem_cons, List.not_mem_nil, false_imp_iff, implies_true, and_true]
  refine ⟨?_, ?_, .link _, .link _⟩
  · exact .directory (by decide) (by decide) (List.forall_mem_singleton.2 (.link _))
  · refine .directory (by decide) (by decide) (List.forall_mem_cons.2 ⟨.link _, ?_⟩)
    exact List.forall_mem_singleton.2 (.file _ _)

/-- The link `y` is refused behind `x`, because the walk comes from `a`, and followed where it comes
from the suite. -/
theorem collect_isolates_tangled :
    ∃ refused : List (List Bytes × Obstacle),
      (collect tangledWorld ⟨[47, 114]⟩ "f").2 =
        refused.map (fun x => warning ⟨[47, 114]⟩ x.1 x.2) ∧
      ([[97], [120], [121]], .loop ⟨[47, 114, 47, 97]⟩) ∈ refused ∧
      (∀ o, ([[98], [121]], o) ∉ refused) ∧
      ([[99]], .unreadable .tooManyLinks) ∈ refused ∧
      ([[100]], .unreadable .notFound) ∈ refused ∧
      (collect { tangledWorld with
        files := tangledWorld.files.without fun loc => true && tangledWorld.files.isBroken loc }
          ⟨[47, 114]⟩ "f").1 = (collect tangledWorld ⟨[47, 114]⟩ "f").1 := by
  have hroot : ∃ es, tangledWorld.find true ⟨[47, 114]⟩ = .ok ([[114]], .directory es) := ⟨_, rfl⟩
  obtain ⟨es, hroot⟩ := hroot
  obtain ⟨⟨refused, hwarnings, -, hmem⟩, -, -, -, hwithout⟩ :=
    collect_isolates tangledWorld tangledWorld_wellFormed hroot "f"
  refine ⟨refused, hwarnings, (hmem _ _).2 ?_, fun o ho => ?_, (hmem _ _).2 ?_, (hmem _ _).2 ?_,
    hwithout fun _ => true⟩
  · have ha : Enters tangledWorld ⟨⟨[47, 114]⟩, [[114]]⟩ [] [97] [[114], [97]] :=
      .directory ⟨_, rfl⟩ rfl
    have hx : Enters tangledWorld ⟨⟨[47, 114, 47, 97]⟩, [[114], [97]]⟩
        [⟨⟨[47, 114]⟩, [[114]]⟩] [120] [[114], [98]] := .link ⟨_, rfl⟩ rfl ⟨_, rfl⟩ (by decide)
    refine .enter ha (.enter hx (.last ?_))
    exact @Refuses.loop _ _ _ _ _ ⟨⟨[47, 114, 47, 97]⟩, [[114], [97]]⟩ ⟨_, rfl⟩ rfl ⟨_, rfl⟩ rfl
  · have hb : Enters tangledWorld ⟨⟨[47, 114]⟩, [[114]]⟩ [] [98] [[114], [98]] :=
      .directory ⟨_, rfl⟩ rfl
    have hy : Enters tangledWorld ⟨⟨[47, 114, 47, 98]⟩, [[114], [98]]⟩
        [⟨⟨[47, 114]⟩, [[114]]⟩] [121] [[114], [97]] := .link ⟨_, rfl⟩ rfl ⟨_, rfl⟩ (by decide)
    have hrefused := (hmem _ _).1 ho
    rw [refused_cons_iff hb (by simp), refused_singleton_iff] at hrefused
    exact hrefused.not_enters hy
  · exact .last (.unreadable (.inr ⟨_, rfl⟩) rfl)
  · exact .last (.unreadable (.inr ⟨_, rfl⟩) rfl)

/-- A warning about a directory with a fixture, and one about a link to such a directory, which is
not on the way: the path of the first is too long behind the root, and the second is one link more
than the system follows. -/
theorem collect_warns_at_limits :
    ((collect deepWorld (.stays 2047) "f").2 =
        [warning (.stays 2047) [[100, 100]] (.unreadable .nameTooLong)] ∧
      deepWorld.isDirectory (.stays 2047) = true ∧
      deepWorld.files.get? [[100, 100]] = some (.directory [([120, 46, 102], .file [] false)])) ∧
    ((collect windingWorld windingRoot "f").2 =
        [warning windingRoot [[97]] (.unreadable .tooManyLinks)] ∧
      windingWorld.locate windingRoot = .ok [[115]] ∧
      LinksTo windingWorld.files [[115]] [97] [[111]]) := by
  refine ⟨⟨?_, isDirectory_deepWorld, rfl⟩, ?_, locate_windingRoot, linksTo_windingWorld⟩
  · simp only [collect, walk_deepWorld, List.filterMap_cons, List.filterMap_nil, Visit.warning?,
      warning, Path.joinAll_cons, Path.joinAll_nil]
  · simp only [collect, walk_windingWorld, List.filterMap_cons, List.filterMap_nil, Visit.warning?,
      warning, Path.joinAll_cons, Path.joinAll_nil]

end Discovery

end Conformance

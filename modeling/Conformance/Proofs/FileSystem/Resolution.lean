import Conformance.Discovery
import Conformance.Proofs.Path.Names

/-!
# Where paths lead

A path is resolved by what stands at the locations on its way, and of a
directory on the way it only matters that it is one. `Entry.kind` is what an
entry is without what a directory holds, and file systems whose entries are of
one kind at every location (`FileSystem.Alike`) differ only in the order in
which their directories list their entries. `Leads` and `Follows` are the ways
in which segments lead somewhere, up to the first link and through links.
-/

namespace Conformance

namespace Entry

/-- The entry holds directories whose entries have names, no two of them the same. -/
inductive WellFormed : Entry → Prop where
  | file (content : Bytes) (executable : Bool) : WellFormed (.file content executable)
  | link (target : Path) : WellFormed (.link target)
  | device : WellFormed .device
  | directory {es : List (Bytes × Entry)} (distinct : (es.map Prod.fst).Nodup)
      (named : ∀ x ∈ es, IsName x.1) (inner : ∀ x ∈ es, WellFormed x.2) :
      WellFormed (.directory es)

/-- What an entry is, without what a directory holds. -/
def kind : Entry → Entry
  | .directory _ => .directory []
  | e => e

theorem kind_eq_directory {e : Entry} : e.kind = .directory [] ↔ ∃ es, e = .directory es := by
  cases e <;> simp [kind]

theorem kind_eq_link {e : Entry} {target : Path} : e.kind = .link target ↔ e = .link target := by
  cases e <;> simp [kind]

theorem get?_nil (e : Entry) : e.get? [] = some e := by
  cases e <;> rfl

theorem get?_cons (e : Entry) (name : Bytes) (loc : Location) :
    e.get? (name :: loc) = (e.get? [name]).bind (·.get? loc) := by
  cases e with
  | directory es =>
      simp only [get?]
      cases es.lookup name with
      | none => rfl
      | some e => simp
  | file _ _ => rfl
  | link _ => rfl
  | device => rfl

theorem get?_append (e : Entry) (loc loc' : Location) :
    e.get? (loc ++ loc') = (e.get? loc).bind (·.get? loc') := by
  induction loc generalizing e with
  | nil => simp [get?_nil]
  | cons name loc ih =>
      rw [List.cons_append, get?_cons, get?_cons e name loc]
      cases e.get? [name] with
      | none => rfl
      | some e => exact ih e

theorem get?_directory (es : List (Bytes × Entry)) (name : Bytes) :
    (Entry.directory es).get? [name] = es.lookup name := by
  simp only [get?]
  cases es.lookup name with
  | none => rfl
  | some e => exact get?_nil e

theorem lookup_of_mem {es : List (Bytes × Entry)} (h : (es.map Prod.fst).Nodup) {x : Bytes × Entry}
    (hx : x ∈ es) : es.lookup x.1 = some x.2 := by
  induction es with
  | nil => cases hx
  | cons y es ih =>
      obtain ⟨hy, hes⟩ := List.nodup_cons.1 (List.map_cons ▸ h)
      rcases List.mem_cons.1 hx with rfl | hx
      · rw [List.lookup_cons, beq_self_eq_true]
      · have hne : (x.1 == y.1) = false := by
          rw [beq_eq_false_iff_ne]
          intro heq
          exact hy (heq ▸ List.mem_map_of_mem hx)
        rw [List.lookup_cons, hne]
        exact ih hes hx

theorem WellFormed.get? {e e' : Entry} {loc : Location} (he : e.WellFormed)
    (h : e.get? loc = some e') : e'.WellFormed := by
  induction loc generalizing e with
  | nil =>
      rw [get?_nil] at h
      cases h
      exact he
  | cons name loc ih =>
      rw [get?_cons] at h
      obtain ⟨child, hchild, hrest⟩ := Option.bind_eq_some_iff.1 h
      cases he with
      | directory distinct named inner =>
          rw [get?_directory] at hchild
          exact ih (inner _ (Discovery.mem_of_lookup hchild)) hrest
      | file _ _ => cases hchild
      | link _ => cases hchild
      | device => cases hchild

end Entry

namespace FileSystem

def WellFormed (fs : FileSystem) : Prop := fs.root.WellFormed

theorem get?_append_singleton {fs : FileSystem} {loc : Location} {es : List (Bytes × Entry)}
    (h : fs.get? loc = some (.directory es)) (name : Bytes) :
    fs.get? (loc ++ [name]) = es.lookup name := by
  rw [get?, Entry.get?_append]
  rw [get?] at h
  rw [h, Option.bind_some, Entry.get?_directory]

theorem get?_append_of_none {fs : FileSystem} {loc : Location} (h : fs.get? loc = none)
    (loc' : Location) : fs.get? (loc ++ loc') = none := by
  rw [get?, Entry.get?_append]
  rw [get?] at h
  rw [h, Option.bind_none]

theorem WellFormed.get?_of_mem {fs : FileSystem} (hfs : fs.WellFormed) {loc : Location}
    {es : List (Bytes × Entry)} (h : fs.get? loc = some (.directory es)) {x : Bytes × Entry}
    (hx : x ∈ es) : fs.get? (loc ++ [x.1]) = some x.2 ∧ IsName x.1 := by
  have hdirectory : (Entry.directory es).WellFormed := Entry.WellFormed.get? hfs h
  cases hdirectory with
  | directory distinct named inner =>
      exact ⟨(get?_append_singleton h x.1).trans (Entry.lookup_of_mem distinct hx), named x hx⟩

/-- The entries at every location are of one kind. -/
def Alike (fs fs' : FileSystem) : Prop :=
  ∀ loc, (fs.get? loc).map Entry.kind = (fs'.get? loc).map Entry.kind

variable {fs fs' : FileSystem} {loc : Location}

theorem Alike.symm (h : Alike fs fs') : Alike fs' fs := fun loc => (h loc).symm

theorem Alike.get?_eq (h : Alike fs fs') {e : Entry} (he : fs.get? loc = some e)
    (hdirectory : e.isDirectory = false) : fs'.get? loc = some e := by
  have hkind := h loc
  rw [he] at hkind
  cases he' : fs'.get? loc with
  | none => simp [he'] at hkind
  | some e' =>
      rw [he'] at hkind
      cases e <;> cases e' <;> simp_all [Entry.kind, Entry.isDirectory]

/-- A segment that names an entry. -/
structure Names (segment : Bytes) : Prop where
  not_stay : isStay segment = false
  not_up : isUp segment = false
  length_le : segment.length ≤ maxName

/-- The ways in which segments lead from a location to something. -/
inductive Leads (fs : FileSystem) (followLast : Bool) : Location → List Bytes → Reach → Prop where
  | here (loc : Location) : Leads fs followLast loc [] (.entry loc)
  | stay {loc es segment rest x} (hloc : fs.get? loc = some (.directory es))
      (h : isStay segment = true) (next : Leads fs followLast loc rest x) :
      Leads fs followLast loc (segment :: rest) x
  | up {loc es segment rest x} (hloc : fs.get? loc = some (.directory es))
      (hstay : isStay segment = false) (h : isUp segment = true)
      (next : Leads fs followLast loc.dropLast rest x) :
      Leads fs followLast loc (segment :: rest) x
  | free {loc es name} (hloc : fs.get? loc = some (.directory es)) (hname : Names name)
      (h : fs.get? (loc ++ [name]) = none) : Leads fs followLast loc [name] (.free loc name)
  | last {loc es name target} (hloc : fs.get? loc = some (.directory es)) (hname : Names name)
      (h : fs.get? (loc ++ [name]) = some (.link target)) (hlast : followLast = false) :
      Leads fs followLast loc [name] (.entry (loc ++ [name]))
  | link {loc es name target rest} (hloc : fs.get? loc = some (.directory es)) (hname : Names name)
      (h : fs.get? (loc ++ [name]) = some (.link target)) (hrest : rest ≠ [] ∨ followLast = true) :
      Leads fs followLast loc (name :: rest) (.link loc target rest)
  | down {loc es name e rest x} (hloc : fs.get? loc = some (.directory es)) (hname : Names name)
      (h : fs.get? (loc ++ [name]) = some e) (hlink : ∀ target, e ≠ .link target)
      (next : Leads fs followLast (loc ++ [name]) rest x) :
      Leads fs followLast loc (name :: rest) x

theorem leads_of_reach {followLast : Bool} {segments : List Bytes} {x : Reach}
    (h : fs.reach followLast loc segments = .ok x) : Leads fs followLast loc segments x := by
  induction segments generalizing loc with
  | nil =>
      cases h
      exact .here loc
  | cons segment rest ih =>
      rw [reach] at h
      split at h
      next es hloc =>
          rw [← get?_append_singleton hloc] at h
          by_cases hstay : isStay segment = true
          · rw [if_pos hstay] at h
            exact .stay hloc hstay (ih h)
          rw [if_neg hstay] at h
          rw [Bool.not_eq_true] at hstay
          by_cases hup : isUp segment = true
          · rw [if_pos hup] at h
            exact .up hloc hstay hup (ih h)
          rw [if_neg hup] at h
          rw [Bool.not_eq_true] at hup
          by_cases hlength : maxName < segment.length
          · rw [if_pos hlength] at h
            cases h
          rw [if_neg hlength] at h
          have hname : Names segment := ⟨hstay, hup, Nat.le_of_not_lt hlength⟩
          split at h
          next hnone =>
              split at h
              next hrest =>
                  cases h
                  subst hrest
                  exact .free hloc hname hnone
              next => cases h
          next target hlink =>
              split at h
              next hrest =>
                  cases h
                  simp only [decide_eq_true_eq, Bool.and_eq_true, Bool.not_eq_true'] at hrest
                  obtain ⟨rfl, hlast⟩ := hrest
                  exact .last hloc hname hlink hlast
              next hrest =>
                  cases h
                  refine .link hloc hname hlink ?_
                  by_cases hnil : rest = []
                  · exact .inr (by simpa [hnil] using hrest)
                  · exact .inl hnil
          next e hlink hsome => exact .down hloc hname hsome hlink (ih h)
      next => cases h
      next => cases h

theorem Leads.reach_eq {followLast : Bool} {segments : List Bytes} {x : Reach}
    (h : Leads fs followLast loc segments x) : fs.reach followLast loc segments = .ok x := by
  induction h with
  | here loc => rfl
  | stay hloc hstay next ih => simp [reach, hloc, hstay, ih]
  | up hloc hstay hup next ih => simp [reach, hloc, hstay, hup, ih]
  | free hloc hname hnone =>
      rw [get?_append_singleton hloc] at hnone
      simp [reach, hloc, hname.not_stay, hname.not_up, hname.length_le, hnone]
  | last hloc hname hlink hlast =>
      rw [get?_append_singleton hloc] at hlink
      simp [reach, hloc, hname.not_stay, hname.not_up, hname.length_le, hlink, hlast]
  | link hloc hname hlink hrest =>
      rw [get?_append_singleton hloc] at hlink
      rcases hrest with hrest | hrest <;>
        simp [reach, hloc, hname.not_stay, hname.not_up, hname.length_le, hlink, hrest]
  | @down loc es name e rest x hloc hname hsome hlink next ih =>
      rw [get?_append_singleton hloc] at hsome
      cases e with
      | link target => exact absurd rfl (hlink target)
      | _ => simp [reach, hloc, hname.not_stay, hname.not_up, hname.length_le, hsome, ih]

/-- Where a last link is not followed, the segments lead as far or to that link. -/
theorem Leads.of_true {segments : List Bytes} {x : Reach} (h : Leads fs true loc segments x) :
    Leads fs false loc segments x ∨
      ∃ dir target last, x = .link dir target [] ∧ Leads fs false loc segments (.entry last) ∧
        fs.get? last = some (.link target) := by
  induction h with
  | here loc => exact .inl (.here loc)
  | stay hloc hstay next ih =>
      exact ih.imp (.stay hloc hstay) fun ⟨dir, target, found, hx, hlast, hlink⟩ =>
        ⟨dir, target, found, hx, .stay hloc hstay hlast, hlink⟩
  | up hloc hstay hup next ih =>
      exact ih.imp (.up hloc hstay hup) fun ⟨dir, target, found, hx, hlast, hlink⟩ =>
        ⟨dir, target, found, hx, .up hloc hstay hup hlast, hlink⟩
  | free hloc hname hnone => exact .inl (.free hloc hname hnone)
  | last hloc hname hlink hlast => cases hlast
  | @link loc es name target rest hloc hname hlink hrest =>
      by_cases hnil : rest = []
      · subst hnil
        exact .inr ⟨loc, target, _, rfl, .last hloc hname hlink rfl, hlink⟩
      · exact .inl (.link hloc hname hlink (.inl hnil))
  | down hloc hname hsome hnot next ih =>
      exact ih.imp (.down hloc hname hsome hnot) fun ⟨dir, target, found, hx, hlast, hlink⟩ =>
        ⟨dir, target, found, hx, .down hloc hname hsome hnot hlast, hlink⟩

/-- The ways in which segments lead through links to something. -/
inductive Follows (fs : FileSystem) (followLast : Bool) :
    Nat → Location → List Bytes → Target → Prop where
  | entry {links dir segments loc} (h : Leads fs followLast dir segments (.entry loc)) :
      Follows fs followLast links dir segments (.entry loc)
  | free {links dir segments parent name}
      (h : Leads fs followLast dir segments (.free parent name)) :
      Follows fs followLast links dir segments (.free parent name)
  | link {links dir segments parent target rest x}
      (h : Leads fs followLast dir segments (.link parent target rest)) (hne : target.bytes ≠ [])
      (next : Follows fs followLast links (if target.isAbsolute then [] else parent)
        (target.segments ++ rest) x) :
      Follows fs followLast (links + 1) dir segments x

theorem follows_of_follow {followLast : Bool} {x : Target} :
    ∀ {links : Nat} {dir : Location} {segments : List Bytes},
      fs.follow followLast links dir segments = .ok x →
        Follows fs followLast links dir segments x
  | links, dir, segments, h => by
      rw [follow] at h
      cases hreach : fs.reach followLast dir segments with
      | error e => simp [hreach] at h
      | ok reached =>
          have hleads := leads_of_reach hreach
          cases reached with
          | entry loc =>
              simp only [hreach, Except.ok.injEq] at h
              exact h ▸ .entry hleads
          | free parent name =>
              simp only [hreach, Except.ok.injEq] at h
              exact h ▸ .free hleads
          | link parent target rest =>
              cases links with
              | zero => simp [hreach] at h
              | succ links =>
                  simp only [hreach] at h
                  split at h
                  next => cases h
                  next hne => exact .link hleads hne (follows_of_follow h)

theorem Follows.follow_eq {followLast : Bool} {links : Nat} {dir : Location}
    {segments : List Bytes} {x : Target} (h : Follows fs followLast links dir segments x) :
    fs.follow followLast links dir segments = .ok x := by
  induction h with
  | entry h => rw [follow, h.reach_eq]
  | free h => rw [follow, h.reach_eq]
  | link h hne next ih =>
      rw [follow, h.reach_eq]
      simp only [hne, if_false, ih]

/-- What segments lead to through a last link is there if that link is not followed, too. -/
theorem Follows.of_true {links : Nat} {dir : Location} {segments : List Bytes} {x : Target}
    (h : Follows fs true links dir segments x) (hx : x = .entry loc) :
    ∃ loc', Follows fs false links dir segments (.entry loc') ∧
      (loc' = loc ∨ (fs.get? loc').isSome) := by
  induction h with
  | entry h =>
      cases hx
      rcases h.of_true with hsame | ⟨_, _, _, hlink, -, -⟩
      · exact ⟨loc, .entry hsame, .inl rfl⟩
      · cases hlink
  | free h => cases hx
  | link h hne next ih =>
      rcases h.of_true with hsame | ⟨_, _, last, -, hlast, hlink⟩
      · obtain ⟨loc', hnext, hloc'⟩ := ih hx
        exact ⟨loc', .link hsame hne hnext, hloc'⟩
      · exact ⟨last, .entry hlast, .inr (by simp [hlink])⟩

end FileSystem

namespace World

variable {w : World} {p : Path} {loc : Location} {e : Entry}

/-- What a path names through a link at its end is there if the link is not followed, too. -/
theorem find_false_of_find_true (h : w.find true p = .ok (loc, e)) :
    ∃ x, w.find false p = .ok x := by
  rw [find, target] at h
  rw [find, target]
  cases herror : pathError? p with
  | some error => simp [herror] at h
  | none =>
      cases hstart : w.start? p with
      | none =>
          simp only [herror, hstart] at h ⊢
          split at h
          next => cases h
          next => cases h
          next hentry => exact ⟨_, h⟩
      | some dir =>
          simp only [herror, hstart] at h ⊢
          split at h
          next => cases h
          next => cases h
          next found hentry =>
              obtain ⟨found', hfollows, hfound⟩ :=
                (FileSystem.follows_of_follow hentry).of_true rfl
              rw [hfollows.follow_eq]
              have hsome : (w.get? found').isSome := by
                rcases hfound with rfl | hsome
                · split at h
                  next hget => simp [hget]
                  next => cases h
                · rw [get?]
                  split
                  · rfl
                  · exact hsome
              obtain ⟨e', he'⟩ := Option.isSome_iff_exists.1 hsome
              exact ⟨(found', e'), by simp only [he']⟩

/-- A directory that a path names is at its location, unless it is a working directory that was
removed. -/
theorem get?_of_find {followLast : Bool} (h : w.find followLast p = .ok (loc, e)) :
    (loc = removed ∧ e = .directory []) ∨ w.files.get? loc = some e := by
  have hget : w.get? loc = some e := by
    rw [find] at h
    split at h
    next => cases h
    next => cases h
    next =>
        split at h
        next hget =>
            cases h
            exact hget
        next => cases h
  rw [get?] at hget
  split at hget
  next hremoved =>
      cases hget
      exact .inl ⟨hremoved, rfl⟩
  next => exact .inr hget

end World

end Conformance

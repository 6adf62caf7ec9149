import Conformance.Proofs.FileSystem.Access
import Mathlib.Data.List.Induction

/-!
# Links that lead nowhere

Segments that lead to an entry pass only links that lead to an entry themselves:
what is in front of the rest of a path leads somewhere if the path does
(`Follows.of_append`), and it does so with no more links. So a file system that
lacks nothing but links that lead nowhere (`Keeps`) resolves every path to an
entry alike, and it does not matter how many of these links it lacks.

`without` deletes what is at some locations. Deleting broken links keeps all
else, forth and back (`keeps_without`, `without_keeps`).
-/

namespace Conformance

mutual

/-- The entry at a location without what is at certain locations below it. -/
def Entry.without (gone : Location → Bool) (loc : Location) : Entry → Entry
  | .directory es => .directory (Entry.withoutIn gone loc es)
  | .file content executable => .file content executable
  | .link target => .link target
  | .device => .device

def Entry.withoutIn (gone : Location → Bool) (loc : Location) :
    List (Bytes × Entry) → List (Bytes × Entry)
  | [] => []
  | (name, e) :: es =>
    if gone (loc ++ [name]) then Entry.withoutIn gone loc es
    else (name, e.without gone (loc ++ [name])) :: Entry.withoutIn gone loc es

end

namespace Entry

variable {gone : Location → Bool} {loc : Location}

theorem withoutIn_eq (gone : Location → Bool) (loc : Location) (es : List (Bytes × Entry)) :
    withoutIn gone loc es = (es.filter fun x => !gone (loc ++ [x.1])).map fun x =>
      (x.1, x.2.without gone (loc ++ [x.1])) := by
  induction es with
  | nil => rfl
  | cons x es ih =>
      rw [withoutIn, ih]
      cases hgone : gone (loc ++ [x.1]) <;> simp [hgone]

theorem lookup_withoutIn (gone : Location → Bool) (loc : Location) (es : List (Bytes × Entry))
    (name : Bytes) :
    (withoutIn gone loc es).lookup name =
      if gone (loc ++ [name]) then none
      else (es.lookup name).map (without gone (loc ++ [name])) := by
  induction es with
  | nil => simp [withoutIn]
  | cons x es ih =>
      obtain ⟨key, e⟩ := x
      rw [withoutIn]
      by_cases hname : name = key
      · subst hname
        cases hgone : gone (loc ++ [name]) <;> simp [hgone, ih]
      · have hkey : (name == key) = false := beq_eq_false_iff_ne.2 hname
        cases hgone : gone (loc ++ [key]) <;> simp [List.lookup_cons, hkey, ih]

theorem kind_without (gone : Location → Bool) (loc : Location) (e : Entry) :
    (e.without gone loc).kind = e.kind := by
  cases e <;> rfl

theorem WellFormed.without {e : Entry} (h : e.WellFormed) (loc : Location) :
    (e.without gone loc).WellFormed := by
  induction h generalizing loc with
  | file content executable => exact .file content executable
  | link target => exact .link target
  | device => exact .device
  | @directory es distinct named inner ih =>
      rw [Entry.without, withoutIn_eq]
      refine .directory ?_ ?_ ?_
      · rw [List.map_map]
        exact distinct.sublist (List.filter_sublist.map Prod.fst)
      · intro x hx
        obtain ⟨y, hy, rfl⟩ := List.mem_map.1 hx
        exact named y ((List.mem_filter.1 hy).1)
      · intro x hx
        obtain ⟨y, hy, rfl⟩ := List.mem_map.1 hx
        exact ih y ((List.mem_filter.1 hy).1) _

end Entry

namespace FileSystem

/-- The file system without what is at certain locations. -/
def without (fs : FileSystem) (gone : Location → Bool) : FileSystem :=
  ⟨Entry.withoutIn gone [] fs.entries⟩

def isBroken (fs : FileSystem) (loc : Location) : Bool :=
  match fs.get? loc, fs.locate true loc.dropLast loc.getLast?.toList with
  | some (.link _), .error _ => true
  | _, _ => false

/-- What is in the one file system is in the other too, but for links that lead nowhere and for what
directories hold. -/
structure Keeps (fs fs' : FileSystem) : Prop where
  plain : ∀ {loc : Location} {e : Entry}, fs.get? loc = some e → (∀ target, e ≠ .link target) →
    ∃ e', fs'.get? loc = some e' ∧ e'.kind = e.kind
  link : ∀ {dir loc : Location} {name : Bytes} {target : Path},
    fs.get? (dir ++ [name]) = some (.link target) → fs.locate true dir [name] = .ok loc →
      fs'.get? (dir ++ [name]) = some (.link target)

variable {fs fs' : FileSystem} {dir loc : Location} {name : Bytes} {segments rest : List Bytes}
  {links links' : Nat} {x : Reach} {gone : Location → Bool}

theorem WellFormed.without (h : fs.WellFormed) (gone : Location → Bool) :
    (fs.without gone).WellFormed :=
  Entry.WellFormed.without h []

/-- File systems that list the same entries in different orders have the same in them. -/
theorem Alike.keeps (h : Alike fs fs') : Keeps fs fs' where
  plain := by
    intro loc e he _
    have hkind := h loc
    rw [he, Option.map_some] at hkind
    obtain ⟨e', he', hsame⟩ := Option.map_eq_some_iff.1 hkind.symm
    exact ⟨e', he', hsame⟩
  link := fun hget _ => h.get?_eq hget rfl

theorem isBroken_concat :
    fs.isBroken (dir ++ [name]) = true ↔
      (∃ target, fs.get? (dir ++ [name]) = some (.link target)) ∧
        ∃ error, fs.locate true dir [name] = .error error := by
  rw [isBroken, List.dropLast_concat, List.getLast?_concat]
  cases fs.get? (dir ++ [name]) with
  | none => simp
  | some e =>
      cases e <;> cases hlocate : fs.locate true dir [name] <;> simp [hlocate]

theorem Keeps.directory (h : Keeps fs fs') {es : List (Bytes × Entry)}
    (hloc : fs.get? loc = some (.directory es)) : ∃ es', fs'.get? loc = some (.directory es') := by
  obtain ⟨e', he', hkind⟩ := h.plain hloc fun target => by simp
  obtain ⟨es', rfl⟩ := Entry.kind_eq_directory.1 hkind
  exact ⟨es', he'⟩

theorem Keeps.file (h : Keeps fs fs') {content : Bytes} {executable : Bool}
    (hloc : fs.get? loc = some (.file content executable)) :
    fs'.get? loc = some (.file content executable) := by
  obtain ⟨e', he', hkind⟩ := h.plain hloc fun target => by simp
  cases e' <;> cases hkind
  exact he'

/-- Up to the first link, segments lead as far, unless that link is missing. -/
theorem Keeps.leads (h : Keeps fs fs') (hleads : Leads fs true dir segments x)
    (hfree : ∀ parent name, x ≠ .free parent name)
    (hlink : ∀ {parent es target left name}, x = .link parent target left →
      fs.get? parent = some (.directory es) → Names name →
      fs.get? (parent ++ [name]) = some (.link target) →
        fs'.get? (parent ++ [name]) = some (.link target)) :
    Leads fs' true dir segments x := by
  induction hleads with
  | here loc => exact .here loc
  | stay hloc hstay next ih =>
      obtain ⟨es', hloc'⟩ := h.directory hloc
      exact .stay hloc' hstay (ih hfree hlink)
  | up hloc hstay hup next ih =>
      obtain ⟨es', hloc'⟩ := h.directory hloc
      exact .up hloc' hstay hup (ih hfree hlink)
  | free => exact absurd rfl (hfree _ _)
  | last _ _ _ hlast => cases hlast
  | link hloc hname hget hrest =>
      obtain ⟨es', hloc'⟩ := h.directory hloc
      exact .link hloc' hname (hlink rfl hloc hname hget) hrest
  | down hloc hname hsome hnot next ih =>
      obtain ⟨es', hloc'⟩ := h.directory hloc
      obtain ⟨e', hsome', hkind⟩ := h.plain hsome hnot
      refine .down hloc' hname hsome' (fun target htarget => ?_) (ih hfree hlink)
      rw [htarget] at hkind
      exact hnot target (Entry.kind_eq_link.1 hkind.symm)

/-- What segments lead to, they still lead to: every link they pass leads somewhere by itself. -/
theorem Keeps.follows (h : Keeps fs fs') {y : Target}
    (hfollows : Follows fs true links dir segments y) (hy : y = .entry loc)
    (hlinks : links ≤ maxLinks) : Follows fs' true links dir segments y := by
  induction hfollows with
  | entry hleads =>
      refine .entry (h.leads hleads (fun parent name => by simp) fun hx => ?_)
      cases hx
  | free => cases hy
  | @link links dir segments parent target rest y hleads hne next ih =>
      refine .link (h.leads hleads (fun parent name => by simp) ?_) hne
        (ih hy (Nat.le_of_succ_le hlinks))
      intro parent' es target' left name hx hloc hname hget
      obtain ⟨rfl, rfl, rfl⟩ := Reach.link.inj hx
      obtain ⟨loc', -, -, hbefore, -⟩ := next.of_append rfl hy
      have hself : Follows fs true (links + 1) parent [name] (.entry loc') :=
        .link (.link hloc hname hget (.inr rfl)) hne (by rwa [List.append_nil])
      exact h.link hget (locate_eq_ok_iff.2 (hself.mono hlinks))

theorem Keeps.locate_eq (h : Keeps fs fs') (hlocate : fs.locate true dir segments = .ok loc) :
    fs'.locate true dir segments = .ok loc := by
  rw [locate_eq_ok_iff] at hlocate ⊢
  exact h.follows hlocate rfl (Nat.le_refl maxLinks)

theorem exists_link_of_isBroken (h : fs.isBroken loc = true) :
    ∃ target, fs.get? loc = some (.link target) := by
  unfold isBroken at h
  split at h
  next target _ hget _ => exact ⟨target, hget⟩
  next => cases h

theorem eq_false_of_get? (hgone : ∀ loc, gone loc = true → fs.isBroken loc = true) {e : Entry}
    (he : fs.get? loc = some e) (hnot : ∀ target, e ≠ .link target) : gone loc = false := by
  refine Bool.eq_false_iff.2 fun hloc => ?_
  obtain ⟨target, htarget⟩ := exists_link_of_isBroken (hgone loc hloc)
  exact hnot target (Option.some.inj (he.symm.trans htarget))

/-- Nothing is below a link, so that with links nothing else is deleted. -/
theorem get?_without (hgone : ∀ loc, gone loc = true → fs.isBroken loc = true) (loc : Location) :
    (fs.without gone).get? loc =
      if gone loc then none else (fs.get? loc).map (Entry.without gone loc) := by
  induction loc using List.reverseRecOn with
  | nil =>
      have hroot : fs.get? [] = some (.directory fs.entries) := rfl
      rw [eq_false_of_get? hgone hroot (by simp), hroot]
      rfl
  | append_singleton dir name ih =>
      have hsplit (fs : FileSystem) :
          fs.get? (dir ++ [name]) = (fs.get? dir).bind (·.get? [name]) :=
        Entry.get?_append _ _ _
      rw [hsplit, ih]
      cases hdir : fs.get? dir with
      | none =>
          have hnone := get?_append_of_none hdir [name]
          simp [hnone]
      | some e =>
          cases e with
          | directory es =>
              rw [eq_false_of_get? hgone hdir (by simp), get?_append_singleton hdir]
              exact (Entry.get?_directory _ _).trans (Entry.lookup_withoutIn gone dir es name)
          | file _ _ | link _ | device =>
              have hnone : fs.get? (dir ++ [name]) = none := by
                rw [hsplit, hdir]
                rfl
              rw [hnone]
              cases gone dir
              · simp only [Option.map_none, ite_self]
                rfl
              · simp

theorem keeps_without (hgone : ∀ loc, gone loc = true → fs.isBroken loc = true) :
    Keeps fs (fs.without gone) where
  plain := by
    intro loc e he hnot
    refine ⟨e.without gone loc, ?_, Entry.kind_without gone loc e⟩
    rw [get?_without hgone, eq_false_of_get? hgone he hnot, he]
    rfl
  link := by
    intro dir loc name target hget hlocate
    have hloc : gone (dir ++ [name]) = false := by
      refine Bool.eq_false_iff.2 fun hloc => ?_
      obtain ⟨-, error, herror⟩ := isBroken_concat.1 (hgone _ hloc)
      cases hlocate.symm.trans herror
    rw [get?_without hgone, hloc, hget]
    rfl

theorem without_keeps (hgone : ∀ loc, gone loc = true → fs.isBroken loc = true) :
    Keeps (fs.without gone) fs := by
  have hkept {loc : Location} {e : Entry} (h : (fs.without gone).get? loc = some e) :
      ∃ e', fs.get? loc = some e' ∧ e'.kind = e.kind := by
    rw [get?_without hgone] at h
    split at h
    next => cases h
    next =>
        obtain ⟨e', he', rfl⟩ := Option.map_eq_some_iff.1 h
        exact ⟨e', he', (Entry.kind_without gone loc e').symm⟩
  refine ⟨fun h _ => hkept h, fun h _ => ?_⟩
  obtain ⟨e, he, hkind⟩ := hkept h
  rw [he, Entry.kind_eq_link.1 hkind]

end FileSystem

namespace World

variable {w : World} {p : Path} {loc : Location} {files : FileSystem}

theorem target_of_keeps (hkeeps : w.files.Keeps files) (h : w.target true p = .ok (.entry loc)) :
    { w with files }.target true p = .ok (.entry loc) := by
  simp only [target, start?] at h ⊢
  split at h
  next => cases h
  next =>
      split at h
      next => exact (hkeeps.follows (FileSystem.follows_of_follow h) rfl (Nat.le_refl _)).follow_eq
      next => exact h

theorem locate_of_keeps (hkeeps : w.files.Keeps files) (h : w.locate p = .ok loc) :
    { w with files }.locate p = .ok loc := by
  obtain ⟨e, hfind⟩ := locate_eq_ok_iff.1 h
  obtain ⟨htarget, -⟩ := find_eq_ok_iff.1 hfind
  have hsome : ∃ e', { w with files }.get? loc = some e' := by
    by_cases hremoved : loc = removed
    · exact ⟨_, if_pos hremoved⟩
    · obtain ⟨e, hget, hnot⟩ := holdsNoLink_of_locate h hremoved
      obtain ⟨e', he', -⟩ := hkeeps.plain hget hnot
      exact ⟨e', (if_neg hremoved).trans he'⟩
  obtain ⟨e', he'⟩ := hsome
  exact locate_eq_ok_iff.2 ⟨e', find_eq_ok_iff.2 ⟨target_of_keeps hkeeps htarget, he'⟩⟩

theorem find_of_keeps {es : List (Bytes × Entry)} (hkeeps : w.files.Keeps files)
    (h : w.find true p = .ok (loc, .directory es)) :
    ∃ es', { w with files }.find true p = .ok (loc, .directory es') := by
  obtain ⟨htarget, hget⟩ := find_eq_ok_iff.1 h
  have hget' : ∃ es', { w with files }.get? loc = some (.directory es') := by
    simp only [get?] at hget ⊢
    split at hget
    next hremoved => exact ⟨[], if_pos hremoved⟩
    next hremoved =>
        rw [if_neg hremoved]
        exact hkeeps.directory hget
  obtain ⟨es', hes'⟩ := hget'
  exact ⟨es', find_eq_ok_iff.2 ⟨target_of_keeps hkeeps htarget, hes'⟩⟩

end World

end Conformance

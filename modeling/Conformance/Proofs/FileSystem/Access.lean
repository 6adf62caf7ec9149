import Conformance.Proofs.FileSystem.Resolution

/-!
# Paths that go on by one name

Segments are followed from left to right, so those in front of others lead to an
entry if all of them do, and the others go on from there with the links that are
left (`Follows.of_append`). If a path leads to a directory, then a path that goes
on by a name leads where the name leads from that directory, or it is refused
(`World.locate_of_locate_join`). It can be refused where the name by itself is
not, since the links of the whole path count, and so does its length. What is not
a link is refused for the length only (`World.locate_join_eq_ok_iff`).
-/

namespace Conformance

theorem IsName.not_stay {name : Bytes} (h : IsName name) : FileSystem.isStay name = false := by
  simp [FileSystem.isStay, h.ne_nil, h.ne_dot]

theorem IsName.not_up {name : Bytes} (h : IsName name) : FileSystem.isUp name = false := by
  simp [FileSystem.isUp, h.ne_dots]

namespace Path

/-- The path `./`, written a number of times. -/
def stays (n : Nat) : Path := ⟨(List.replicate n [dot, slash]).flatten⟩

theorem length_stays (n : Nat) : (stays n).bytes.length = 2 * n := by
  simp [stays, Nat.mul_comm]

theorem segments_stays (n : Nat) : (stays n).segments = List.replicate n [dot] ++ [[]] := by
  induction n with
  | zero => rfl
  | succ n ih =>
      have hsplit := Split.splitAt_append_cons slash [dot] (stays n).bytes
      exact hsplit.trans (congrArg ([dot] :: ·) ih)

theorem isAbsolute_stays (n : Nat) : (stays n).isAbsolute = false := by
  cases n with
  | zero => rfl
  | succ n => rfl

theorem zero_notMem_stays (n : Nat) : 0 ∉ (stays n).bytes := by
  have hdot : (0 : UInt8) ≠ dot := by decide
  have hslash : (0 : UInt8) ≠ slash := by decide
  simp [stays, hdot, hslash]

theorem stem_stays (n : Nat) : (stays n).stem = (stays n).bytes := by
  refine if_pos ?_
  cases n with
  | zero => exact .inl rfl
  | succ n =>
      refine .inr ?_
      rw [stays, List.replicate_succ', List.flatten_append, List.flatten_singleton,
        List.getLast?_append]
      rfl

end Path

namespace FileSystem

variable {fs : FileSystem} {dir loc loc' : Location} {name segment : Bytes}
  {segments rest : List Bytes} {links links' : Nat} {x : Reach} {y y' : Target} {followLast : Bool}

theorem get?_concat {e : Entry} (h : fs.get? (dir ++ [name]) = some e) :
    ∃ es, fs.get? dir = some (.directory es) := by
  rw [get?, Entry.get?_append] at h
  obtain ⟨d, hd, hname⟩ := Option.bind_eq_some_iff.1 h
  cases d with
  | directory es => exact ⟨es, hd⟩
  | file _ _ => cases hname
  | link _ => cases hname
  | device => cases hname

theorem Leads.exists_directory (h : Leads fs followLast dir (segment :: rest) x) :
    ∃ es, fs.get? dir = some (.directory es) := by
  cases h with
  | stay hloc | up hloc | free hloc | last hloc | link hloc | down hloc => exact ⟨_, hloc⟩

theorem Follows.exists_directory (h : Follows fs followLast links dir (segment :: rest) y) :
    ∃ es, fs.get? dir = some (.directory es) := by
  cases h with
  | entry h | free h | link h => exact h.exists_directory

/-- Where segments lead somewhere, those in front of others lead to an entry, from which the others
go on, or to a link. -/
theorem Leads.of_append (h : Leads fs true dir (segments ++ rest) x) (hrest : rest ≠ []) :
    (∃ loc, Leads fs true dir segments (.entry loc) ∧ Leads fs true loc rest x) ∨
      ∃ parent target left, x = .link parent target (left ++ rest) ∧
        Leads fs true dir segments (.link parent target left) := by
  induction segments generalizing dir with
  | nil => exact .inl ⟨dir, .here dir, h⟩
  | cons segment segments ih =>
      rw [List.cons_append] at h
      generalize htail : segments ++ rest = tail at h
      cases h with
      | stay hloc hstay next =>
          exact (ih (htail ▸ next)).imp
            (fun ⟨loc, hleads, hon⟩ => ⟨loc, .stay hloc hstay hleads, hon⟩)
            fun ⟨parent, target, left, hx, hleads⟩ =>
              ⟨parent, target, left, hx, .stay hloc hstay hleads⟩
      | up hloc hstay hup next =>
          exact (ih (htail ▸ next)).imp
            (fun ⟨loc, hleads, hon⟩ => ⟨loc, .up hloc hstay hup hleads, hon⟩)
            fun ⟨parent, target, left, hx, hleads⟩ =>
              ⟨parent, target, left, hx, .up hloc hstay hup hleads⟩
      | free => exact absurd (List.append_eq_nil_iff.1 htail).2 hrest
      | last _ _ _ hlast => cases hlast
      | link hloc hname hlink =>
          exact .inr ⟨dir, _, segments, by rw [htail], .link hloc hname hlink (.inr rfl)⟩
      | down hloc hname hsome hnot next =>
          exact (ih (htail ▸ next)).imp
            (fun ⟨loc, hleads, hon⟩ => ⟨loc, .down hloc hname hsome hnot hleads, hon⟩)
            fun ⟨parent, target, left, hx, hleads⟩ =>
              ⟨parent, target, left, hx, .down hloc hname hsome hnot hleads⟩

/-- If segments lead to an entry through links, then so do those in front of others, and the others
lead on from there through no more links than are left. -/
theorem Follows.of_append {path : List Bytes} (h : Follows fs true links dir path y)
    (hpath : path = segments ++ rest) (hy : y = .entry loc) :
    ∃ loc' links', links' ≤ links ∧ Follows fs true links dir segments (.entry loc') ∧
      Follows fs true links' loc' rest (.entry loc) := by
  by_cases hrest : rest = []
  · rw [hrest, List.append_nil] at hpath
    exact ⟨loc, links, Nat.le_refl links, hpath ▸ hy ▸ h, hrest ▸ .entry (.here loc)⟩
  induction h generalizing segments with
  | @entry links _ _ _ h =>
      rcases (hpath ▸ h).of_append hrest with ⟨loc', hleads, hon⟩ | ⟨_, _, _, hlink, -⟩
      · cases hy
        exact ⟨loc', links, Nat.le_refl links, .entry hleads, .entry hon⟩
      · cases hlink
  | free h => cases hy
  | @link links _ _ _ _ _ _ h hne next ih =>
      rcases (hpath ▸ h).of_append hrest with ⟨loc', hleads, hon⟩ | ⟨_, _, left, hlink, hleads⟩
      · exact ⟨loc', links + 1, Nat.le_refl _, .entry hleads, hy ▸ .link hon hne next⟩
      · cases hlink
        obtain ⟨loc', links', hle, hnext, hon⟩ := ih (List.append_assoc _ left rest).symm hy
        exact ⟨loc', links', Nat.le_succ_of_le hle, .link hleads hne hnext, hon⟩

theorem Leads.append (h : Leads fs true dir segments (.entry loc))
    (hon : Leads fs true loc rest x) : Leads fs true dir (segments ++ rest) x := by
  generalize hentry : Reach.entry loc = z at h
  induction h with
  | here =>
      cases hentry
      exact hon
  | stay hloc hstay next ih => exact .stay hloc hstay (ih hentry)
  | up hloc hstay hup next ih => exact .up hloc hstay hup (ih hentry)
  | free => cases hentry
  | last _ _ _ hlast => cases hlast
  | link => cases hentry
  | down hloc hname hsome hnot next ih => exact .down hloc hname hsome hnot (ih hentry)

theorem Leads.append_link {parent : Location} {target : Path} {left : List Bytes}
    (h : Leads fs true dir segments (.link parent target left)) (rest : List Bytes) :
    Leads fs true dir (segments ++ rest) (.link parent target (left ++ rest)) := by
  generalize hlink : Reach.link parent target left = z at h
  induction h with
  | here => cases hlink
  | stay hloc hstay next ih => exact .stay hloc hstay (ih hlink)
  | up hloc hstay hup next ih => exact .up hloc hstay hup (ih hlink)
  | free => cases hlink
  | last _ _ _ hlast => cases hlast
  | link hloc hname hget =>
      cases hlink
      exact .link hloc hname hget (.inr rfl)
  | down hloc hname hsome hnot next ih => exact .down hloc hname hsome hnot (ih hlink)

theorem Follows.mono (h : Follows fs true links dir segments y) (hlinks : links ≤ links') :
    Follows fs true links' dir segments y := by
  induction h generalizing links' with
  | entry h => exact .entry h
  | free h => exact .free h
  | link h hne next ih =>
      obtain ⟨more, rfl⟩ := Nat.exists_eq_add_of_le hlinks
      rw [Nat.add_right_comm]
      exact .link h hne (ih (Nat.le_add_right _ more))

/-- Behind segments that lead to an entry, others lead on, through the links of both. -/
theorem Follows.append (h : Follows fs true links dir segments y) (hy : y = .entry loc)
    (hon : Follows fs true links' loc rest (.entry loc')) :
    Follows fs true (links + links') dir (segments ++ rest) (.entry loc') := by
  induction h with
  | entry h =>
      cases hy
      cases hon with
      | entry hon => exact .entry (h.append hon)
      | link hon hne next => exact (Follows.link (h.append hon) hne next).mono (Nat.le_add_left _ _)
  | free => cases hy
  | link h hne next ih =>
      rw [Nat.add_right_comm]
      refine .link (h.append_link rest) hne ?_
      rw [← List.append_assoc]
      exact ih hy

theorem Follows.unique (h : Follows fs followLast links dir segments y)
    (h' : Follows fs followLast links dir segments y') : y = y' :=
  Except.ok.inj (h.follow_eq.symm.trans h'.follow_eq)

/-- Where segments lead somewhere through enough links, the number of links is the only obstacle. -/
theorem Follows.error_eq (h : Follows fs followLast links dir segments y) {error : FileError}
    (herror : fs.follow followLast links' dir segments = .error error) : error = .tooManyLinks := by
  induction h generalizing links' with
  | entry h =>
      rw [follow, h.reach_eq] at herror
      cases herror
  | free h =>
      rw [follow, h.reach_eq] at herror
      cases herror
  | link h hne next ih =>
      rw [follow, h.reach_eq] at herror
      cases links' with
      | zero =>
          cases herror
          rfl
      | succ links' =>
          simp only [if_neg hne] at herror
          exact ih herror

theorem locate_eq_ok_iff :
    fs.locate true dir segments = .ok loc ↔ Follows fs true maxLinks dir segments (.entry loc) := by
  constructor
  · intro h
    refine follows_of_follow ?_
    rw [locate] at h
    split at h
    next found hfollow => rw [hfollow, Except.ok.inj h]
    next => cases h
    next => cases h
  · intro h
    rw [locate, h.follow_eq]

/-- The location holds an entry, and no link. -/
def HoldsNoLink (fs : FileSystem) (loc : Location) : Prop :=
  ∃ e, fs.get? loc = some e ∧ ∀ target, e ≠ .link target

theorem holdsNoLink_of_directory {es : List (Bytes × Entry)}
    (h : fs.get? loc = some (.directory es)) : HoldsNoLink fs loc :=
  ⟨_, h, by simp⟩

theorem holdsNoLink_dropLast {es : List (Bytes × Entry)} (h : fs.get? loc = some (.directory es)) :
    HoldsNoLink fs loc.dropLast := by
  rcases List.eq_nil_or_concat loc with rfl | ⟨dir, name, rfl⟩
  · exact holdsNoLink_of_directory h
  · rw [List.concat_eq_append] at h
    obtain ⟨es', hdir⟩ := get?_concat h
    rw [List.concat_eq_append, List.dropLast_concat]
    exact holdsNoLink_of_directory hdir

/-- Where links are followed to the end, segments never end at one. -/
theorem Leads.holdsNoLink (h : Leads fs true dir segments x)
    (hdir : segments = [] → HoldsNoLink fs dir)
    (hx : x = .entry loc) : HoldsNoLink fs loc := by
  induction h with
  | here =>
      cases hx
      exact hdir rfl
  | stay hloc hstay next ih => exact ih (fun _ => holdsNoLink_of_directory hloc) hx
  | up hloc hstay hup next ih => exact ih (fun _ => holdsNoLink_dropLast hloc) hx
  | free => cases hx
  | last hloc hname hlink hlast => cases hlast
  | link => cases hx
  | down hloc hname hsome hlink next ih => exact ih (fun _ => ⟨_, hsome, hlink⟩) hx

theorem Follows.holdsNoLink (h : Follows fs true links dir segments y) (hne : segments ≠ [])
    (hy : y = .entry loc) : HoldsNoLink fs loc := by
  induction h with
  | entry hleads =>
      cases hy
      exact hleads.holdsNoLink (fun hnil => absurd hnil hne) rfl
  | free => cases hy
  | @link _ _ _ _ target _ _ hleads htarget next ih =>
      refine ih ?_ hy
      simp [Path.segments, Split.splitAt_ne_nil]

theorem reach_stay {es : List (Bytes × Entry)} (h : fs.get? dir = some (.directory es))
    (hstay : ∀ segment ∈ segments, isStay segment = true) :
    fs.reach followLast dir segments = .ok (.entry dir) := by
  induction segments with
  | nil => rfl
  | cons segment segments ih =>
      obtain ⟨hsegment, hstay⟩ := List.forall_mem_cons.1 hstay
      simp [reach, h, hsegment, ih hstay]

theorem Follows.eq_of_stay (h : Follows fs true links dir [segment] y)
    (hstay : isStay segment = true) : y = .entry dir := by
  have hleads {x : Reach} (h : Leads fs true dir [segment] x) : x = .entry dir := by
    cases h with
    | stay _ _ next =>
        cases next
        rfl
    | up _ hnot => exact absurd hstay (Bool.eq_false_iff.1 hnot)
    | free _ hname => exact absurd hstay (Bool.eq_false_iff.1 hname.not_stay)
    | last _ hname => exact absurd hstay (Bool.eq_false_iff.1 hname.not_stay)
    | link _ hname => exact absurd hstay (Bool.eq_false_iff.1 hname.not_stay)
    | down _ hname => exact absurd hstay (Bool.eq_false_iff.1 hname.not_stay)
  cases h with
  | entry h =>
      cases hleads h
      rfl
  | free h => cases hleads h
  | link h => cases hleads h

theorem eq_of_locate_name (hname : IsName name) {e : Entry}
    (he : fs.get? (dir ++ [name]) = some e) (hnot : ∀ target, e ≠ .link target)
    (h : fs.locate true dir [name] = .ok loc) : loc = dir ++ [name] ∧ name.length ≤ maxName := by
  cases locate_eq_ok_iff.1 h with
  | entry h =>
      cases h with
      | stay _ hstay => exact absurd hstay (Bool.eq_false_iff.1 hname.not_stay)
      | up _ _ hup => exact absurd hup (Bool.eq_false_iff.1 hname.not_up)
      | last _ _ _ hlast => cases hlast
      | down _ hnames _ _ next =>
          cases next
          exact ⟨rfl, hnames.length_le⟩
  | link h =>
      cases h with
      | stay _ hstay => exact absurd hstay (Bool.eq_false_iff.1 hname.not_stay)
      | up _ _ hup => exact absurd hup (Bool.eq_false_iff.1 hname.not_up)
      | link _ _ hlink => exact absurd (Option.some.inj (he.symm.trans hlink)) (hnot _)
      | down _ _ _ _ next => cases next

end FileSystem

namespace World

variable {w : World} {p path : Path} {dir loc target : Location} {name : Bytes} {e : Entry}
  {followLast : Bool}

theorem pathError?_eq_none_iff :
    pathError? p = none ↔ 0 ∉ p.bytes ∧ p.bytes ≠ [] ∧ p.bytes.length ≤ maxPath := by
  unfold pathError?
  split
  next h => simp_all
  next h =>
      split
      next => simp_all
      next => split <;> simp_all

theorem pathError?_eq_nameTooLong (hzero : 0 ∉ p.bytes) (h : maxPath < p.bytes.length) :
    pathError? p = some .nameTooLong := by
  have hne : p.bytes ≠ [] := by
    rintro hnil
    simp [hnil] at h
  simp [pathError?, hzero, hne, h]

theorem pathError?_of_find (h : w.find followLast p = .ok (loc, e)) : pathError? p = none := by
  cases herror : pathError? p with
  | none => rfl
  | some error => simp [find, target, herror] at h

theorem target_eq_follow {start : Location} (herror : pathError? p = none)
    (hstart : w.start? p = some start) (followLast : Bool) :
    w.target followLast p = w.files.follow followLast maxLinks start p.segments := by
  simp only [target, herror, hstart]

theorem find_eq_ok_iff :
    w.find followLast p = .ok (loc, e) ↔
      w.target followLast p = .ok (.entry loc) ∧ w.get? loc = some e := by
  constructor
  · intro h
    rw [find] at h
    split at h
    next => cases h
    next => cases h
    next found hfound =>
        split at h
        next hget =>
            cases h
            exact ⟨hfound, hget⟩
        next => cases h
  · rintro ⟨htarget, hget⟩
    rw [find, htarget]
    simp only [hget]

theorem locate_eq_ok_iff : w.locate p = .ok loc ↔ ∃ e, w.find true p = .ok (loc, e) := by
  rw [locate]
  cases w.find true p with
  | error error => simp [Except.map]
  | ok found => simp [Except.map, Prod.ext_iff]

theorem pathError?_stays {n : Nat} (hn : n ≠ 0) (hlength : 2 * n ≤ maxPath) :
    pathError? (.stays n) = none := by
  refine pathError?_eq_none_iff.2
    ⟨Path.zero_notMem_stays n, ?_, (Path.length_stays n).symm ▸ hlength⟩
  rw [← List.length_pos_iff, Path.length_stays]
  omega

theorem find_stays {es : List (Bytes × Entry)} {n : Nat} (hcwd : w.cwd = some dir)
    (hdir : w.files.get? dir = some (.directory es)) (hremoved : dir ≠ removed) (hn : n ≠ 0)
    (hlength : 2 * n ≤ maxPath) : w.find true (.stays n) = .ok (dir, .directory es) := by
  have hstart : w.start? (.stays n) = some dir := by
    rw [start?, Path.isAbsolute_stays, ← hcwd]
    rfl
  have hreach : w.files.reach true dir (Path.stays n).segments = .ok (.entry dir) := by
    apply FileSystem.reach_stay hdir
    rw [Path.segments_stays, List.forall_mem_append]
    exact ⟨fun segment hsegment => (List.mem_replicate.1 hsegment).2 ▸ rfl,
      by simp [FileSystem.isStay]⟩
  have htarget : w.target true (.stays n) = .ok (.entry dir) := by
    rw [target_eq_follow (pathError?_stays hn hlength) hstart, FileSystem.follow, hreach]
  have hget : w.get? dir = some (.directory es) := by rw [get?, if_neg hremoved, hdir]
  exact find_eq_ok_iff.2 ⟨htarget, hget⟩

theorem get?_removed (hw : w.files.WellFormed) : w.files.get? removed = none := by
  cases hget : w.files.get? removed with
  | none => rfl
  | some e =>
      have hlookup : w.files.entries.lookup [] = some e :=
        (Entry.get?_directory w.files.entries []).symm.trans hget
      have hroot : w.files.get? [] = some (.directory w.files.entries) := rfl
      exact absurd rfl (hw.get?_of_mem hroot (Discovery.mem_of_lookup hlookup)).2.ne_nil

/-- A path leads to its location from where it starts, or it stays in a directory that was
removed. -/
theorem follows_of_locate (h : w.locate p = .ok loc) :
    (∃ start, w.start? p = some start ∧
      FileSystem.Follows w.files true maxLinks start p.segments (.entry loc)) ∨
    (w.start? p = none ∧ (∀ segment ∈ p.segments, FileSystem.isStay segment = true) ∧
      loc = removed) := by
  obtain ⟨e, hfind⟩ := locate_eq_ok_iff.1 h
  have herror := pathError?_of_find hfind
  obtain ⟨htarget, -⟩ := find_eq_ok_iff.1 hfind
  cases hstart : w.start? p with
  | some start =>
      rw [target_eq_follow herror hstart] at htarget
      exact .inl ⟨start, rfl, FileSystem.follows_of_follow htarget⟩
  | none =>
      simp only [target, herror, hstart] at htarget
      split at htarget
      next hstay =>
          cases htarget
          exact .inr ⟨rfl, List.all_eq_true.1 hstay, rfl⟩
      next => cases htarget

/-- What a path leads to is there, and it is no link. -/
theorem holdsNoLink_of_locate (h : w.locate p = .ok loc) (hremoved : loc ≠ removed) :
    FileSystem.HoldsNoLink w.files loc := by
  rcases follows_of_locate h with ⟨start, -, hfollows⟩ | ⟨-, -, hloc⟩
  · exact hfollows.holdsNoLink (Split.splitAt_ne_nil Path.slash p.bytes) rfl
  · exact absurd hloc hremoved

/-- A path that leads to a directory goes on by a name from there. -/
theorem exists_parts (hpath : w.locate path = .ok dir) (hname : IsName name) :
    ∃ parts, (path.join ⟨name⟩).segments = parts ++ [name] ∧
      w.start? (path.join ⟨name⟩) = w.start? path ∧
      ((∃ start, w.start? path = some start ∧
        FileSystem.Follows w.files true maxLinks start parts (.entry dir)) ∨
      w.start? path = none ∧ dir = removed) := by
  obtain ⟨e, hfind⟩ := locate_eq_ok_iff.1 hpath
  have hne := (pathError?_eq_none_iff.1 (pathError?_of_find hfind)).2.1
  obtain ⟨parts, -, hjoined, hparts⟩ := Path.exists_segments_join hne hname
  refine ⟨parts, hjoined, by rw [start?, start?, Path.isAbsolute_join_name hne hname], ?_⟩
  rcases follows_of_locate hpath with ⟨start, hstart, hfollows⟩ | ⟨hstart, -, hremoved⟩
  · refine .inl ⟨start, hstart, ?_⟩
    rcases hparts with hparts | hparts
    · exact hparts ▸ hfollows
    · obtain ⟨loc, links, -, hbefore, hstay⟩ := hfollows.of_append hparts rfl
      cases hstay.eq_of_stay rfl
      exact hbefore
  · exact .inr ⟨hstart, hremoved⟩

/-- Where a path leads that goes on by a name, the name leads from the directory before it. -/
theorem locate_of_locate_join (hpath : w.locate path = .ok dir) (hname : IsName name)
    (h : w.locate (path.join ⟨name⟩) = .ok target) :
    w.files.locate true dir [name] = .ok target := by
  obtain ⟨parts, hjoined, hsame, hparts⟩ := exists_parts hpath hname
  rcases hparts with ⟨start, hstart, hbefore⟩ | ⟨hstart, -⟩
  · rcases follows_of_locate h with ⟨start', hstart', hfollows⟩ | ⟨hnone, -, -⟩
    · obtain rfl : start = start' := by
        rw [hsame, hstart] at hstart'
        exact Option.some.inj hstart'
      obtain ⟨loc, links, hlinks, hbefore', hon⟩ := hfollows.of_append hjoined rfl
      cases hbefore.unique hbefore'
      exact FileSystem.locate_eq_ok_iff.2 (hon.mono hlinks)
    · rw [hsame, hstart] at hnone
      cases hnone
  · rcases follows_of_locate h with ⟨start', hstart', -⟩ | ⟨-, hstay, -⟩
    · rw [hsame, hstart] at hstart'
      cases hstart'
    · have hlast := hstay name (by simp [hjoined])
      rw [hname.not_stay] at hlast
      cases hlast

/-- An entry that is no link is found by every path that is not too long for the operating
system. -/
theorem locate_join_eq_ok_iff (hw : w.files.WellFormed) (hpath : w.locate path = .ok dir)
    (hname : IsName name) (he : w.files.get? (dir ++ [name]) = some e)
    (hnot : ∀ target, e ≠ .link target) :
    w.locate (path.join ⟨name⟩) = .ok (dir ++ [name]) ↔
      pathError? (path.join ⟨name⟩) = none ∧ name.length ≤ maxName := by
  constructor
  · intro h
    obtain ⟨found, hfind⟩ := locate_eq_ok_iff.1 h
    have hself := locate_of_locate_join hpath hname h
    exact ⟨pathError?_of_find hfind, (FileSystem.eq_of_locate_name hname he hnot hself).2⟩
  · rintro ⟨herror, hlength⟩
    obtain ⟨parts, hjoined, hsame, hparts⟩ := exists_parts hpath hname
    rcases hparts with ⟨start, hstart, hbefore⟩ | ⟨-, rfl⟩
    · obtain ⟨es, hdir⟩ := FileSystem.get?_concat he
      have hon : FileSystem.Follows w.files true 0 dir [name] (.entry (dir ++ [name])) :=
        .entry (.down hdir ⟨hname.not_stay, hname.not_up, hlength⟩ he hnot (.here _))
      have hremoved : dir ++ [name] ≠ removed := by
        intro hremoved
        have hlast := congrArg List.getLast? hremoved
        rw [List.getLast?_concat, removed, List.getLast?_singleton, Option.some.injEq] at hlast
        exact hname.ne_nil hlast
      refine locate_eq_ok_iff.2 ⟨e, find_eq_ok_iff.2 ⟨?_, by rw [get?, if_neg hremoved, he]⟩⟩
      rw [target_eq_follow herror (hsame.trans hstart), hjoined]
      exact (hbefore.append rfl hon).follow_eq
    · rw [FileSystem.get?_append_of_none (get?_removed hw)] at he
      cases he

/-- A name that leads somewhere by itself can be too long behind a path or behind too many links.
There is no other reason why it should not lead there behind a path. -/
theorem error_of_locate_join (hw : w.files.WellFormed) (hpath : w.locate path = .ok dir)
    (hname : IsName name) (hself : w.files.locate true dir [name] = .ok target)
    (hshort : pathError? (path.join ⟨name⟩) = none) {error : FileError}
    (h : w.locate (path.join ⟨name⟩) = .error error) : error = .tooManyLinks := by
  have hon := FileSystem.locate_eq_ok_iff.1 hself
  obtain ⟨parts, hjoined, hsame, ⟨start, hstart, hbefore⟩ | ⟨-, rfl⟩⟩ := exists_parts hpath hname
  · have hfollows := hbefore.append rfl hon
    rw [← hjoined] at hfollows
    have htarget := target_eq_follow hshort (hsame.trans hstart) true
    rw [locate, find, htarget] at h
    cases hfollow : w.files.follow true maxLinks start (path.join ⟨name⟩).segments with
    | error error' =>
        rw [hfollow] at h
        cases h
        exact hfollows.error_eq hfollow
    | ok y =>
        have hmore := (FileSystem.follows_of_follow hfollow).mono (Nat.le_add_right _ maxLinks)
        obtain ⟨e, he, -⟩ := hfollows.holdsNoLink (Split.splitAt_ne_nil Path.slash _) rfl
        cases hmore.unique hfollows
        have hget : ∃ e, w.get? target = some e := by
          rw [get?]
          split
          · exact ⟨_, rfl⟩
          · exact ⟨e, he⟩
        obtain ⟨e', he'⟩ := hget
        simp [hfollow, he', Except.map] at h
  · obtain ⟨es, hes⟩ := hon.exists_directory
    rw [get?_removed hw] at hes
    cases hes

end World

end Conformance

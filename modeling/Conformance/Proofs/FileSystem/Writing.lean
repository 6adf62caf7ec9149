import Conformance.Proofs.FileSystem.Access

/-!
# Writing a file

A file that is put at a free name, or in the place of another file, changes what
is there and the kind of nothing else (`FileSystem.Written`). A path that led to
the name, through links or not, therefore leads to the file (`Written.follows`):
what is written to a path is what is found there, and writing to it again goes
to the same place (`World.openForWriting_setContent`). Links are followed to the
end (`Follows.holdsNoLink`), so what is written goes to a file or to a device.
-/

namespace Conformance

namespace Entry

theorem lookup_cons_eq (n name : Bytes) (e : Entry) (es : List (Bytes × Entry)) :
    ((name, e) :: es).lookup n = if n = name then some e else es.lookup n := by
  by_cases hn : n = name
  · rw [List.lookup_cons, hn, beq_self_eq_true, if_pos rfl]
  · rw [List.lookup_cons, beq_eq_false_iff_ne.2 hn, if_neg hn]

theorem lookup_replace (n name : Bytes) (new : Entry) (es : List (Bytes × Entry)) :
    (replace name new es).lookup n = if n = name then some new else es.lookup n := by
  induction es with
  | nil => rw [replace, lookup_cons_eq]
  | cons x es ih =>
      obtain ⟨m, e⟩ := x
      rw [replace]
      by_cases hm : m = name
      · rw [if_pos hm, lookup_cons_eq, lookup_cons_eq, hm]
        split <;> rfl
      · rw [if_neg hm, lookup_cons_eq, lookup_cons_eq, ih]
        by_cases hn : n = name
        · rw [if_neg (fun heq => hm (heq.symm.trans hn)), if_pos hn, if_pos hn]
        · rw [if_neg hn, if_neg hn]

theorem get?_directory_cons (es : List (Bytes × Entry)) (name : Bytes) (loc : Location) :
    (Entry.directory es).get? (name :: loc) = (es.lookup name).bind (·.get? loc) := by
  rw [get?_cons, get?_directory]

theorem put_cons {new child : Entry} {name : Bytes} {loc : Location} {es : List (Bytes × Entry)}
    (hne : loc ≠ []) (h : es.lookup name = some child) :
    put new (name :: loc) (.directory es) = .directory (replace name (put new loc child) es) := by
  cases loc with
  | nil => exact absurd rfl hne
  | cons n loc => simp [put, h]

variable {e new : Entry} {dir loc : Location} {name : Bytes} {es : List (Bytes × Entry)}

theorem get?_eq_some_directory (h : e.get? (name :: loc) = some new) :
    ∃ es child, e = .directory es ∧ es.lookup name = some child ∧ child.get? loc = some new := by
  cases e with
  | directory es =>
      rw [get?_directory_cons] at h
      obtain ⟨child, hchild, hrest⟩ := Option.bind_eq_some_iff.1 h
      exact ⟨es, child, rfl, hchild, hrest⟩
  | file _ _ => cases h
  | link _ => cases h
  | device => cases h

theorem get?_put (h : e.get? dir = some (.directory es)) (new : Entry) (name : Bytes) :
    (put new (dir ++ [name]) e).get? (dir ++ [name]) = some new := by
  induction dir generalizing e with
  | nil =>
      rw [get?_nil] at h
      cases h
      rw [List.nil_append, put, get?_directory, lookup_replace, if_pos rfl]
  | cons n dir ih =>
      obtain ⟨es', child, rfl, hchild, hrest⟩ := get?_eq_some_directory h
      rw [List.cons_append, put_cons (by simp) hchild, get?_directory_cons, lookup_replace,
        if_pos rfl, Option.bind_some, ih hrest]

def IsLeaf (e : Entry) : Prop := ∀ name loc, e.get? (name :: loc) = none

/-- Where a leaf is put in the place of a leaf, nothing changes elsewhere. -/
theorem kind_get?_put (h : e.get? dir = some (.directory es)) (hnew : new.IsLeaf)
    (hold : ∀ old, es.lookup name = some old → old.IsLeaf) (hloc : loc ≠ dir ++ [name]) :
    ((put new (dir ++ [name]) e).get? loc).map kind = (e.get? loc).map kind := by
  induction dir generalizing e loc with
  | nil =>
      rw [get?_nil] at h
      cases h
      rw [List.nil_append, put]
      cases loc with
      | nil => simp [get?_nil, kind]
      | cons n loc =>
          rw [get?_directory_cons, get?_directory_cons, lookup_replace]
          by_cases hn : n = name
          · subst hn
            have hne : loc ≠ [] := by
              rintro rfl
              exact hloc rfl
            obtain ⟨m, rest, rfl⟩ := List.exists_cons_of_ne_nil hne
            have hbelow : (es.lookup n).bind (·.get? (m :: rest)) = none :=
              Option.bind_eq_none_iff.2 fun old hlookup => hold old hlookup m rest
            rw [if_pos rfl, Option.bind_some, hnew, hbelow]
          · rw [if_neg hn]
  | cons n dir ih =>
      obtain ⟨es', child, rfl, hchild, hrest⟩ := get?_eq_some_directory h
      rw [List.cons_append, put_cons (by simp) hchild]
      cases loc with
      | nil => simp [get?_nil, kind]
      | cons m loc =>
          rw [get?_directory_cons, get?_directory_cons, lookup_replace]
          by_cases hm : m = n
          · subst hm
            rw [if_pos rfl, hchild, Option.bind_some, Option.bind_some]
            exact ih hrest fun heq => hloc (by rw [heq, List.cons_append])
          · rw [if_neg hm]

theorem isLeaf_of_isFile (h : e.isFile = true) : e.IsLeaf := by
  cases e with
  | file content executable => exact fun name loc => rfl
  | directory es => cases h
  | link target => cases h
  | device => cases h

end Entry

namespace FileSystem

variable {fs fs' : FileSystem} {dir loc : Location} {name content : Bytes}
  {es : List (Bytes × Entry)}

/-- The file systems differ in the file at a location, which may be new. -/
structure Written (fs fs' : FileSystem) (loc : Location) (content : Bytes) : Prop where
  there : ∃ executable, fs'.get? loc = some (.file content executable)
  before : ∀ e, fs.get? loc = some e → e.isFile = true
  elsewhere : ∀ loc', loc' ≠ loc → (fs'.get? loc').map Entry.kind = (fs.get? loc').map Entry.kind

theorem root_put (h : fs.get? dir = some (.directory es)) (name : Bytes) (new : Entry) :
    (fs.put (dir ++ [name]) new).root = Entry.put new (dir ++ [name]) fs.root := by
  have hdirectory : ∃ es, Entry.put new (dir ++ [name]) fs.root = .directory es := by
    cases dir with
    | nil => exact ⟨_, rfl⟩
    | cons n dir =>
        obtain ⟨es', child, hroot, hchild, -⟩ := Entry.get?_eq_some_directory h
        rw [hroot]
        exact ⟨_, Entry.put_cons (by simp) hchild⟩
  obtain ⟨es', hes'⟩ := hdirectory
  rw [put, hes']
  rfl

theorem written_put (h : fs.get? dir = some (.directory es))
    (hbefore : ∀ e, fs.get? (dir ++ [name]) = some e → e.isFile = true) (content : Bytes)
    (executable : Bool) :
    Written fs (fs.put (dir ++ [name]) (.file content executable)) (dir ++ [name]) content where
  there := by
    refine ⟨executable, ?_⟩
    rw [get?, root_put h]
    exact Entry.get?_put h _ _
  before := hbefore
  elsewhere := by
    intro loc' hloc'
    rw [get?, root_put h]
    refine Entry.kind_get?_put h (Entry.isLeaf_of_isFile rfl) ?_ hloc'
    intro old hold
    rw [← get?_append_singleton h] at hold
    exact Entry.isLeaf_of_isFile (hbefore old hold)

theorem Written.of_not_file (h : Written fs fs' loc content) {e : Entry} {loc' : Location}
    (he : fs.get? loc' = some e) (hfile : e.isFile = false) :
    ∃ e', fs'.get? loc' = some e' ∧ e'.kind = e.kind := by
  have hne : loc' ≠ loc := by
    rintro rfl
    rw [h.before _ he] at hfile
    cases hfile
  have hkind := h.elsewhere loc' hne
  rw [he] at hkind
  exact Option.map_eq_some_iff.1 hkind

theorem Written.directory (h : Written fs fs' loc content)
    (hdir : fs.get? dir = some (.directory es)) : ∃ es', fs'.get? dir = some (.directory es') := by
  obtain ⟨e', he', hkind⟩ := h.of_not_file hdir rfl
  obtain ⟨es', rfl⟩ := Entry.kind_eq_directory.1 hkind
  exact ⟨es', he'⟩

theorem Written.link (h : Written fs fs' loc content) {target : Path} {loc' : Location}
    (hlink : fs.get? loc' = some (.link target)) : fs'.get? loc' = some (.link target) := by
  obtain ⟨e', he', hkind⟩ := h.of_not_file hlink rfl
  rw [he', Entry.kind_eq_link.1 hkind]

theorem Written.not_link (h : Written fs fs' loc content) {e : Entry} {loc' : Location}
    (he : fs.get? loc' = some e) (hnot : ∀ target, e ≠ .link target) :
    ∃ e', fs'.get? loc' = some e' ∧ ∀ target, e' ≠ .link target := by
  by_cases hloc : loc' = loc
  · obtain ⟨executable, hthere⟩ := h.there
    exact ⟨_, hloc ▸ hthere, fun target heq => by cases heq⟩
  · have hkind := h.elsewhere loc' hloc
    rw [he] at hkind
    obtain ⟨e', he', hsame⟩ := Option.map_eq_some_iff.1 hkind
    refine ⟨e', he', ?_⟩
    rintro target rfl
    exact hnot target (Entry.kind_eq_link.1 hsame.symm)

/-- What a name that leads nowhere leads to once there is a file at a location. -/
def Reach.after (loc : Location) : Reach → Reach
  | .free dir name => if dir ++ [name] = loc then .entry loc else .free dir name
  | x => x

/-- Once the file is there, segments lead to it where they led to its free name. -/
theorem Written.leads (h : Written fs fs' loc content) {followLast : Bool} {start : Location}
    {segments : List Bytes} {x : Reach} (hleads : Leads fs followLast start segments x) :
    Leads fs' followLast start segments (x.after loc) := by
  induction hleads with
  | here start => exact .here start
  | stay hstart hstay next ih =>
      obtain ⟨es', hstart'⟩ := h.directory hstart
      exact .stay hstart' hstay ih
  | up hstart hstay hup next ih =>
      obtain ⟨es', hstart'⟩ := h.directory hstart
      exact .up hstart' hstay hup ih
  | @free start es name hstart hname hnone =>
      obtain ⟨es', hstart'⟩ := h.directory hstart
      rw [Reach.after]
      split
      next heq =>
          obtain ⟨executable, hthere⟩ := h.there
          subst heq
          exact .down hstart' hname hthere nofun (.here _)
      next hne =>
          have hkind := h.elsewhere _ hne
          rw [hnone, Option.map_none, Option.map_eq_none_iff] at hkind
          exact .free hstart' hname hkind
  | last hstart hname hlink hlast =>
      obtain ⟨es', hstart'⟩ := h.directory hstart
      exact .last hstart' hname (h.link hlink) hlast
  | link hstart hname hlink hrest =>
      obtain ⟨es', hstart'⟩ := h.directory hstart
      exact .link hstart' hname (h.link hlink) hrest
  | down hstart hname hsome hnot next ih =>
      obtain ⟨es', hstart'⟩ := h.directory hstart
      obtain ⟨e', he', hnot'⟩ := h.not_link hsome hnot
      exact .down hstart' hname he' hnot' ih

@[inherit_doc Reach.after]
def Target.after (loc : Location) : Target → Target
  | .free dir name => if dir ++ [name] = loc then .entry loc else .free dir name
  | x => x

theorem Written.follows (h : Written fs fs' loc content) {followLast : Bool} {links : Nat}
    {start : Location} {segments : List Bytes} {x : Target}
    (hfollows : Follows fs followLast links start segments x) :
    Follows fs' followLast links start segments (x.after loc) := by
  induction hfollows with
  | entry hleads => exact .entry (h.leads hleads)
  | free hleads =>
      have hleads' := h.leads hleads
      rw [Reach.after] at hleads'
      rw [Target.after]
      split at hleads'
      next heq =>
          rw [if_pos heq]
          exact .entry hleads'
      next hne =>
          rw [if_neg hne]
          exact .free hleads'
  | link hleads hne next ih => exact .link (h.leads hleads) hne ih

/-- A free name is one of an existing directory. -/
theorem Leads.free_spec {followLast : Bool} {start : Location} {segments : List Bytes} {x : Reach}
    (h : Leads fs followLast start segments x) (hx : x = .free dir name) :
    (∃ es, fs.get? dir = some (.directory es)) ∧ fs.get? (dir ++ [name]) = none ∧ Names name := by
  induction h with
  | here => cases hx
  | stay hstart hstay next ih => exact ih hx
  | up hstart hstay hup next ih => exact ih hx
  | free hstart hname hnone =>
      cases hx
      exact ⟨⟨_, hstart⟩, hnone, hname⟩
  | last => cases hx
  | link => cases hx
  | down hstart hname hsome hnot next ih => exact ih hx

theorem Follows.free_spec {followLast : Bool} {links : Nat} {start : Location}
    {segments : List Bytes} {x : Target} (h : Follows fs followLast links start segments x)
    (hx : x = .free dir name) :
    (∃ es, fs.get? dir = some (.directory es)) ∧ fs.get? (dir ++ [name]) = none ∧ Names name := by
  induction h with
  | entry => cases hx
  | free hleads =>
      cases hx
      exact hleads.free_spec rfl
  | link hleads hne next ih => exact ih hx

end FileSystem

namespace World

variable {w : World} {p : Path} {loc : Location}

/-- A path puts a file at a free name, or at an entry that is no directory. -/
theorem openForWriting_cases (h : w.openForWriting p = .ok loc) :
    p.bytes.getLast? ≠ some Path.slash ∧ pathError? p = none ∧
      ∃ start x, w.start? p = some start ∧
        FileSystem.Follows w.files true maxLinks start p.segments x ∧
        ((∃ dir name, x = .free dir name ∧ loc = dir ++ [name]) ∨
          x = .entry loc ∧ loc ≠ removed ∧
            ∃ e, w.files.get? loc = some e ∧ e.isDirectory = false) := by
  rw [openForWriting] at h
  split at h
  next =>
      split at h
      next => cases h
      next => split at h <;> cases h
  next hslash =>
      cases herror : pathError? p with
      | some e => simp [target, herror] at h
      | none =>
          refine ⟨hslash, rfl, ?_⟩
          cases hstart : w.start? p with
          | none =>
              -- a removed directory holds no file
              simp only [target, herror, hstart] at h
              by_cases hstay : p.segments.all FileSystem.isStay = true
              · simp [hstay, get?] at h
              · simp [hstay] at h
          | some start =>
              rw [target_eq_follow herror hstart] at h
              split at h
              next => cases h
              next dir name hfollow =>
                  cases h
                  exact ⟨start, _, rfl, FileSystem.follows_of_follow hfollow,
                    .inl ⟨dir, name, rfl, rfl⟩⟩
              next loc' hfollow =>
                  rw [get?] at h
                  by_cases hremoved : loc' = removed
                  · simp [hremoved] at h
                  · rw [if_neg hremoved] at h
                    split at h
                    next => cases h
                    next e hnot hget =>
                        cases h
                        refine ⟨start, _, rfl, FileSystem.follows_of_follow hfollow,
                          .inr ⟨rfl, hremoved, e, hget, ?_⟩⟩
                        cases e with
                        | directory es => exact absurd rfl (hnot es)
                        | file _ _ => rfl
                        | link _ => rfl
                        | device => rfl
                    next => cases h

/-- Where a path puts a file, there is a directory to hold it. -/
theorem directory_of_openForWriting (h : w.openForWriting p = .ok loc) :
    ∃ dir name es, loc = dir ++ [name] ∧ w.files.get? dir = some (.directory es) ∧
      loc ≠ removed := by
  obtain ⟨-, -, start, x, -, hfollows, ⟨dir, name, rfl, rfl⟩ | ⟨rfl, hremoved, e, he, hnot⟩⟩ :=
    openForWriting_cases h
  · obtain ⟨⟨es, hdir⟩, -, hname⟩ := hfollows.free_spec rfl
    refine ⟨dir, name, es, rfl, hdir, ?_⟩
    intro hremoved
    have hlast := congrArg List.getLast? hremoved
    rw [List.getLast?_concat, removed, List.getLast?_singleton, Option.some.injEq] at hlast
    subst hlast
    cases hname.not_stay
  · rcases List.eq_nil_or_concat loc with rfl | ⟨dir, name, rfl⟩
    · cases he
      cases hnot
    · rw [List.concat_eq_append] at he ⊢
      obtain ⟨es, hdir⟩ := FileSystem.get?_concat he
      exact ⟨dir, name, es, rfl, hdir, List.concat_eq_append ▸ hremoved⟩

theorem isFile_or_eq_device_of_openForWriting (h : w.openForWriting p = .ok loc) {e : Entry}
    (he : w.files.get? loc = some e) : e.isFile = true ∨ e = .device := by
  obtain ⟨-, -, start, x, -, hfollows, ⟨dir, name, rfl, rfl⟩ | ⟨rfl, -, e', he', hnot⟩⟩ :=
    openForWriting_cases h
  · obtain ⟨-, hnone, -⟩ := hfollows.free_spec rfl
    rw [hnone] at he
    cases he
  · obtain ⟨found, hfound, hlink⟩ :=
      hfollows.holdsNoLink (Split.splitAt_ne_nil Path.slash p.bytes) rfl
    rw [he] at he' hfound
    cases he'
    cases hfound
    cases e with
    | file _ _ => exact .inl rfl
    | directory _ => cases hnot
    | link target => exact absurd rfl (hlink target)
    | device => exact .inr rfl

/-- The file system with the content in a file differs in that file. -/
theorem written_setContent (h : w.openForWriting p = .ok loc)
    (hfile : ∀ e, w.files.get? loc = some e → e.isFile = true) (content : Bytes) :
    FileSystem.Written w.files (w.setContent loc content).files loc content := by
  obtain ⟨dir, name, es, rfl, hdir, -⟩ := directory_of_openForWriting h
  rw [setContent]
  split
  next => exact FileSystem.written_put hdir hfile content _
  next e hnot hget =>
      cases e with
      | file old executable => exact absurd rfl (hnot old executable)
      | directory _ => cases hfile _ hget
      | link _ => cases hfile _ hget
      | device => cases hfile _ hget
  next => exact FileSystem.written_put hdir hfile content _

theorem setContent_cwd (w : World) (loc : Location) (content : Bytes) :
    (w.setContent loc content).cwd = w.cwd := by
  rw [setContent]
  split <;> rfl

theorem setContent_limit? (w : World) (loc : Location) (content : Bytes) :
    (w.setContent loc content).limit? = w.limit? := by
  rw [setContent]
  split <;> rfl

theorem accepted_eq_take {limit : Limit} (h : w.limit? loc = some limit) (content : Bytes) :
    w.accepted loc content = content.take limit.room := by
  simp only [accepted, h]

/-- The file at a location takes all of a text. -/
def Takes (w : World) (loc : Location) (content : Bytes) : Prop :=
  ∀ limit, w.limit? loc = some limit → content.length ≤ limit.room

theorem room_cases (w : World) (loc : Location) (needed : Limit → Nat) :
    (∀ limit, w.limit? loc = some limit → needed limit ≤ limit.room) ∨
      ∃ limit, w.limit? loc = some limit ∧ limit.room < needed limit := by
  cases w.limit? loc with
  | none => exact .inl (by simp)
  | some limit => simpa using Nat.lt_or_ge limit.room (needed limit) |>.symm

theorem takes_of_eq_none {content : Bytes} (h : w.limit? loc = none) : w.Takes loc content := by
  intro limit hlimit
  rw [h] at hlimit
  cases hlimit

theorem Takes.setContent {content : Bytes} (h : w.Takes loc content) (loc' : Location)
    (content' : Bytes) : (w.setContent loc' content').Takes loc content := by
  rwa [Takes, setContent_limit?]

theorem Takes.accepted_eq {content : Bytes} (h : w.Takes loc content) :
    w.accepted loc content = content := by
  rw [accepted]
  split
  next limit hlimit => rw [List.take_of_length_le (h limit hlimit)]
  next => rfl

/-- What is written to a path is found there, and the path is written to at the same place. -/
theorem openForWriting_setContent (h : w.openForWriting p = .ok loc)
    (hfile : ∀ e, w.files.get? loc = some e → e.isFile = true) (content : Bytes) :
    (w.setContent loc content).openForWriting p = .ok loc ∧
      ∃ executable,
        (w.setContent loc content).files.get? loc = some (.file content executable) ∧
        (w.setContent loc content).find true p = .ok (loc, .file content executable) := by
  obtain ⟨-, -, -, -, -, hremoved⟩ := directory_of_openForWriting h
  have hwritten := written_setContent h hfile content
  obtain ⟨hslash, herror, start, x, hstart, hfollows, hx⟩ := openForWriting_cases h
  have hafter : x.after loc = .entry loc := by
    rcases hx with ⟨dir, name, rfl, rfl⟩ | ⟨rfl, -, -⟩
    · rw [FileSystem.Target.after, if_pos rfl]
    · rfl
  have hstart' : (w.setContent loc content).start? p = some start := by
    rw [start?, setContent_cwd]
    exact hstart
  have htarget : (w.setContent loc content).target true p = .ok (.entry loc) := by
    rw [target_eq_follow herror hstart', (hwritten.follows hfollows).follow_eq, hafter]
  obtain ⟨executable, hthere⟩ := hwritten.there
  have hget : (w.setContent loc content).get? loc = some (.file content executable) := by
    rw [get?, if_neg hremoved, hthere]
  refine ⟨?_, executable, hthere, ?_⟩
  · simp only [openForWriting, if_neg hslash, htarget, hget]
  · simp only [find, htarget, hget]

end World

end Conformance

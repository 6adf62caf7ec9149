import Conformance.Configuration
import Conformance.Proofs.Discovery.Walk
import Conformance.Proofs.FileSystem.Writing

/-!
# Configurations and the working directory

A relative path is made absolute by writing the path of the working directory in
front of it. The names on the way to a directory lead to it one by one, with no
link among them (`FileSystem.reach_names`), so from the root the longer path goes
where the shorter one goes from the working directory, and through the same
links. What can come between is the length: the operating system refuses paths
of more than `maxPath` bytes, and a relative path that it accepts may have an
absolute form that it refuses (`World.find_absolutize`).

File systems have no permissions here, so every directory on the way from the
root down to the working directory is taken as one that may be searched. A
relative path never asks for that, its absolute form does.
-/

namespace Conformance

namespace Split

theorem joinWith_cons {α : Type} (sep : α) (part : List α) (parts : List (List α)) :
    joinWith sep (part :: parts) = part ++ parts.flatMap (sep :: ·) := by
  induction parts generalizing part with
  | nil => simp [joinWith]
  | cons part' parts ih => rw [joinWith_cons_cons, ih, List.flatMap_cons, List.cons_append]

end Split

theorem Path.isAbsolute_join {p : Path} (hp : p.isAbsolute = true) (q : Path) :
    (p.join q).isAbsolute = true := by
  have hhead : p.bytes.head? = some slash := of_decide_eq_true hp
  rw [join]
  split
  next hq => exact hq
  next => split <;> simp [isAbsolute, hhead]

/-- A name that can be written in a path. -/
structure IsWritable (name : Bytes) : Prop extends IsName name where
  zero_notMem : 0 ∉ name
  length_le : name.length ≤ maxName

theorem IsWritable.names {name : Bytes} (h : IsWritable name) : FileSystem.Names name where
  not_stay := by simp [FileSystem.isStay, h.ne_nil, h.ne_dot]
  not_up := by simp [FileSystem.isUp, h.ne_dots]
  length_le := h.length_le

namespace FileSystem

variable {fs : FileSystem} {followLast : Bool} {base dir loc : Location} {rest : List Bytes}
  {es : List (Bytes × Entry)}

theorem exists_directory_above (h : fs.get? (base ++ loc) = some (.directory es)) :
    ∃ entries, fs.get? base = some (.directory entries) := by
  cases loc with
  | nil => exact ⟨es, by simpa using h⟩
  | cons name loc =>
      rw [get?, Entry.get?_append] at h
      obtain ⟨d, hbase, hbelow⟩ := Option.bind_eq_some_iff.1 h
      obtain ⟨entries, -, rfl, -, -⟩ := Entry.get?_eq_some_directory hbelow
      exact ⟨entries, hbase⟩

theorem reach_names (h : fs.get? (base ++ loc) = some (.directory es))
    (hloc : ∀ name ∈ loc, Names name) :
    fs.reach followLast base (loc ++ rest) = fs.reach followLast (base ++ loc) rest := by
  induction loc generalizing base with
  | nil => simp
  | cons name loc ih =>
      obtain ⟨hname, hloc⟩ := List.forall_mem_cons.1 hloc
      have hsplit : base ++ name :: loc = base ++ [name] ++ loc := by simp
      obtain ⟨entries, hbase⟩ := exists_directory_above h
      rw [hsplit] at h ⊢
      obtain ⟨children, hchild⟩ := exists_directory_above h
      rw [get?_append_singleton hbase] at hchild
      rw [← ih h hloc]
      simp [reach, hbase, hname.not_stay, hname.not_up, Nat.not_lt.2 hname.length_le, hchild]

theorem reach_root (fs : FileSystem) (followLast : Bool) (rest : List Bytes) :
    fs.reach followLast [] ([] :: rest) = fs.reach followLast [] rest := by
  have hroot : fs.get? [] = some (.directory fs.entries) := Entry.get?_nil _
  simp [reach, hroot, isStay]

/-- From the root, the location of a directory and the segments behind it lead where the segments
lead from the directory. -/
theorem follow_below (h : fs.get? dir = some (.directory es)) (hdir : ∀ name ∈ dir, Names name)
    (links : Nat) (segments : List Bytes) :
    fs.follow followLast links [] ([] :: (dir ++ segments)) =
      fs.follow followLast links dir segments := by
  have hreach : fs.reach followLast [] ([] :: (dir ++ segments)) =
      fs.reach followLast dir segments := by
    rw [reach_root]
    exact reach_names (by simpa using h) hdir
  rw [follow, follow, hreach]

theorem exists_directory_of_follow {links : Nat} {segments : List Bytes} {x : Target}
    (h : fs.follow followLast links dir segments = .ok x) (hne : segments ≠ []) :
    ∃ es, fs.get? dir = some (.directory es) := by
  obtain ⟨segment, rest, rfl⟩ := List.exists_cons_of_ne_nil hne
  rw [follow, reach] at h
  cases hdir : fs.get? dir with
  | none => simp [hdir] at h
  | some e =>
      cases e with
      | directory es => exact ⟨es, rfl⟩
      | file _ _ => simp [hdir] at h
      | link _ => simp [hdir] at h
      | device => simp [hdir] at h

end FileSystem

namespace World

variable {w : World} {p q : Path} {dir loc : Location} {e : Entry} {followLast : Bool}

theorem bytes_pathOf_join (hdir : ∀ name ∈ dir, IsName name) (hp : p.isAbsolute = false) :
    ((pathOf dir).join p).bytes = dir.flatMap (Path.slash :: ·) ++ Path.slash :: p.bytes := by
  rcases List.eq_nil_or_concat dir with rfl | ⟨above, name, rfl⟩
  · simp [pathOf, Path.join, hp]
  · rw [List.concat_eq_append] at hdir ⊢
    have hname := hdir name (by simp)
    have hlast : ((above ++ [name]).flatMap (Path.slash :: ·)).getLast? ≠ some Path.slash := by
      obtain ⟨last, hlast⟩ := Option.isSome_iff_exists.1 (List.getLast?_isSome.2 hname.ne_nil)
      rw [List.flatMap_append, List.flatMap_singleton, List.append_cons, List.getLast?_append,
        hlast, Option.some_or]
      intro hslash
      exact hname.slash_notMem (List.mem_of_getLast? (hlast.trans hslash))
    have hpath : pathOf (above ++ [name]) = ⟨(above ++ [name]).flatMap (Path.slash :: ·)⟩ :=
      if_neg (by simp)
    rw [Path.join, hp, if_neg Bool.false_ne_true, hpath, if_neg]
    rw [not_or]
    exact ⟨by simp, hlast⟩

theorem segments_pathOf_join (hdir : ∀ name ∈ dir, IsName name) (hp : p.isAbsolute = false) :
    ((pathOf dir).join p).segments = [] :: (dir ++ p.segments) := by
  have hnames : Split.splitAt Path.slash (dir.flatMap (Path.slash :: ·)) = [] :: dir := by
    have hjoined := Split.joinWith_cons Path.slash [] dir
    rw [List.nil_append] at hjoined
    rw [← hjoined]
    apply Split.splitAt_joinWith (by simp)
    exact List.forall_mem_cons.2 ⟨by simp, fun name hname => (hdir name hname).slash_notMem⟩
  rw [Path.segments, bytes_pathOf_join hdir hp, Split.splitAt_append_cons, hnames]
  rfl

theorem isAbsolute_pathOf_join (hdir : ∀ name ∈ dir, IsName name) (hp : p.isAbsolute = false) :
    ((pathOf dir).join p).isAbsolute = true := by
  rw [Path.isAbsolute, bytes_pathOf_join hdir hp]
  cases dir <;> simp

/-- The names on the way to the working directory can be written in a path. -/
def HasWritablePath (w : World) : Prop := ∀ dir, w.cwd = some dir → ∀ name ∈ dir, IsWritable name

/-- An absolute path names the same from every working directory. -/
theorem find_of_isAbsolute (hp : p.isAbsolute = true) (followLast : Bool) (cwd : Option Location) :
    { w with cwd }.find followLast p = w.find followLast p := by
  simp [find, target, start?, hp, get?]

theorem exists_directory_of_find (h : w.find followLast p = .ok (loc, e))
    (hstart : w.start? p = some dir) : ∃ es, w.files.get? dir = some (.directory es) := by
  rw [find, target_eq_follow (pathError?_of_find h) hstart] at h
  cases hfollow : w.files.follow followLast maxLinks dir p.segments with
  | error error => simp [hfollow] at h
  | ok x =>
      exact FileSystem.exists_directory_of_follow hfollow (Split.splitAt_ne_nil Path.slash p.bytes)

theorem zero_notMem_pathOf_join (hdir : ∀ name ∈ dir, IsWritable name)
    (hp : p.isAbsolute = false) (hzero : 0 ∉ p.bytes) : 0 ∉ ((pathOf dir).join p).bytes := by
  have hslash : (0 : UInt8) ≠ Path.slash := by decide
  rw [bytes_pathOf_join (fun name hname => (hdir name hname).toIsName) hp, List.mem_append,
    List.mem_flatMap]
  rintro (⟨name, hmem, hname⟩ | hbytes)
  · exact (hdir name hmem).zero_notMem (List.mem_of_ne_of_mem hslash hname)
  · exact hzero (List.mem_of_ne_of_mem hslash hbytes)

/-- Behind the path of the working directory, a path leads where it leads by itself. -/
theorem target_pathOf_join (hcwd : w.cwd = some dir) (hdir : ∀ name ∈ dir, IsWritable name)
    {es : List (Bytes × Entry)} (hes : w.files.get? dir = some (.directory es))
    (hp : p.isAbsolute = false) (herror : pathError? p = none)
    (hlength : ((pathOf dir).join p).bytes.length ≤ maxPath) (cwd : Option Location) :
    { w with cwd }.target followLast ((pathOf dir).join p) = w.target followLast p := by
  have hname : ∀ name ∈ dir, IsName name := fun name hname => (hdir name hname).toIsName
  have hjoined : pathError? ((pathOf dir).join p) = none := by
    obtain ⟨hzero, -, -⟩ := pathError?_eq_none_iff.1 herror
    refine pathError?_eq_none_iff.2 ⟨zero_notMem_pathOf_join hdir hp hzero, ?_, hlength⟩
    simp [bytes_pathOf_join hname hp]
  have hroot : { w with cwd }.start? ((pathOf dir).join p) = some [] :=
    if_pos (isAbsolute_pathOf_join hname hp)
  have hstart : w.start? p = some dir := by rw [start?, hp, ← hcwd]; rfl
  rw [target_eq_follow hjoined hroot, target_eq_follow herror hstart, segments_pathOf_join hname hp]
  exact FileSystem.follow_below hes (fun name hname => (hdir name hname).names) _ _

/-- A path that is made absolute names what it named, from every working directory, unless it has
become too long. -/
theorem find_absolutize (hw : w.HasWritablePath) (h : w.find followLast p = .ok (loc, e))
    (hq : w.absolutize p = .ok q) (cwd : Option Location) :
    q.isAbsolute = true ∧
      { w with cwd }.find followLast q =
        if q.bytes.length ≤ maxPath then .ok (loc, e) else .error .nameTooLong := by
  have herror := pathError?_of_find h
  obtain ⟨hzero, -, hlength⟩ := pathError?_eq_none_iff.1 herror
  rw [absolutize] at hq
  by_cases hp : p.isAbsolute = true
  · rw [if_pos hp] at hq
    cases hq
    exact ⟨hp, by rw [if_pos hlength, find_of_isAbsolute hp, h]⟩
  rw [if_neg hp, currentDirectory] at hq
  rw [Bool.not_eq_true] at hp
  cases hcwd : w.cwd with
  | none => simp [hcwd, Except.map] at hq
  | some dir =>
      simp only [hcwd, Except.map, Except.ok.injEq] at hq
      subst hq
      have hdir := hw dir hcwd
      refine ⟨isAbsolute_pathOf_join (fun name hname => (hdir name hname).toIsName) hp, ?_⟩
      by_cases hjoined : ((pathOf dir).join p).bytes.length ≤ maxPath
      · obtain ⟨es, hes⟩ := exists_directory_of_find h (by rw [start?, hp, ← hcwd]; rfl)
        rw [if_pos hjoined, ← h, find, find, target_pathOf_join hcwd hdir hes hp herror hjoined]
        rfl
      · have hlong := pathError?_eq_nameTooLong (zero_notMem_pathOf_join hdir hp hzero)
          (Nat.lt_of_not_le hjoined)
        rw [if_neg hjoined, find, target, hlong]

theorem isDirectory_iff :
    w.isDirectory p = true ↔ ∃ loc es, w.find true p = .ok (loc, .directory es) := by
  rw [isDirectory]
  cases hfind : w.find true p with
  | error error => simp
  | ok found =>
      obtain ⟨loc, e⟩ := found
      cases e <;> simp [Entry.isDirectory]

theorem isFile_iff :
    w.isFile p = true ↔
      ∃ loc content executable, w.find true p = .ok (loc, .file content executable) := by
  rw [isFile]
  cases hfind : w.find true p with
  | error error => simp
  | ok found =>
      obtain ⟨loc, e⟩ := found
      cases e <;> simp [Entry.isFile]

end World

namespace Discovery

variable {w : World}

theorem visit_of_isAbsolute (cwd : Option Location) (way : List Ancestor) (path : Path)
    (loc : Location) (es : List (Bytes × Entry)) (hpath : path.isAbsolute = true) :
    visit { w with cwd } way path loc es = visit w way path loc es := by
  induction way, path, loc, es using visit_induction w.files with
  | nil way path loc => rw [visit, visit]
  | cons way path loc name e rest hrest hdirectory hlink =>
      have hjoined := Path.isAbsolute_join hpath ⟨name⟩
      have hlocate : { w with cwd }.locate (path.join ⟨name⟩) = w.locate (path.join ⟨name⟩) := by
        rw [World.locate, World.locate, World.find_of_isAbsolute hjoined]
      cases e with
      | file content executable => rw [visit, visit, hrest hpath]
      | device => rw [visit, visit, hrest hpath]
      | directory inner => rw [visit, visit, hrest hpath, hlocate, hdirectory inner rfl hjoined]
      | link linked =>
          rw [visit, visit, hrest hpath, hlocate]
          cases w.locate (path.join ⟨name⟩) with
          | error error => rfl
          | ok target =>
              simp only
              split
              next inner hinner =>
                  split
                  next => rfl
                  next hnew => rw [hlink target inner hinner hnew hjoined]
              next => rfl
              next => rfl

theorem discover_of_isAbsolute {root : Path} (hroot : root.isAbsolute = true)
    (cwd : Option Location) (extension : String) :
    discover { w with cwd } root extension = discover w root extension := by
  have hwalk : walk { w with cwd } root = walk w root := by
    simp only [walk, World.find_of_isAbsolute hroot, visit_of_isAbsolute cwd _ _ _ _ hroot]
  have hcollect : collect { w with cwd } root extension = collect w root extension := by
    rw [collect, collect, hwalk]
  rw [discover, discover, hcollect]

end Discovery

namespace Configuration

variable {w : World} {root compiler : Option Path} {c : Configuration}

theorem absolute_eq_ok_iff {p q : Path} : absolute w p = .ok q ↔ w.absolutize p = .ok q := by
  rw [absolute]
  cases w.absolutize p with
  | error e => exact ⟨nofun, nofun⟩
  | ok p' =>
      constructor
      · rintro ⟨⟩
        rfl
      · rintro ⟨⟩
        rfl

theorem resolveRoot_eq_ok_iff {q : Path} :
    resolveRoot w root = .ok q ↔
      ∃ p, root = some p ∧ w.isDirectory p = true ∧ w.absolutize p = .ok q := by
  cases root with
  | none => simp [resolveRoot]
  | some p =>
      rw [resolveRoot]
      by_cases hp : w.isDirectory p = true
      · simp [hp, absolute_eq_ok_iff]
      · simp [hp]

theorem resolveCompiler_eq_ok_iff {q : Path} :
    resolveCompiler w compiler = .ok q ↔
      ∃ p, compiler = some p ∧ w.isFile p = true ∧ w.absolutize p = .ok q := by
  cases compiler with
  | none => simp [resolveCompiler]
  | some p =>
      rw [resolveCompiler]
      by_cases hp : w.isFile p = true
      · simp [hp, absolute_eq_ok_iff]
      · simp [hp]

theorem resolve_eq_ok_iff :
    resolve w root compiler = .ok c ↔
      resolveRoot w root = .ok c.suiteRoot ∧ resolveCompiler w compiler = .ok c.compilerBinary := by
  obtain ⟨suiteRoot, compilerBinary⟩ := c
  rw [resolve]
  cases resolveRoot w root with
  | error e => simp
  | ok p =>
      cases resolveCompiler w compiler with
      | error e => simp
      | ok q => simp

theorem resolve_of_not_directory {p : Path} (hp : w.isDirectory p = false)
    (compiler : Option Path) :
    resolve w (some p) compiler = .error (.notADirectory suiteRootVar p) := by
  simp [resolve, resolveRoot, hp]

theorem absolutize_of_isAbsolute {p : Path} (hp : p.isAbsolute = true) (w : World) :
    w.absolutize p = .ok p :=
  if_pos hp

theorem resolve_of_isAbsolute (hroot : c.suiteRoot.isAbsolute = true)
    (hcompiler : c.compilerBinary.isAbsolute = true) :
    resolve w (some c.suiteRoot) (some c.compilerBinary) = .ok c ↔
      w.isDirectory c.suiteRoot = true ∧ w.isFile c.compilerBinary = true := by
  rw [resolve_eq_ok_iff, resolveRoot_eq_ok_iff, resolveCompiler_eq_ok_iff]
  simp [absolutize_of_isAbsolute hroot, absolutize_of_isAbsolute hcompiler]

/-- A configuration holds absolute paths. As long as they are not too long for the operating system
they name, from every working directory, the directory and the file that the values named, and they
are the configuration that they resolve to again; what is found below the root is the same from
everywhere. A value that is wrong for the root is the error, whatever the compiler is. The
directories on the way to the working directory are taken as searchable. -/
theorem resolve_independent_of_working_directory (w : World) (hw : w.HasWritablePath)
    (root compiler : Option Path) :
    (∀ c, resolve w root compiler = .ok c →
      c.suiteRoot.isAbsolute = true ∧ c.compilerBinary.isAbsolute = true ∧
      (∃ p loc es, root = some p ∧ w.find true p = .ok (loc, .directory es) ∧
        ∀ cwd, c.suiteRoot.bytes.length ≤ maxPath →
          { w with cwd }.find true c.suiteRoot = .ok (loc, .directory es)) ∧
      (∃ p loc content executable, compiler = some p ∧
        w.find true p = .ok (loc, .file content executable) ∧
        ∀ cwd, c.compilerBinary.bytes.length ≤ maxPath →
          { w with cwd }.find true c.compilerBinary = .ok (loc, .file content executable)) ∧
      (∀ environment : Environment, environment.suiteRoot? = root →
        rootOfEnvironment { w with environment } = .ok c.suiteRoot) ∧
      ∀ cwd,
        (resolve { w with cwd } (some c.suiteRoot) (some c.compilerBinary) = .ok c ↔
          c.suiteRoot.bytes.length ≤ maxPath ∧ c.compilerBinary.bytes.length ≤ maxPath) ∧
        ∀ extension, Discovery.discover { w with cwd } c.suiteRoot extension =
          Discovery.discover w c.suiteRoot extension) ∧
    (root = none → resolve w root compiler = .error (.unset suiteRootVar)) ∧
    ∀ p, root = some p → w.isDirectory p = false →
      resolve w root compiler = .error (.notADirectory suiteRootVar p) := by
  refine ⟨fun c hc => ?_, ?_, ?_⟩
  · obtain ⟨hroot, hcompiler⟩ := resolve_eq_ok_iff.1 hc
    obtain ⟨p, rfl, hp, habsolutize⟩ := resolveRoot_eq_ok_iff.1 hroot
    obtain ⟨q, rfl, hq, habsolutize'⟩ := resolveCompiler_eq_ok_iff.1 hcompiler
    obtain ⟨loc, es, hfind⟩ := World.isDirectory_iff.1 hp
    obtain ⟨loc', content, executable, hfind'⟩ := World.isFile_iff.1 hq
    have hnames := World.find_absolutize hw hfind habsolutize
    have hnames' := World.find_absolutize hw hfind' habsolutize'
    refine ⟨(hnames none).1, (hnames' none).1, ⟨p, loc, es, rfl, hfind, fun cwd hlength => ?_⟩,
      ⟨q, loc', content, executable, rfl, hfind', fun cwd hlength => ?_⟩, ?_, fun cwd => ⟨?_, ?_⟩⟩
    · rw [(hnames cwd).2, if_pos hlength]
    · rw [(hnames' cwd).2, if_pos hlength]
    · intro environment henvironment
      rw [rootOfEnvironment, henvironment]
      exact hroot
    · rw [resolve_of_isAbsolute (hnames none).1 (hnames' none).1, World.isDirectory, World.isFile,
        (hnames cwd).2, (hnames' cwd).2]
      by_cases hlength : c.suiteRoot.bytes.length ≤ maxPath <;>
        by_cases hlength' : c.compilerBinary.bytes.length ≤ maxPath <;>
        simp [hlength, hlength', Entry.isDirectory, Entry.isFile]
    · exact Discovery.discover_of_isAbsolute (hnames none).1 cwd
  · rintro rfl
    rfl
  · rintro p rfl hp
    exact resolve_of_not_directory hp compiler

/-- The compiler `/s/c`, seen from `/s`. -/
def smallTree : World where
  files := ⟨[([115], .directory [([99], .file [] true)])]⟩
  cwd := some [[115]]
  environment := ⟨[]⟩

theorem smallTree_hasWritablePath : smallTree.HasWritablePath := by
  rintro dir hdir name hname
  cases hdir
  obtain rfl : name = [115] := by simpa using hname
  exact ⟨by decide, by decide, by decide⟩

/-- The root `.` and the compiler `../s/c`, resolved in `/s`, are the same in `/`. -/
theorem resolve_independent_of_working_directory_parent :
    ∃ c, resolve smallTree (some ⟨[46]⟩) (some ⟨[46, 46, 47, 115, 47, 99]⟩) = .ok c ∧
      c.suiteRoot = ⟨[47, 115, 47, 46]⟩ ∧
      { smallTree with cwd := some [] }.find true c.compilerBinary =
        .ok ([[115], [99]], .file [] true) ∧
      resolve { smallTree with cwd := some [] } (some c.suiteRoot) (some c.compilerBinary) =
        .ok c := by
  have hresolve : resolve smallTree (some ⟨[46]⟩) (some ⟨[46, 46, 47, 115, 47, 99]⟩) =
      .ok ⟨⟨[47, 115, 47, 46]⟩, ⟨[47, 115, 47, 46, 46, 47, 115, 47, 99]⟩⟩ := rfl
  obtain ⟨hconfiguration, -, -⟩ := resolve_independent_of_working_directory smallTree
    smallTree_hasWritablePath (some ⟨[46]⟩) (some ⟨[46, 46, 47, 115, 47, 99]⟩)
  obtain ⟨-, -, -, ⟨p, loc, content, executable, hp, hfind, hsame⟩, -, hagain⟩ :=
    hconfiguration _ hresolve
  cases hp
  have hfound : smallTree.find true ⟨[46, 46, 47, 115, 47, 99]⟩ =
    .ok ([[115], [99]], .file [] true) := rfl
  rw [hfound] at hfind
  cases hfind
  exact ⟨_, hresolve, rfl, hsame _ (by decide), (hagain (some [])).1.2 ⟨by decide, by decide⟩⟩

/-- The root `./././`, of 4094 bytes, is a directory in `/s`. Behind the path `/s` it has 4097
bytes, and the configuration that it resolves to is refused everywhere. -/
theorem resolve_refused_for_long_path :
    ∃ c, smallTree.isDirectory (.stays 2047) = true ∧
      resolve smallTree (some (.stays 2047)) (some ⟨[99]⟩) = .ok c ∧
      smallTree.isDirectory c.suiteRoot = false ∧
      resolve { smallTree with cwd := some [] } (some c.suiteRoot) (some c.compilerBinary) =
        .error (.notADirectory suiteRootVar c.suiteRoot) := by
  have hfind : smallTree.find true (.stays 2047) =
      .ok ([[115]], .directory [([99], .file [] true)]) :=
    World.find_stays rfl rfl (by decide) (by decide) (by decide)
  have hdirectory := World.isDirectory_iff.2 ⟨_, _, hfind⟩
  have habsolutize : smallTree.absolutize (.stays 2047) =
      .ok ((World.pathOf [[115]]).join (.stays 2047)) := by
    rw [World.absolutize, Path.isAbsolute_stays]
    rfl
  have hroot := resolveRoot_eq_ok_iff.2 ⟨_, rfl, hdirectory, habsolutize⟩
  have hcompiler : resolveCompiler smallTree (some ⟨[99]⟩) = .ok ⟨[47, 115, 47, 99]⟩ := rfl
  have hlong : ¬ ((World.pathOf [[115]]).join (.stays 2047)).bytes.length ≤ maxPath := by
    rw [World.bytes_pathOf_join (by decide) (Path.isAbsolute_stays _), List.length_append,
      List.length_cons, Path.length_stays]
    decide
  have hrefused (cwd : Option Location) :
      { smallTree with cwd }.isDirectory ((World.pathOf [[115]]).join (.stays 2047)) = false := by
    have hfound := World.find_absolutize smallTree_hasWritablePath hfind habsolutize cwd
    rw [World.isDirectory, hfound.2, if_neg hlong]
  exact ⟨⟨_, _⟩, hdirectory, resolve_eq_ok_iff.2 ⟨hroot, hcompiler⟩, hrefused _,
    resolve_of_not_directory (hrefused _) _⟩

end Configuration

end Conformance

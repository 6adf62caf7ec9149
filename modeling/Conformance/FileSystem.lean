import Conformance.Path
import Conformance.Number.Decimal

/-!
# File systems

A file system is a tree of named entries: files, directories, symbolic links and devices. A
`Location` is the list of names from the root down to an entry, with no links on the way, so that
two directories are the same exactly if their locations are.

A path is resolved segment by segment. Links are followed where they are met, up to `maxLinks` of
them; a link at the very end is followed or not as the caller wishes. A segment behind a file is
refused, and so is an empty one, which makes a path with a slash at its end name a directory.
-/

namespace Conformance

inductive FileError where
  | notFound
  | permissionDenied
  | alreadyExists
  | notExecutable
  | notDirectory
  | isDirectory
  | noSpace
  | nameTooLong
  | tooManyLinks
  | zeroByte
deriving DecidableEq, Repr

namespace FileError

/-- The number and the text of an error of the operating system. -/
def numbered? : FileError → Option (Nat × String)
  | .notFound => some (2, "No such file or directory")
  | .notExecutable => some (8, "Exec format error")
  | .permissionDenied => some (13, "Permission denied")
  | .alreadyExists => some (17, "File exists")
  | .notDirectory => some (20, "Not a directory")
  | .isDirectory => some (21, "Is a directory")
  | .noSpace => some (28, "No space left on device")
  | .nameTooLong => some (36, "File name too long")
  | .tooManyLinks => some (40, "Too many levels of symbolic links")
  | .zeroByte => none

def message (e : FileError) : String :=
  match e.numbered? with
  | some (number, text) => text ++ " (os error " ++ Decimal.natText number ++ ")"
  | none => "file name contained an unexpected NUL byte"

end FileError

inductive Entry where
  | file (content : Bytes) (executable : Bool)
  | directory (entries : List (Bytes × Entry))
  | link (target : Path)
  /-- Something that keeps nothing of what is written and has nothing to read. -/
  | device
deriving Inhabited

/-- The names on the way from the root to an entry. -/
abbrev Location := List Bytes

namespace Entry

def get? : Entry → Location → Option Entry
  | e, [] => some e
  | .directory es, name :: loc =>
    match es.lookup name with
    | some e => e.get? loc
    | none => none
  | _, _ :: _ => none

/-- A list of entries with the one of a name replaced, or a new one at the end. -/
def replace (name : Bytes) (new : Entry) : List (Bytes × Entry) → List (Bytes × Entry)
  | [] => [(name, new)]
  | (n, e) :: es => if n = name then (n, new) :: es else (n, e) :: replace name new es

/-- The entry with another one at a location. Nothing changes if there is no directory to hold it.
-/
def put (new : Entry) : Location → Entry → Entry
  | [], _ => new
  | [name], .directory es => .directory (replace name new es)
  | name :: loc, .directory es =>
    match es.lookup name with
    | some e => .directory (replace name (put new loc e) es)
    | none => .directory es
  | _ :: _, e => e

def erase : Location → Entry → Entry
  | [name], .directory es => .directory (es.filter (·.1 != name))
  | name :: loc, .directory es =>
    match es.lookup name with
    | some e => .directory (replace name (erase loc e) es)
    | none => .directory es
  | _, e => e

def isDirectory : Entry → Bool
  | .directory _ => true
  | _ => false

def isFile : Entry → Bool
  | .file _ _ => true
  | _ => false

end Entry

/-- A file system: the entries of its root directory. -/
structure FileSystem where
  entries : List (Bytes × Entry)
deriving Inhabited

/-- How many links are followed in one path. -/
def maxLinks : Nat := 40

def maxName : Nat := 255

def maxPath : Nat := 4095

namespace FileSystem

def root (fs : FileSystem) : Entry := .directory fs.entries

def get? (fs : FileSystem) (loc : Location) : Option Entry := fs.root.get? loc

def put (fs : FileSystem) (loc : Location) (new : Entry) : FileSystem :=
  match Entry.put new loc fs.root with
  | .directory entries => ⟨entries⟩
  | _ => fs

def erase (fs : FileSystem) (loc : Location) : FileSystem :=
  match Entry.erase loc fs.root with
  | .directory entries => ⟨entries⟩
  | _ => fs

/-- A segment that stays in its directory. -/
def isStay (segment : Bytes) : Bool := segment = [] || segment = [Path.dot]

/-- A segment that leads to the parent directory. -/
def isUp (segment : Bytes) : Bool := segment = [Path.dot, Path.dot]

/-- How far a path leads without following a link. -/
inductive Reach where
  | entry (loc : Location)
  /-- To a name that is free in an existing directory. -/
  | free (dir : Location) (name : Bytes)
  /-- To a link in a directory, with segments left. -/
  | link (dir : Location) (target : Path) (rest : List Bytes)
deriving DecidableEq, Repr

/-- Follows segments from a directory up to their end or the first link. A link at the end counts as
an entry unless `followLast`. -/
def reach (fs : FileSystem) (followLast : Bool) : Location → List Bytes → Except FileError Reach
  | loc, [] => .ok (.entry loc)
  | loc, segment :: rest =>
    match fs.get? loc with
    | some (.directory es) =>
      if isStay segment then reach fs followLast loc rest
      else if isUp segment then reach fs followLast loc.dropLast rest
      else if maxName < segment.length then .error .nameTooLong
      else match es.lookup segment with
        | none => if rest = [] then .ok (.free loc segment) else .error .notFound
        | some (.link target) =>
          if rest = [] && !followLast then .ok (.entry (loc ++ [segment]))
          else .ok (.link loc target rest)
        | some _ => reach fs followLast (loc ++ [segment]) rest
    | some _ => .error .notDirectory
    | none => .error .notFound

/-- What a path leads to: an entry, or a free name in an existing directory. -/
inductive Target where
  | entry (loc : Location)
  | free (dir : Location) (name : Bytes)
deriving DecidableEq, Repr

/-- Follows segments from a directory through at most a number of links. -/
def follow (fs : FileSystem) (followLast : Bool) :
    Nat → Location → List Bytes → Except FileError Target
  | links, dir, segments =>
    match fs.reach followLast dir segments with
    | .error e => .error e
    | .ok (.entry loc) => .ok (.entry loc)
    | .ok (.free dir name) => .ok (.free dir name)
    | .ok (.link dir target rest) =>
      match links with
      | 0 => .error .tooManyLinks
      | links + 1 =>
        if target.bytes = [] then .error .notFound
        else
          follow fs followLast links (if target.isAbsolute then [] else dir)
            (target.segments ++ rest)

def locate (fs : FileSystem) (followLast : Bool) (dir : Location) (segments : List Bytes) :
    Except FileError Location :=
  match fs.follow followLast maxLinks dir segments with
  | .ok (.entry loc) => .ok loc
  | .ok (.free _ _) => .error .notFound
  | .error e => .error e

end FileSystem

end Conformance

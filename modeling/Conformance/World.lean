import Conformance.Environment
import Conformance.FileSystem

/-!
# The world of a process

A process sees a file system from its working directory, and it has an environment. The working
directory may be removed while the process is in it: it is then an empty directory that only paths
such as `.` name, and it has no path itself.

A file that was opened need not take all that is written to it: a disk fills up, and some devices
refuse everything. A world says where such a `Limit` is.
-/

namespace Conformance

/-- What a file takes of a text that is written to it. -/
structure Limit where
  /-- How many bytes are taken. -/
  room : Nat
  /-- Why the others are not. -/
  error : FileError
  /-- How many bytes at the end of a long JSON text are handed over with the last flush only. This
  is up to the pieces in which the serializer writes. -/
  held : Nat
deriving DecidableEq, Repr

structure World where
  files : FileSystem
  /-- The working directory, none once it is removed. -/
  cwd : Option Location
  environment : Environment
  /-- The limit of what is written to at a location, if there is one. -/
  limit? : Location → Option Limit := fun _ => none
deriving Inhabited

namespace World

/-- The location of a working directory that was removed. No path leads through it. -/
def removed : Location := [[]]

/-- Why a path cannot be handed to the operating system. -/
def pathError? (p : Path) : Option FileError :=
  if p.bytes.contains 0 then some .zeroByte
  else if p.bytes = [] then some .notFound
  else if maxPath < p.bytes.length then some .nameTooLong
  else none

def start? (w : World) (p : Path) : Option Location := if p.isAbsolute then some [] else w.cwd

def target (w : World) (followLast : Bool) (p : Path) : Except FileError FileSystem.Target :=
  match pathError? p with
  | some e => .error e
  | none =>
    match w.start? p with
    | some dir => w.files.follow followLast maxLinks dir p.segments
    | none => if p.segments.all FileSystem.isStay then .ok (.entry removed) else .error .notFound

def get? (w : World) (loc : Location) : Option Entry :=
  if loc = removed then some (.directory []) else w.files.get? loc

def find (w : World) (followLast : Bool) (p : Path) : Except FileError (Location × Entry) :=
  match w.target followLast p with
  | .error e => .error e
  | .ok (.free _ _) => .error .notFound
  | .ok (.entry loc) =>
    match w.get? loc with
    | some e => .ok (loc, e)
    | none => .error .notFound

/-- The location of what a path names, links followed. -/
def locate (w : World) (p : Path) : Except FileError Location := (w.find true p).map (·.1)

def isDirectory (w : World) (p : Path) : Bool :=
  match w.find true p with
  | .ok (_, e) => e.isDirectory
  | .error _ => false

def isFile (w : World) (p : Path) : Bool :=
  match w.find true p with
  | .ok (_, e) => e.isFile
  | .error _ => false

def pathOf (loc : Location) : Path :=
  if loc = [] then ⟨[Path.slash]⟩ else ⟨loc.flatMap (Path.slash :: ·)⟩

def currentDirectory (w : World) : Except FileError Path :=
  match w.cwd with
  | some loc => .ok (pathOf loc)
  | none => .error .notFound

/-- A path made absolute: a relative path is put below the working directory, links untouched. -/
def absolutize (w : World) (p : Path) : Except FileError Path :=
  if p.isAbsolute then .ok p else w.currentDirectory.map (·.join p)

def contentOf (w : World) (p : Path) : Except FileError Bytes :=
  match w.find true p with
  | .error e => .error e
  | .ok (_, .file content _) => .ok content
  | .ok (_, .directory _) => .error .isDirectory
  | .ok (_, _) => .ok []

/-- The segments of a path in front of slashes at its end. -/
def trimmedSegments (p : Path) : List Bytes := (p.segments.reverse.dropWhile (· = [])).reverse

/-- Where a path puts a file that is opened for writing: at an entry that is no directory, or at a
free name. A slash at the end asks for a directory and is refused. -/
def openForWriting (w : World) (p : Path) : Except FileError Location :=
  if p.bytes.getLast? = some Path.slash then
    match w.start? p with
    | none => .error .notFound
    | some dir =>
      match w.files.locate true dir ((trimmedSegments p).dropLast ++ [[Path.dot]]) with
      | .ok _ => .error .isDirectory
      | .error e => .error e
  else match w.target true p with
    | .error e => .error e
    | .ok (.free dir name) => .ok (dir ++ [name])
    | .ok (.entry loc) =>
      match w.get? loc with
      | some (.directory _) => .error .isDirectory
      | some _ => .ok loc
      | none => .error .notFound

def accepted (w : World) (loc : Location) (content : Bytes) : Bytes :=
  match w.limit? loc with
  | some limit => content.take limit.room
  | none => content

/-- The world with new content in the file at a location. A device keeps nothing, and an existing
file stays executable if it was. -/
def setContent (w : World) (loc : Location) (content : Bytes) : World :=
  match w.files.get? loc with
  | some (.file _ executable) => { w with files := w.files.put loc (.file content executable) }
  | some _ => w
  | none => { w with files := w.files.put loc (.file content false) }

/-- Creates a file with a content, in place of what it held. -/
def createFile (w : World) (p : Path) (content : Bytes) : Except FileError World :=
  (w.openForWriting p).map fun loc => w.setContent loc content

/-- Creates directories along segments where there are none. -/
def makeAlong (w : World) : Location → List Bytes → Except FileError (World × Location)
  | dir, [] => .ok (w, dir)
  | dir, segment :: rest =>
    match w.files.follow true maxLinks dir [segment] with
    | .error e => .error e
    | .ok (.free parent name) =>
      makeAlong { w with files := w.files.put (parent ++ [name]) (.directory []) }
        (parent ++ [name]) rest
    | .ok (.entry loc) =>
      match w.files.get? loc with
      | some (.directory _) => makeAlong w loc rest
      | _ => .error .notDirectory

def makeDirectories (w : World) (p : Path) : Except FileError World :=
  match w.start? p with
  | none => .error .notFound
  | some dir => (w.makeAlong dir p.segments).map (·.1)

def makeLink (w : World) (p target : Path) : Except FileError World :=
  match w.target false p with
  | .error e => .error e
  | .ok (.free dir name) => .ok { w with files := w.files.put (dir ++ [name]) (.link target) }
  | .ok (.entry _) => .error .alreadyExists

def setExecutable (w : World) (p : Path) (executable : Bool) : World :=
  match w.find true p with
  | .ok (loc, .file content _) => { w with files := w.files.put loc (.file content executable) }
  | _ => w

/-- Removes what a path names, with everything below it. Links are not followed. A working directory
that goes with it is gone for good. -/
def remove (w : World) (p : Path) : Except FileError World :=
  match w.find false p with
  | .error e => .error e
  | .ok (loc, _) =>
    .ok { w with
      files := w.files.erase loc
      cwd := w.cwd.filter fun cwd => !loc.isPrefixOf cwd }

def changeDirectory (w : World) (p : Path) : Except FileError World :=
  match w.find true p with
  | .error e => .error e
  | .ok (loc, .directory _) => .ok { w with cwd := some loc }
  | .ok (_, _) => .error .notDirectory

end World

end Conformance

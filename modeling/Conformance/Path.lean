import Conformance.Text.Utf8
import Conformance.Text.Split

/-!
# Paths

A path is a byte string read in components separated by slashes. Repeated slashes and the segment
`.` say nothing, except that a leading `.` is kept as a component of its own. The last component
names the file, and the extension is what follows the last dot of that name, if anything stands
before that dot.

`join` puts a relative path below another, and `relativeTo?` takes a path apart again.
-/

namespace Conformance

structure Path where
  bytes : Bytes
deriving DecidableEq, Repr, Inhabited

namespace Path

def slash : UInt8 := 0x2F

def dot : UInt8 := 0x2E

def ofText (s : String) : Path := ⟨Utf8.encode s⟩

def text? (p : Path) : Option String := Utf8.decode? p.bytes

/-- The path as it is shown: broken pieces appear as U+FFFD. -/
def display (p : Path) : String := Utf8.decodeLossy p.bytes

inductive Component where
  | root
  /-- A leading `.`. -/
  | here
  | parent
  | name (bs : Bytes)
deriving DecidableEq, Repr

/-- What a segment between slashes stands for; nothing, if it is empty or `.`. -/
def component? (segment : Bytes) : Option Component :=
  if segment = [] ∨ segment = [dot] then none
  else if segment = [dot, dot] then some .parent
  else some (.name segment)

def isAbsolute (p : Path) : Bool := p.bytes.head? = some slash

/-- The segments of a path between slashes, empty ones included. -/
def segments (p : Path) : List Bytes := Split.splitAt slash p.bytes

def components (p : Path) : List Component :=
  let body := p.segments.filterMap component?
  if p.isAbsolute then .root :: body
  else if p.segments.head? = some [dot] then .here :: body
  else body

/-- The name of the file a path ends in. A path ending in `..` or in the root names none. -/
def fileName? (p : Path) : Option Bytes :=
  match p.components.getLast? with
  | some (.name bs) => some bs
  | _ => none

/-- The part of a file name behind its last dot, when something stands before that dot. -/
def nameExtension? (name : Bytes) : Option Bytes :=
  let behind := name.reverse.takeWhile (· != dot)
  let before := name.reverse.dropWhile (· != dot)
  match before with
  | _ :: _ :: _ => some behind.reverse
  | _ => none

def extension? (p : Path) : Option Bytes := p.fileName?.bind nameExtension?

/-- The path up to its last slash: the directory that holds its last segment. -/
def directoryPart (p : Path) : Path := ⟨(p.bytes.reverse.dropWhile (· != slash)).reverse⟩

/-- The path `q` seen from `p`: `q` itself if it is absolute, else `q` below `p`. -/
def join (p q : Path) : Path :=
  if q.isAbsolute then q
  else if p.bytes = [] ∨ p.bytes.getLast? = some slash then ⟨p.bytes ++ q.bytes⟩
  else ⟨p.bytes ++ slash :: q.bytes⟩

def dropFirst? {α : Type} [DecidableEq α] : List α → List α → Option (List α)
  | [], ys => some ys
  | _ :: _, [] => none
  | x :: xs, y :: ys => if x = y then dropFirst? xs ys else none

/-- The components of `p` below `base`, if `p` starts with the components of `base`. -/
def relativeTo? (p base : Path) : Option (List Component) :=
  dropFirst? base.components p.components

end Path

end Conformance

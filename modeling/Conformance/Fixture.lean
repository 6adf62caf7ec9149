import Conformance.Path

/-!
# Fixtures

A fixture is one source file handed to the compiler under test. It is known by its identifier, the
path below the suite root with `/` between the names. A `.skip` segment in the file name disables
it: leading dots belong to the stem of the name, and the match is case-sensitive.
-/

namespace Conformance

/-- The segment of a file name that disables a fixture. -/
def skipMarker : String := "skip"

def skipReason : String := "annotated with skip marker"

def fixtureExtension : String := "flang"

/-- Whether a file name carries the skip marker in a segment behind its stem. -/
def hasSkipMarker (fileName : String) : Bool :=
  let stem := fileName.toList.dropWhile (· == '.')
  ((Split.splitAt '.' stem).drop 1).any (· == skipMarker.toList)

/-- A test input: the path handed to the compiler and the identifier shown for it. -/
structure Fixture where
  path : Path
  id : String
deriving DecidableEq, Repr, Inhabited

namespace Fixture

/-- How a component is written in an identifier. The root and a leading `.` are left out. -/
def idPart? : Path.Component → Option String
  | .name bs => some (Utf8.decodeLossy bs)
  | .parent => some ".."
  | .root => none
  | .here => none

/-- The identifier of `path` under `root`. A path outside `root` keeps all its components. -/
def identify (path root : Path) : String :=
  "/".intercalate (((path.relativeTo? root).getD path.components).filterMap idPart?)

def ofPath (path root : Path) : Fixture := ⟨path, identify path root⟩

/-- The name of the fixture's file, empty if its path names none. -/
def fileName (f : Fixture) : String :=
  (f.path.fileName?.map Utf8.decodeLossy).getD ""

def isSkipped (f : Fixture) : Bool := hasSkipMarker f.fileName

/-- A fixture is selected by a list of patterns when its identifier contains one of them; no
patterns select everything. -/
def isSelected (patterns : List String) (f : Fixture) : Bool :=
  patterns.isEmpty || patterns.any fun p => Split.occursIn p.toList f.id.toList

def select (patterns : List String) (fixtures : List Fixture) : List Fixture :=
  fixtures.filter (isSelected patterns)

end Fixture

end Conformance

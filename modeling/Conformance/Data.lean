import Conformance.Path

/-!
# Report data

`Data` is the shape of everything a report holds: records with named fields in a fixed order, lists
and plain values. Report formats are printers of `Data`.

A path can be printed only if its bytes spell text, so a printer yields *chunks*: pieces of output
with `none` where a path has no text. A value has a complete rendering exactly when no chunk is
`none` (`complete?`); a printer that writes as it goes leaves what stands before (`started`).
-/

namespace Conformance

inductive Data where
  | null
  | bool (b : Bool)
  | int (n : Int)
  | text (s : String)
  | path (p : Path)
  | list (items : List Data)
  | record (fields : List (String × Data))

/-- Pieces of output, `none` where something cannot be written. -/
abbrev Chunks := List (Option String)

namespace Chunks

/-- The whole output, if every piece can be written. -/
def complete? (cs : Chunks) : Option String := (cs.mapM id).map String.join

/-- The output in front of the first piece that cannot be written. -/
def started : Chunks → String
  | some s :: cs => s ++ started cs
  | _ => ""

end Chunks

namespace Data

def ofOption {α : Type} (f : α → Data) : Option α → Data
  | some a => f a
  | none => .null

def word (n : UInt64) : Data := .int n.toNat

end Data

end Conformance

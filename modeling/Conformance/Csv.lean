import Conformance.Outcome

/-!
# Comma-separated reports

Records end in a line feed and their fields are separated by commas. A field that holds a comma, a
quote or a line break stands between quotes, with the quotes in it doubled; any other field stands
as it is. A report has one record of six fields for each outcome, below a header if one is wanted.
-/

namespace Conformance.Csv

/-- A character that a bare field cannot hold. -/
def isSpecial (c : Char) : Bool := c == ',' || c == '"' || c == '\r' || c == '\n'

def quoteField (cs : List Char) : List Char :=
  '"' :: cs.flatMap (fun c => if c = '"' then ['"', '"'] else [c]) ++ ['"']

def field (cs : List Char) : List Char := if cs.any isSpecial then quoteField cs else cs

def fields : List (List Char) → List Char
  | [] => []
  | [f] => field f
  | f :: fs => field f ++ ',' :: fields fs

def record (fs : List String) : List Char := fields (fs.map String.toList) ++ ['\n']

def columns : List String :=
  ["fixture", "status", "duration_ms", "exit_code", "message", "captured_output"]

/-- The record of an outcome. What is absent is empty. -/
def row (o : Outcome) : List String :=
  [o.fixture.id, o.status.label, Decimal.natText o.durationMs.toNat,
    (o.exitCode.map fun c => Decimal.intText c.toInt).getD "",
    o.message.getD "", o.capturedOutput.getD ""]

def rows (header : Bool) (outcomes : List Outcome) : List (List String) :=
  (if header then [columns] else []) ++ outcomes.map row

def text (header : Bool) (outcomes : List Outcome) : String :=
  String.ofList ((rows header outcomes).flatMap record)

end Conformance.Csv

import Conformance.Output.Table
import Conformance.Csv
import Conformance.Report
import Conformance.Json.Printer

/-!
# Output formats

A run is printed as a table, as JSON in two layouts, as comma-separated records, or on one line.
Only the table knows colour. JSON needs paths that have text; a run with another path prints as
nothing.
-/

namespace Conformance

inductive OutputFormat where
  | table
  | json
  | jsonPretty
  | csv
  | summary
deriving DecidableEq, Repr

namespace OutputFormat

def names : List (String × OutputFormat) :=
  [("table", .table), ("json", .json), ("json-pretty", .jsonPretty), ("jsonpretty", .jsonPretty),
    ("csv", .csv), ("summary", .summary)]

/-- The format with a name, in either case of its letters. Other letters than those of ASCII have
none of these names in another case. -/
def ofName? (s : String) : Option OutputFormat := names.lookup (s.map Char.toLower)

end OutputFormat

namespace Output

def brief (s : Summary) : Except Fault String :=
  s.passRateText.map fun rate =>
    Decimal.natText s.passed.toNat ++ "/" ++ Decimal.natText s.total.toNat ++ " passed, " ++
      Decimal.natText s.failed.toNat ++ " failed, " ++ Decimal.natText s.skipped.toNat ++
      " skipped (" ++ rate ++ "%) in " ++ Decimal.natText s.totalDurationMs.toNat ++ "ms"

def render (format : OutputFormat) (colour : Bool) (s : Summary) : Except Fault String :=
  match format with
  | .table => table colour s
  | .json => .ok ((Json.compactText? s.data).getD "")
  | .jsonPretty => .ok ((Json.prettyText? s.data).getD "")
  | .csv => .ok (Csv.text true s.outcomes)
  | .summary => brief s

/-- One fixture in a list of fixtures; in detail, with its marker and its path. -/
def fixtureLine (detailed : Bool) (f : Fixture) : String :=
  if detailed then
    "  [" ++ padRight 4 (if f.isSkipped then "skip" else "run") ++ "] " ++ padRight 48 f.id ++
      " " ++ f.path.display ++ "\n"
  else "  " ++ f.id ++ "\n"

def fixtureList (detailed : Bool) (fixtures : List Fixture) : String :=
  String.join (fixtures.map (fixtureLine detailed)) ++ "\n" ++
    Decimal.natText fixtures.length ++ " fixtures\n"

end Output

end Conformance

import Conformance.Summary

/-!
# The table of a run

A row for each outcome between two rules, then the counts and the pass rate, then the report of each
failure below a rule of its own. With colour, the label of each row and a count of failures above
zero are set between a colour sequence and a reset.
-/

namespace Conformance.Output

def padRight (width : Nat) (s : String) : String :=
  String.ofList (s.toList ++ List.replicate (width - s.length) ' ')

def padLeft (width : Nat) (s : String) : String :=
  String.ofList (List.replicate (width - s.length) ' ' ++ s.toList)

inductive Colour where
  | red
  | green
  | yellow
deriving DecidableEq, Repr

def Colour.sequence : Colour → String
  | .red => "\x1b[31m"
  | .green => "\x1b[32m"
  | .yellow => "\x1b[33m"

def reset : String := "\x1b[0m"

/-- A text in a colour, if there is to be colour. -/
def coloured (colour : Bool) (c : Colour) (s : String) : String :=
  if colour then c.sequence ++ s ++ reset else s

def statusColour : Status → Colour
  | .passed => .green
  | .skipped => .yellow
  | .failed => .red

def statusLabel (colour : Bool) (s : Status) : String :=
  coloured colour (statusColour s) (s.symbol ++ " " ++ s.label)

def tableRow (colour : Bool) (o : Outcome) : String :=
  " " ++ statusLabel colour o.status ++ " " ++ padRight 48 o.fixture.id ++ " [" ++
    padLeft 6 (Decimal.natText o.durationMs.toNat) ++ "ms]\n"

def titleRule : String := String.ofList (List.replicate 66 '═') ++ "\n"

/-- The rule above the totals and above each failure report. -/
def sectionRule : String := String.ofList (List.replicate 66 '─') ++ "\n"

def endLine (s : String) : String :=
  if s.toList.getLast? = some '\n' then s else s ++ "\n"

/-- The report of an outcome below a rule; nothing for one that did not fail. -/
def failureBlock (o : Outcome) : String :=
  match o.failureReport? with
  | some report => "\n" ++ sectionRule ++ endLine report
  | none => ""

/-- The title and the rows. -/
def tableHead (colour : Bool) (s : Summary) : String :=
  "\n" ++ titleRule ++ " Conformance Results\n" ++ titleRule ++
    String.join (s.outcomes.map (tableRow colour))

/-- The counts and the pass rate. -/
def tableTotals (colour : Bool) (s : Summary) (rate : String) : String :=
  let failed := coloured (colour && s.failed != 0) .red (Decimal.natText s.failed.toNat)
  sectionRule ++ " " ++ s.countsLine failed ++ "\n " ++ s.rateLine rate ++ "\n"

def tableFailures (s : Summary) : String := String.join (s.failures.map failureBlock)

def table (colour : Bool) (s : Summary) : Except Fault String :=
  s.passRateText.map fun rate =>
    tableHead colour s ++ tableTotals colour s rate ++ tableFailures s

end Conformance.Output

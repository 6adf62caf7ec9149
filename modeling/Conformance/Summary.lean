import Conformance.Fault
import Conformance.Outcome
import Conformance.Number.Binary64

/-!
# Summaries

A summary counts the outcomes of a run by status and adds up their durations. The counts of a
summary read from a file need not agree with its outcomes. Two sums are taken in machine words and
may fault: the total duration when a summary is made, and the number of executed fixtures when the
pass rate is asked for.
-/

namespace Conformance

structure Summary where
  total : UInt64
  passed : UInt64
  skipped : UInt64
  failed : UInt64
  totalDurationMs : UInt64
  outcomes : List Outcome
deriving DecidableEq, Repr

namespace Summary

def countOf (status : Status) (outcomes : List Outcome) : Nat :=
  outcomes.countP (·.status = status)

/-- The summary of a list of outcomes, unless their durations do not fit a machine word. -/
def ofOutcomes (outcomes : List Outcome) : Except Fault Summary :=
  (sumWords 0 (outcomes.map (·.durationMs))).map fun duration =>
    { total := .ofNat outcomes.length
      passed := .ofNat (countOf .passed outcomes)
      skipped := .ofNat (countOf .skipped outcomes)
      failed := .ofNat (countOf .failed outcomes)
      totalDurationMs := duration
      outcomes }

/-- The percentage of executed fixtures that passed, zero if none was executed. -/
def passRate (s : Summary) : Except Fault Binary64 :=
  (addWords s.passed s.failed).map fun executed =>
    if executed = 0 then .zero
    else ((Binary64.ofNat s.passed.toNat).div (.ofNat executed.toNat)).mul (.ofNat 100)

def passRateText (s : Summary) : Except Fault String :=
  s.passRate.map (Binary64.fixedText 1)

def isSuccess (s : Summary) : Bool := s.failed = 0

def exitCode (s : Summary) : Nat := if s.isSuccess then 0 else 1

def failures (s : Summary) : List Outcome := s.outcomes.filter (·.status = .failed)

/-- The counts on one line. The failures are given as text so that they can be coloured. -/
def countsLine (s : Summary) (failed : String) : String :=
  "Total: " ++ Decimal.natText s.total.toNat ++ " | Pass: " ++ Decimal.natText s.passed.toNat ++
    " | Fail: " ++ failed ++ " | Skip: " ++ Decimal.natText s.skipped.toNat

def rateLine (s : Summary) (rate : String) : String :=
  "Pass Rate: " ++ rate ++ "% | Duration: " ++ Decimal.natText s.totalDurationMs.toNat ++ "ms"

def rule : String := String.ofList (List.replicate 40 '━')

/-- The summary as a listing: a line for each outcome between two rules, then the counts. -/
def listing (s : Summary) : Except Fault String :=
  s.passRateText.map fun rate =>
    rule ++ "\n" ++ String.join (s.outcomes.map fun o => "  " ++ o.line ++ "\n") ++ rule ++ "\n" ++
      s.countsLine (Decimal.natText s.failed.toNat) ++ "\n" ++ s.rateLine rate ++ "\n"

end Summary

end Conformance

import Conformance.Number.Decimal

/-!
# Timing a run

A stopwatch starts with a run and is marked at the end of each phase. A mark holds the time from the
start in nanoseconds; the time spent in a phase is the difference between its mark and the one
before.
-/

namespace Conformance

inductive Phase where
  | discovery
  | execution
  | export
deriving DecidableEq, Repr

def Phase.name : Phase → String
  | .discovery => "discovery"
  | .execution => "execution"
  | .export => "export"

/-- The phases marked so far, with the time from the start to each mark. -/
structure Stopwatch where
  marks : List (Phase × Nat)
deriving DecidableEq, Repr

namespace Stopwatch

def start : Stopwatch := ⟨[]⟩

def lap (w : Stopwatch) (phase : Phase) (now : Nat) : Stopwatch := ⟨w.marks ++ [(phase, now)]⟩

/-- The times spent between marks, counted from a time. -/
def spentFrom (previous : Nat) : List (Phase × Nat) → List (Phase × Nat)
  | [] => []
  | (phase, mark) :: marks => (phase, mark - previous) :: spentFrom mark marks

/-- The time spent in each phase, in the order of the marks. -/
def phases (w : Stopwatch) : List (Phase × Nat) := spentFrom 0 w.marks

def millis (nanos : Nat) : Nat := nanos / 1000000

/-- The phases and the total at a time, in whole milliseconds. -/
def format (w : Stopwatch) (now : Nat) : String :=
  let phase := fun (p : Phase × Nat) => p.1.name ++ ": " ++ Decimal.natText (millis p.2) ++ "ms"
  ", ".intercalate (w.phases.map phase) ++ " (total " ++ Decimal.natText (millis now) ++ "ms)"

end Stopwatch

end Conformance

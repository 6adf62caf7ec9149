import Conformance.Fixture
import Conformance.Number.Decimal

/-!
# Outcomes

Running one fixture ends in an outcome: it passed, was skipped, or failed. A failure is of one of
three kinds, and only a compiler that ran and exited has its output attached.
-/

namespace Conformance

inductive Status where
  | passed
  | skipped
  | failed
deriving DecidableEq, Repr

namespace Status

def symbol : Status → String
  | .passed => "✓"
  | .skipped => "○"
  | .failed => "✗"

def label : Status → String
  | .passed => "PASS"
  | .skipped => "SKIP"
  | .failed => "FAIL"

/-- Every status but failure is a success. -/
def isSuccess (s : Status) : Bool := s != .failed

end Status

inductive FailureKind where
  /-- The compiler ran and did not exit with zero. -/
  | nonZeroExit
  | spawn
  /-- The compiler started and its output or exit was lost. -/
  | capture
deriving DecidableEq, Repr

/-- The result of running one fixture. A report read from a file may hold combinations of fields
that no run produces. -/
structure Outcome where
  fixture : Fixture
  status : Status
  durationMs : UInt64
  exitCode : Option Int32
  message : Option String
  capturedOutput : Option String
  failure : Option FailureKind
deriving DecidableEq, Repr

namespace Outcome

def passed (f : Fixture) (ms : UInt64) : Outcome :=
  ⟨f, .passed, ms, some 0, none, none, none⟩

def skipped (f : Fixture) (reason : String) : Outcome :=
  ⟨f, .skipped, 0, none, some reason, none, none⟩

/-- The compiler ran and exited otherwise than with zero, or was killed. -/
def failed (f : Fixture) (ms : UInt64) (exitCode : Option Int32) (output : String) : Outcome :=
  ⟨f, .failed, ms, exitCode, some ("[Execution Error] " ++ f.id), some output, some .nonZeroExit⟩

def spawnError (f : Fixture) (error : String) : Outcome :=
  ⟨f, .failed, 0, none, some ("[Spawn Error] " ++ f.id ++ ": " ++ error), none, some .spawn⟩

def captureError (f : Fixture) (ms : UInt64) (error : String) : Outcome :=
  ⟨f, .failed, ms, none, some ("[Capture Error] " ++ f.id ++ ": " ++ error), none, some .capture⟩

def outputHeading : String := "\n\n----- CAPTURED OUTPUT -----\n"

/-- The report of a failure: the message, and below it the output if there is any. -/
def failureReport? (o : Outcome) : Option String :=
  if o.status = .failed then
    let message := o.message.getD ""
    some (match o.capturedOutput with
      | some output => message ++ outputHeading ++ output
      | none => message)
  else none

/-- What follows the duration on an outcome's line. -/
def remark (o : Outcome) : String :=
  match o.status with
  | .passed => ""
  | .skipped => match o.message with
    | some message => " - " ++ message
    | none => ""
  | .failed => match o.exitCode with
    | some code => " - exit code " ++ Decimal.intText code.toInt
    | none => match o.failure with
      | some .spawn => " - could not spawn compiler"
      | some .capture => " - lost track of compiler"
      | _ => " - terminated by signal"

def line (o : Outcome) : String :=
  o.status.symbol ++ " " ++ o.fixture.id ++ " [" ++ Decimal.natText o.durationMs.toNat ++ "ms]" ++
    o.remark

end Outcome

end Conformance

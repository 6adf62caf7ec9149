import Conformance.Outcome

/-!
# Coherent outcomes

The fields of an outcome are not independent: a failure has a kind and a report,
only a compiler that ran has its output attached, only an accepted fixture has
the exit code zero. `Outcome.Coherent` collects what readers of an outcome rely
on. An outcome read from a file need not be coherent; the ones that are made by
the constructors are, with one exception: a failure must not be made with the
exit code zero.
-/

namespace Conformance

/-- What a failure report starts with. -/
def FailureKind.heading : FailureKind → String
  | .nonZeroExit => "[Execution Error]"
  | .spawn => "[Spawn Error]"
  | .capture => "[Capture Error]"

namespace Outcome

/-- The fields of an outcome agree with each other. -/
structure Coherent (o : Outcome) : Prop where
  failure_iff : o.failure.isSome = true ↔ o.status = .failed
  report_iff : o.failureReport?.isSome = true ↔ o.status = .failed
  output_iff : o.capturedOutput.isSome = true ↔ o.failure = some .nonZeroExit
  exitCode_iff : o.exitCode = some 0 ↔ o.status = .passed
  message_iff : o.message = none ↔ o.status = .passed
  report_starts : ∀ kind report, o.failure = some kind → o.failureReport? = some report →
    ∃ rest, report = kind.heading ++ " " ++ o.fixture.id ++ rest

theorem coherent_passed (f : Fixture) (ms : UInt64) : (passed f ms).Coherent := by
  constructor <;> simp [passed, failureReport?]

theorem coherent_skipped (f : Fixture) (reason : String) : (skipped f reason).Coherent := by
  constructor <;> simp [skipped, failureReport?]

/-- A failure is coherent if its message names its kind and its fixture, its exit code is not
zero, and it has output exactly if the compiler ran. -/
theorem coherent_of_failure {o : Outcome} {kind : FailureKind} (rest : String)
    (hstatus : o.status = .failed) (hkind : o.failure = some kind)
    (hmessage : o.message = some (kind.heading ++ " " ++ o.fixture.id ++ rest))
    (hcode : o.exitCode ≠ some 0)
    (houtput : o.capturedOutput.isSome = true ↔ kind = .nonZeroExit) : o.Coherent where
  failure_iff := by simp [hkind, hstatus]
  report_iff := by simp [failureReport?, hstatus]
  output_iff := by simp [houtput, hkind]
  exitCode_iff := by simp [hcode, hstatus]
  message_iff := by simp [hmessage, hstatus]
  report_starts := by
    intro kind' report hkind' hreport
    have hsame : kind = kind' := by simpa [hkind] using hkind'
    subst hsame
    simp only [failureReport?, hstatus, if_true, hmessage, Option.getD_some] at hreport
    cases ho : o.capturedOutput with
    | none =>
        simp only [ho, Option.some.injEq] at hreport
        exact ⟨rest, hreport.symm⟩
    | some output =>
        simp only [ho, Option.some.injEq] at hreport
        exact ⟨rest ++ outputHeading ++ output, by simp only [← hreport, String.append_assoc]⟩

theorem coherent_failed (f : Fixture) (ms : UInt64) {code : Option Int32} (output : String)
    (hcode : code ≠ some 0) : (failed f ms code output).Coherent :=
  coherent_of_failure "" rfl rfl (by simp [failed, FailureKind.heading]) hcode
    (by simp [failed])

theorem coherent_spawnError (f : Fixture) (error : String) : (spawnError f error).Coherent :=
  coherent_of_failure (": " ++ error) rfl rfl
    (by simp [spawnError, FailureKind.heading, String.append_assoc]) (by simp [spawnError])
    (by simp [spawnError])

theorem coherent_captureError (f : Fixture) (ms : UInt64) (error : String) :
    (captureError f ms error).Coherent :=
  coherent_of_failure (": " ++ error) rfl rfl
    (by simp [captureError, FailureKind.heading, String.append_assoc]) (by simp [captureError])
    (by simp [captureError])

/-- What an outcome says apart from how long it took. -/
def untimed (o : Outcome) : Outcome := { o with durationMs := 0 }

end Outcome

end Conformance

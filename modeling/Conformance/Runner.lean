import Conformance.Log
import Conformance.Summary

/-!
# Running fixtures one after another

A compiler is anything that answers when it is handed a path, and its answers may depend on what it
was handed before. `runFixture` turns one answer into an outcome, and `runAll` does so for a list of
fixtures in order. No answer stops the run, except a fault of the compiler stand-in itself.
-/

namespace Conformance

/-- What came of handing a path to the compiler. -/
inductive Reply where
  /-- It ran: its exit code, none if a signal killed it, and what it wrote. -/
  | exited (code : Option Int32) (output : String)
  | notStarted (error : String)
  /-- It started, and its output or exit was lost. -/
  | lost (error : String)
  /-- The stand-in for the compiler gave up. -/
  | fault (payload : Payload)
deriving DecidableEq, Repr

/-- A reply, the time it took, and what was told meanwhile. -/
structure Response where
  reply : Reply
  elapsedMs : UInt64
  log : List Log.Event
deriving DecidableEq, Repr

/-- A reply that took no time. -/
def Response.ofReply (reply : Reply) : Response := ⟨reply, 0, []⟩

/-- A compiler with a state of its own. -/
abbrev Compiler (σ : Type) := σ → Path → Response × σ

/-- An invocation of the compiler: the path it was handed and what came of it. -/
structure Call where
  path : Path
  response : Response
deriving DecidableEq, Repr

namespace Compiler

def ofFunction (respond : Path → Response) : Compiler Unit := fun _ p => (respond p, ())

/-- A compiler that keeps the list of the paths it was handed. -/
def recording (respond : Path → Response) : Compiler (List Path) :=
  fun seen p => (respond p, seen ++ [p])

/-- A compiler that keeps the list of its invocations beside its own state. -/
def traced {σ : Type} (compiler : Compiler σ) : Compiler (σ × List Call) :=
  fun (s, calls) p =>
    let (response, s) := compiler s p
    (response, s, calls ++ [⟨p, response⟩])

end Compiler

namespace Runner

def finishedEvent (f : Fixture) (ms : UInt64) : Log.Event :=
  Log.debug .timer (f.id ++ " finished in " ++ Decimal.natText ms.toNat ++ "ms")

/-- The outcome of a response and what is told about it; a fault has neither. -/
def classify (f : Fixture) (r : Response) : Except Fault (Outcome × List Log.Event) :=
  let finished := finishedEvent f r.elapsedMs
  match r.reply with
  | .exited code output =>
    .ok (if code = some 0 then .passed f r.elapsedMs else .failed f r.elapsedMs code output,
      r.log ++ [finished])
  | .notStarted error =>
    .ok (.spawnError f error,
      r.log ++ [finished,
        Log.error .runner ("Could not start compiler for " ++ f.id ++ ": " ++ error)])
  | .lost error =>
    .ok (.captureError f r.elapsedMs error,
      r.log ++ [finished,
        Log.error .runner ("Lost compiler output for " ++ f.id ++ ": " ++ error)])
  | .fault payload => .error (.compiler payload)

variable {σ : Type}

/-- Runs one fixture. A disabled fixture is not handed to the compiler. -/
def runFixture (compiler : Compiler σ) (s : σ) (f : Fixture) :
    Except Fault (Outcome × List Log.Event) × σ :=
  if f.isSkipped then (.ok (.skipped f skipReason, []), s)
  else
    let (response, s) := compiler s f.path
    (classify f response, s)

def runEach (compiler : Compiler σ) (s : σ) :
    List Fixture → Except Fault (List Outcome × List Log.Event) × σ
  | [] => (.ok ([], []), s)
  | f :: fs =>
    match runFixture compiler s f with
    | (.error e, s) => (.error e, s)
    | (.ok (o, log), s) =>
      match runEach compiler s fs with
      | (.error e, s) => (.error e, s)
      | (.ok (os, rest), s) => (.ok (o :: os, log ++ Log.debug .runner ("  " ++ o.line) :: rest), s)

def countsText (s : Summary) : String :=
  "Pass: " ++ Decimal.natText s.passed.toNat ++ " | Fail: " ++ Decimal.natText s.failed.toNat ++
    " | Skip: " ++ Decimal.natText s.skipped.toNat

def runAll (compiler : Compiler σ) (s : σ) (wallMs : Nat) (fixtures : List Fixture) :
    Except Fault (Summary × List Log.Event) × σ :=
  match runEach compiler s fixtures with
  | (.error e, s) => (.error e, s)
  | (.ok (outcomes, log), s) =>
    ((Summary.ofOutcomes outcomes).map fun summary =>
      (summary,
        Log.info .runner ("Running " ++ Decimal.natText fixtures.length ++ " fixtures") :: log ++
          [Log.info .runner ("Run completed in " ++ Decimal.natText wallMs ++ "ms - " ++
            countsText summary)]), s)

end Runner

end Conformance

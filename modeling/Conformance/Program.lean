import Conformance.CommandLine
import Conformance.Configuration
import Conformance.Discovery
import Conformance.Output.Format
import Conformance.Parallel
import Conformance.Store
import Conformance.Stopwatch
import Conformance.Trial

/-!
# The program

A command is carried out in a world and leaves a transcript: an exit code, what was printed, what
was noted beside it, the compiler invocations that were made, and the world with the report file if
one was written. The `run` command checks its configuration and its format, discovers and selects
fixtures, and only then starts the compiler; the first obstacle ends it with a complaint and exit
code 1. Time comes from outside, as readings of a clock.
-/

namespace Conformance

/-- Something noted beside the output: an event of the log, or a line for the user. -/
inductive Notice where
  | event (e : Log.Event)
  | line (s : String)
deriving DecidableEq, Repr

def Notice.text (f : Log.Filter) : Notice → String
  | .event e => if f.shows e then e.line ++ "\n" else ""
  | .line s => s ++ "\n"

structure Transcript where
  exitCode : Nat
  stdout : String
  notices : List Notice
  calls : List Call
  world : World

/-- What was noted, as far as a filter lets it through. -/
def Transcript.stderr (t : Transcript) (filter : Log.Filter) : String :=
  String.join (t.notices.map (Notice.text filter))

/-- Readings of the clock during a run; durations count from its start in nanoseconds. -/
structure Clock where
  startedAt : Instant := ⟨0, 0⟩
  completedAt : Instant := ⟨0, 0⟩
  /-- What the run over the fixtures took, in milliseconds. -/
  wallMs : Nat := 0
  discovered : Nat := 0
  executed : Nat := 0
  exported : Nat := 0
  finished : Nat := 0

namespace Program

def faultCode : Nat := 101

def complaint (message : String) : Notice := .line ("❌ " ++ message)

def failure (w : World) (stdout : String) (log : List Notice) (calls : List Call)
    (message : String) : Transcript :=
  ⟨1, stdout, log ++ [complaint message], calls, w⟩

def crash (w : World) (log : List Notice) (calls : List Call) (fault : Fault) : Transcript :=
  ⟨faultCode, "", log ++ [.line fault.message], calls, w⟩

def events (log : List Log.Event) : List Notice := log.map .event

def configurationComplaint (e : ConfigurationError) : String :=
  "Invalid runner configuration: " ++ e.message

/-- What a run starts with once nothing stands in its way. -/
structure Plan where
  configuration : Configuration
  format : OutputFormat
  fixtures : List Fixture

def filterComplaint (filter : List String) : String :=
  "No fixtures match filters " ++ Quoted.list filter

/-- The plan of a run, or the complaint if there is none, and what was told meanwhile. -/
def plan (w : World) (a : RunArguments) : Except String Plan × List Log.Event :=
  match Configuration.ofEnvironment w with
  | .error e => (.error (configurationComplaint e), [])
  | .ok c =>
    match OutputFormat.ofName? a.format with
    | none => (.error ("Unknown output format: " ++ a.format), [c.event])
    | some format =>
      match Discovery.discover w c.suiteRoot a.extension with
      | (.error message, log) => (.error message, c.event :: log)
      | (.ok found, log) =>
        match Fixture.select a.filter found with
        | [] => (.error (filterComplaint a.filter), c.event :: log)
        | fixtures => (.ok ⟨c, format, fixtures⟩, c.event :: log)

def runEvent (p : Plan) : Log.Event :=
  Log.info .program ("Running " ++ Decimal.natText p.fixtures.length ++ " fixtures from " ++
    p.configuration.suiteRoot.display ++ " with " ++ p.configuration.compilerBinary.display)

variable {σ : Type}

/-- What running the fixtures of a plan comes to, and the invocations that were made. -/
abbrev Execution := Except Fault (Summary × List Log.Event) × List Call

/-- Runs the fixtures of a plan, one after another or in parallel. In parallel the compiler answers
each path from the state the run started in. -/
def execute (clock : Clock) (compiler : Compiler σ) (s : σ) (a : RunArguments) (p : Plan) :
    Execution :=
  if a.parallel then
    let respond := fun (_ : Nat) path => (compiler s path).1
    match Parallel.ending respond a.concurrent p.fixtures with
    | .error fault => (.error fault, [])
    | .ok (final, _) =>
      (Parallel.conclude id a.concurrent clock.wallMs p.fixtures final, final.calls respond)
  else
    let (result, _, calls) := Runner.runAll compiler.traced (s, []) clock.wallMs p.fixtures
    (result, calls)

def settings (a : RunArguments) (c : Configuration) : RunSettings :=
  { (if a.parallel then .inParallel c.suiteRoot c.compilerBinary a.concurrent
      else .sequential c.suiteRoot c.compilerBinary : RunSettings) with
    filters := a.filter }

def timingEvent (clock : Clock) (exported : Bool) : Log.Event :=
  let w := (Stopwatch.start.lap .discovery clock.discovered).lap .execution clock.executed
  let w := if exported then w.lap .export clock.exported else w
  Log.debug .program ("Timing: " ++ w.format clock.finished)

def report (clock : Clock) (host : RunEnvironment) (a : RunArguments) (c : Configuration)
    (summary : Summary) : StoredRun :=
  .ofRun clock.startedAt clock.completedAt (settings a c) host summary

/-- The end of a run whose fixtures were executed: the summary is printed, and the report is written
if one is asked for. -/
def wrapUp (w : World) (clock : Clock) (host : RunEnvironment) (a : RunArguments) (p : Plan)
    (log : List Log.Event) : Execution → Transcript
  | (.error fault, calls) => crash w (events log) calls fault
  | (.ok (summary, told), calls) =>
    let log := events (log ++ told)
    match Output.render p.format (!a.noColor) summary with
    | .error fault => crash w log calls fault
    | .ok text =>
      let stdout := text ++ "\n"
      match a.output with
      | none => ⟨summary.exitCode, stdout, log ++ events [timingEvent clock false], calls, w⟩
      | some output =>
        let path := Path.ofText output
        match Store.save w (report clock host a p.configuration summary) path with
        | (.error e, told, w) => failure w stdout (log ++ events told) calls e.fullMessage
        | (.ok _, told, w) =>
          ⟨summary.exitCode, stdout,
            log ++ events told ++ [.line ("📁 Report saved to " ++ path.display)] ++
              events [timingEvent clock true], calls, w⟩

/-- Carries out a plan. The compiler under test is given as a function of its path. -/
def carryOut (w : World) (clock : Clock) (host : RunEnvironment) (compiler : Path → Compiler σ)
    (s : σ) (a : RunArguments) (p : Plan) (log : List Log.Event) : Transcript :=
  wrapUp w clock host a p (log ++ [runEvent p])
    (execute clock (compiler p.configuration.compilerBinary) s a p)

def runSuite (w : World) (clock : Clock) (host : RunEnvironment) (compiler : Path → Compiler σ)
    (s : σ) (a : RunArguments) : Transcript :=
  match plan w a with
  | (.error message, log) => failure w "" (events log) [] message
  | (.ok p, log) => carryOut w clock host compiler s a p log

def listFixtures (w : World) (a : ListArguments) : Transcript :=
  match Configuration.rootOfEnvironment w with
  | .error e => failure w "" [] [] (configurationComplaint e)
  | .ok root =>
    match Discovery.discover w root a.extension with
    | (.error message, log) => failure w "" (events log) [] message
    | (.ok fixtures, log) =>
      ⟨0, "\nFixtures under " ++ root.display ++ "\n\n" ++ Output.fixtureList a.detailed fixtures,
        events log, [], w⟩

def environmentHelp : String :=
  "Environment Variables:\n\n" ++
    "  " ++ suiteRootVar ++ "   Directory holding the .flang fixture tree (required)\n" ++
    "  " ++ compilerBinaryVar ++ "   Compiler executable under test (required)\n" ++
    "  RUST_LOG          Log filter override (e.g. flang_conformance=debug)\n\n" ++
    "Example:\n" ++
    "  export " ++ suiteRootVar ++ "=./tests/suite\n" ++
    "  export " ++ compilerBinaryVar ++ "=./build/flang\n" ++
    "  flang-conformance run\n"

def quotedPath : Option Path → String
  | some p => "Some(" ++ Quoted.bytes p.bytes ++ ")"
  | none => "None"

def showEnvironment (w : World) : Transcript :=
  let env := w.environment
  let text := environmentHelp ++ "\nEnvironment Configuration:\n" ++
    "  " ++ suiteRootVar ++ ":  " ++ quotedPath env.suiteRoot? ++ "\n" ++
    "  " ++ compilerBinaryVar ++ ":  " ++ quotedPath env.compilerBinary? ++ "\n" ++
    if env.hasAny then "" else "\n⚠️  Neither variable is set; `run` will refuse to start.\n"
  ⟨0, text, [], [], w⟩

def perform (w : World) (clock : Clock) (host : RunEnvironment) (compiler : Path → Compiler σ)
    (s : σ) : Command → Transcript
  | .run a => runSuite w clock host compiler s a
  | .list a => listFixtures w a
  | .env => showEnvironment w

def logFilterVar : String := "RUST_LOG"

/-- The filter of the log: that of the environment, or that of the verbosity. -/
def logFilter (w : World) (verbose : Bool) : Log.Filter :=
  Log.Filter.choose ((w.environment.get? logFilterVar).bind Utf8.decode?) verbose

/-- How the program ended: its exit code and its two outputs, and the world it leaves. -/
structure Ending where
  exitCode : Nat
  stdout : String
  stderr : String
  world : World

/-- Runs the program on the tokens of a command line. What is said about the usage is left to the
outer layer. -/
def run (w : World) (clock : Clock) (host : RunEnvironment) (compiler : Path → Compiler σ) (s : σ)
    (tokens : List Bytes) : Except UsageError Ending :=
  (CommandLine.parse tokens).map fun line =>
    let t := perform w clock host compiler s line.command
    ⟨t.exitCode, t.stdout, t.stderr (logFilter w line.verbose), t.world⟩

/-- Runs every fixture of the configured suite as a trial. -/
def testSuite (w : World) (compiler : Path → Compiler σ) (s : σ) (options : TrialOptions) :
    Except String Conclusion :=
  match Configuration.ofEnvironment w with
  | .error e => .error (configurationComplaint e)
  | .ok c =>
    match Discovery.discover w c.suiteRoot fixtureExtension with
    | (.error message, _) => .error message
    | (.ok fixtures, _) => .ok (Trial.run options (compiler c.compilerBinary) s fixtures).1

end Program

end Conformance

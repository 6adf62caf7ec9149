import Conformance.Runner

/-!
# Running fixtures in parallel

Every fixture is a task. A task waits for one of a fixed number of permits, hands its fixture to the
compiler, and gives the permit back when it is settled, also when the compiler stand-in faults. The
steps of the tasks may interleave in any way: `State.advance?` is the next step of one task, and a
schedule is any sequence of such steps. What the compiler answers is given for each task, since two
tasks with one path may be answered differently. The tasks are joined in the order in which they
were made, and what that gives is paired with the fixtures by position (`outcomes?`), whatever the
order of completion.

`State.drive` is one schedule: it starts tasks as long as it can, and lets the earliest invocation
end when it cannot.
-/

namespace Conformance.Parallel

inductive Settled where
  | outcome (o : Outcome)
  | crashed (payload : Payload)
deriving DecidableEq, Repr

inductive Phase where
  | waiting
  /-- It holds a permit. -/
  | admitted
  /-- It holds a permit, and the compiler is running. -/
  | invoking
  /-- It is over, and its permit is given back. -/
  | settled (result : Settled)
deriving DecidableEq, Repr

structure Task where
  fixture : Fixture
  phase : Phase
deriving DecidableEq, Repr

structure State where
  tasks : List Task
  /-- Permits that no task holds. -/
  free : Nat
  /-- The tasks whose fixtures were handed to the compiler, in order. -/
  invoked : List Nat
  log : List Log.Event
deriving DecidableEq, Repr

/-- The number of permits for a requested concurrency: at least one. -/
def permits (requested : UInt64) : Nat := max 1 requested.toNat

namespace State

def start (permits : Nat) (fixtures : List Fixture) : State :=
  ⟨fixtures.map (⟨·, .waiting⟩), permits, [], []⟩

def setPhase (s : State) (i : Nat) (f : Fixture) (phase : Phase) : State :=
  { s with tasks := s.tasks.set i ⟨f, phase⟩ }

def takePermit (s : State) (i : Nat) (f : Fixture) : State :=
  { s.setPhase i f .admitted with
    free := s.free - 1
    log := s.log ++ [Log.debug .parallel ("Starting parallel execution of " ++ f.id)] }

/-- A task is over and gives its permit back. -/
def settle (s : State) (i : Nat) (f : Fixture) (result : Settled) (log : List Log.Event) : State :=
  { s.setPhase i f (.settled result) with free := s.free + 1, log := s.log ++ log }

def invoke (s : State) (i : Nat) (f : Fixture) : State :=
  { s.setPhase i f .invoking with invoked := s.invoked ++ [i] }

/-- The next step of task `i`, if it can take one. The compiler answers task `i` by `respond i`. -/
def advance? (respond : Nat → Path → Response) (s : State) (i : Nat) : Option State :=
  match s.tasks[i]? with
  | none => none
  | some ⟨f, .waiting⟩ => if s.free = 0 then none else some (s.takePermit i f)
  | some ⟨f, .admitted⟩ =>
    some (if f.isSkipped then s.settle i f (.outcome (.skipped f skipReason)) [] else s.invoke i f)
  | some ⟨f, .invoking⟩ =>
    some (match Runner.classify f (respond i f.path) with
      | .ok (o, log) => s.settle i f (.outcome o) log
      | .error e => s.settle i f (.crashed e.payload) [])
  | some ⟨_, .settled _⟩ => none

def Step (respond : Nat → Path → Response) (s t : State) : Prop :=
  ∃ i, s.advance? respond i = some t

def inFlight (s : State) : Nat := s.tasks.countP (·.phase = .invoking)

/-- The invocations of the compiler so far, in order. -/
def calls (respond : Nat → Path → Response) (s : State) : List Call :=
  s.invoked.filterMap fun i => s.tasks[i]?.map fun t => ⟨t.fixture.path, respond i t.fixture.path⟩

/-- The first task that can start, else the first invocation, among the tasks from `i` on. -/
def nextTask? (free : Nat) (i : Nat) (running : Option Nat) : List Task → Option Nat
  | [] => running
  | t :: ts =>
    match t.phase with
    | .admitted => some i
    | .waiting => if free = 0 then nextTask? free (i + 1) running ts else some i
    | .invoking => nextTask? free (i + 1) (running.or (some i)) ts
    | .settled _ => nextTask? free (i + 1) running ts

/-- Runs a state on, and the largest number of invocations seen in flight. A task takes three steps,
so `fuel` of three for each task reaches the end. -/
def drive (respond : Nat → Path → Response) : Nat → State → Nat → State × Nat
  | 0, s, peak => (s, peak)
  | fuel + 1, s, peak =>
    match (nextTask? s.free 0 none s.tasks).bind (s.advance? respond) with
    | some t => drive respond fuel t (max peak t.inFlight)
    | none => (s, peak)

end State

/-- The error that a task which crashed is joined with. -/
def joinError (number : Nat) : Payload → String
  | .text message =>
    "task " ++ Decimal.natText number ++ " panicked with message " ++ Quoted.text message
  | .other => "task " ++ Decimal.natText number ++ " panicked"

/-- What joining a task gives that is over: its outcome, or the error it crashed with. -/
def Task.joined? (number : Nat) (t : Task) : Option (Except String Outcome) :=
  match t.phase with
  | .settled (.outcome o) => some (.ok o)
  | .settled (.crashed payload) => some (.error (joinError number payload))
  | _ => none

/-- What joining the tasks from position `i` on gives, if all are over. The runtime numbers its
tasks as it likes: `number` gives the number of the task at a position. -/
def joinAll? (number : Nat → Nat) (i : Nat) : List Task → Option (List (Except String Outcome))
  | [] => some []
  | t :: ts => do return (← t.joined? (number i)) :: (← joinAll? number (i + 1) ts)

/-- The outcome of a fixture whose task was joined. A task that crashed gets a capture error. -/
def pairOff (joined : Except String Outcome) (f : Fixture) : Outcome :=
  match joined with
  | .ok o => o
  | .error e => .captureError f 0 e

/-- The outcomes of fixtures whose tasks are over, paired by position. -/
def outcomes? (number : Nat → Nat) (fixtures : List Fixture) (tasks : List Task) :
    Option (List Outcome) :=
  (joinAll? number 0 tasks).map fun joined => joined.zipWith pairOff fixtures

/-- The state in which a run over fixtures ends, and the largest number of invocations in flight. -/
def ending (respond : Nat → Path → Response) (requested : UInt64) (fixtures : List Fixture) :
    Except Fault (State × Nat) :=
  if maxPermits < permits requested then .error .tooManyPermits
  else .ok ((State.start (permits requested) fixtures).drive respond (3 * fixtures.length) 0)

/-- What a run over fixtures makes of the state it ended in. It takes `wallMs` by the clock. -/
def conclude (number : Nat → Nat) (requested : UInt64) (wallMs : Nat) (fixtures : List Fixture)
    (final : State) : Except Fault (Summary × List Log.Event) :=
  (Summary.ofOutcomes ((outcomes? number fixtures final.tasks).getD [])).map fun summary =>
    (summary,
      Log.info .parallel ("Running " ++ Decimal.natText fixtures.length ++
        " fixtures in parallel (max " ++ Decimal.natText (permits requested) ++ " concurrent)") ::
        final.log ++
      [Log.info .parallel ("Parallel execution completed in " ++ Decimal.natText wallMs ++
        "ms - " ++ Runner.countsText summary)])

structure Run where
  summary : Summary
  log : List Log.Event
  /-- The fixtures' numbers in the order they were handed to the compiler. -/
  invoked : List Nat
  peak : Nat

def runAll (respond : Path → Response) (requested : UInt64) (wallMs : Nat)
    (fixtures : List Fixture) : Except Fault Run :=
  match ending (fun _ => respond) requested fixtures with
  | .error e => .error e
  | .ok (final, peak) =>
    (conclude id requested wallMs fixtures final).map fun (summary, log) =>
      { summary, log, invoked := final.invoked, peak }

end Conformance.Parallel

import Conformance.Shell.Builtin
import Conformance.Shell.Expansion

/-!
# Running shell scripts

A command takes the state of its script to another one and says how the script goes on. The number
of steps is bounded, so that a script that never ends is stopped.

The shell serves runs from the command line, whose compiler may be a script (`Launch`); nothing
else depends on it.
-/

namespace Conformance.Shell

/-- The flow behind a command that ran on its own. -/
def rejoinFlow : Flow → Flow
  | .killed => .killed
  | _ => .next

def creationProblem : FileError → String
  | .notFound => "Directory nonexistent"
  | .notDirectory => "Directory nonexistent"
  | e => (e.numbered?.map (·.2)).getD ""

def openingProblem : FileError → String
  | .notFound => "No such file"
  | .notDirectory => "No such file"
  | e => (e.numbered?.map (·.2)).getD ""

/-- The state after a redirection with a target, or what is wrong with the target. What goes to
files is swallowed. -/
def redirect (s : State) (r : Redirection) (target : List Char) : Except (List Char) State :=
  let p : Path := ⟨toBytes target⟩
  if r.operator == "<<" then .ok { s with input := target }
  else if r.operator == "<" then
    match s.world.contentOf p with
    | .ok bs => .ok { s with input := ofBytes bs }
    | .error e => .error ("cannot open ".toList ++ target ++ (": " ++ openingProblem e).toList)
  else if r.operator == ">&" then
    let buffer := if target == ['-'] then none else s.descriptors.get (Decimal.value target)
    .ok { s with descriptors := s.descriptors.set (r.fd.getD 1) buffer }
  else if r.operator == "<&" || r.operator == "<>" then .ok s
  else match s.world.openForWriting p with
    | .ok _ => .ok { s with descriptors := s.descriptors.set (r.fd.getD 1) none }
    | .error e => .error ("cannot create ".toList ++ target ++ (": " ++ creationProblem e).toList)

def redirectAll (output : State → List Char → List Char) :
    State → List Redirection → Except (List Char) State
  | s, [] => .ok s
  | s, r :: rs => do
    let s ← redirect s r (expandText s (output s) r.target)
    redirectAll output s rs

/-- What follows on a command: the end of the script, if the command failed and must not. -/
def checked (s : State) (flow : Flow) : State × Flow :=
  if flow = .next && s.status != 0 && s.stopsOnFailure && !s.tested then (s, .exit) else (s, flow)

/-- What is left to do behind the body of a loop: to go on with the loop, or something else. -/
def Flow.behindBody : Flow → Option Flow
  | .next => none
  | .again 1 => none
  | .again n => some (.again (n - 1))
  | .leave 1 => some .next
  | .leave n => some (.leave (n - 1))
  | flow => some flow

mutual

/-- Runs a command; the first argument bounds the number of steps. -/
def run : Nat → State → Command → State × Flow
  | 0, s, _ => (s, .exit)
  | fuel + 1, s, c =>
    let substitute := fun (s : State) (text : List Char) =>
      (run fuel { s.captured with tested := true } (script text)).1
    let output := fun (s : State) (text : List Char) => (substitute s text).written s.buffers.length
    let condition := fun (s : State) (c : Command) =>
      let (t, flow) := run fuel { s with tested := true } c
      ({ t with tested := s.tested }, flow)
    match c with
    | .nothing => (s, .next)
    | .mistake m =>
      (({ s with line := m.line }.report m.problem.message.toList).withStatus 2, .exit)
    | .sequence a b =>
      match run fuel s a with
      | (s, .next) => run fuel s b
      | r => r
    | .both a b =>
      match condition s a with
      | (s, .next) => if s.status = 0 then run fuel s b else (s, .next)
      | r => r
    | .either a b =>
      match condition s a with
      | (s, .next) => if s.status = 0 then (s, .next) else run fuel s b
      | r => r
    | .negation a =>
      match condition s a with
      | (s, .next) => (s.withStatus (if s.status = 0 then 1 else 0), .next)
      | r => r
    | .pipe a b =>
      let (left, flow) := run fuel s.captured a
      if flow = .killed then (s.rejoin left, .killed)
      else
        let text := left.written s.buffers.length
        let (right, flow) := run fuel { s with buffers := left.buffers, input := text } b
        checked (s.rejoin { right with input := s.input }) (rejoinFlow flow)
    | .background a => ({ s with jobs := s.jobs ++ [(s.descriptors, a)], status := 0 }, .next)
    | .subshell a =>
      let (inner, flow) := run fuel s a
      checked (s.rejoin inner) (rejoinFlow flow)
    | .conditional test yes no =>
      match condition s test with
      | (s, .next) =>
        if s.status = 0 then run fuel s yes
        else run fuel (s.withStatus 0) no
      | r => r
    | .loop expected test body =>
      match condition s test with
      | (s, .next) =>
        if (s.status = 0) = expected then
          let (s, flow) := run fuel s body
          match flow.behindBody with
          | none => run fuel s (.loop expected test body)
          | some flow => (s, flow)
        else (s.withStatus 0, .next)
      | r => r
    | .forEach name words body =>
      let values := match words with
        | none => s.arguments
        | some ws => ws.flatMap (expand s (output s))
      match values with
      | [] => (s.withStatus 0, .next)
      | v :: vs =>
        let (s, flow) := run fuel (s.assign name v) body
        match flow.behindBody with
        | some flow => (s, flow)
        | none =>
          if vs.isEmpty then (s, .next)
          else run fuel s
            (.forEach name (some (vs.map fun v => .quotes :: v.map (Part.char · true))) body)
    | .choice word branches =>
      let text := expandText s (output s) word
      let hit := branches.find? fun (ps, _) =>
        ps.any fun p => matchesPattern (expandText s (output s) p) text
      match hit with
      | some (_, body) => run fuel (s.withStatus 0) body
      | none => (s.withStatus 0, .next)
    | .definition name body =>
      ({ s with functions := (name, body) :: s.functions, status := 0 }, .next)
    | .redirected c rs =>
      let s := match c with
        | .simple line _ _ => { s with line }
        | _ => s
      match redirectAll output s rs with
      | .error problem => checked ((s.report problem).withStatus 2) .next
      | .ok t =>
        let (u, flow) := run fuel t c
        let stays := match c with
          | .simple _ _ words => words.flatMap (expand s (output s)) == ["exec".toList]
          | _ => false
        (if stays then u else { u with descriptors := s.descriptors, input := s.input }, flow)
    | .simple line assignments words =>
      let s := { s with line }
      match words.flatMap (expand s (output s)) with
      | [] =>
        let assign := fun (s : State) (a : String × Word) =>
          let t := s.assign a.1 (expandText s (output s) a.2)
          match lastScript? a.2 with
          | some text => t.withStatus (substitute s text).status
          | none => t
        checked (assignments.foldl assign (s.withStatus 0)) .next
      | name :: arguments =>
        let (s, flow) := call fuel s (String.ofList name) arguments
        checked s flow

/-- Calls a command by its name; the first argument bounds the number of steps. -/
def call : Nat → State → String → List (List Char) → State × Flow
  | 0, s, _, _ => (s, .exit)
  | fuel + 1, s, name, arguments =>
    match s.functions.lookup name with
    | some body =>
      let (t, flow) := run fuel { s with arguments } body
      ({ t with arguments := s.arguments }, if flow = .return then .next else flow)
    | none =>
      if name == "wait" then
        match s.jobs with
        | [] => (s.withStatus 0, .next)
        | (d, job) :: jobs =>
          let (t, _) := run fuel { s with jobs := [], descriptors := d } job
          call fuel { s.rejoin t with jobs := jobs ++ t.jobs } name arguments
      else if name == "eval" then run fuel s (script (spaced arguments))
      else if name == "exec" then
        match arguments with
        | [] => (s.withStatus 0, .next)
        | n :: ws =>
          let (t, flow) := call fuel s (String.ofList n) ws
          (t, if flow = .killed then .killed else .exit)
      else if name == "." then
        match arguments with
        | [] => (s.withStatus 0, .next)
        | file :: _ =>
          match s.world.contentOf ⟨toBytes file⟩ with
          | .ok bs => run fuel s (script (ofBytes bs))
          | .error e =>
            misused s (".: cannot open ".toList ++ file ++ (": " ++ openingProblem e).toList)
      else if name == "sh" || name == "/bin/sh" then
        let fresh := fun (name : List Char) (arguments : List (List Char)) =>
          { s with
            name, arguments, functions := [], farewell := [], stopsOnFailure := false, line := 1 }
        let inner := match arguments with
          | ['-', 'c'] :: text :: more =>
            (run fuel (fresh (more.headD "sh".toList) (more.drop 1)) (script text)).1
          | file :: more =>
            match s.world.contentOf ⟨toBytes file⟩ with
            | .ok bs => (run fuel (fresh file more) (script (ofBytes bs))).1
            | .error e =>
              ({ s with name := name.toList, line := 0 }.report
                ("cannot open ".toList ++ file ++ (": " ++ openingProblem e).toList)).withStatus 2
          | [] => (run fuel { fresh name.toList [] with input := [] } (script s.input)).1
        (s.rejoin inner, .next)
      else match builtin? s name arguments with
        | some r => r
        | none => ((s.report (name.toList ++ ": not found".toList)).withStatus 127, .next)

end

/-- How a script ended: its exit status, none if it was killed, and what it wrote. -/
structure Result where
  status : Option Nat
  output : Bytes
deriving DecidableEq, Repr

def maxSteps : Nat := 1000000

/-- Runs a script with its name and arguments. Commands left in the background still write. -/
def runScript (w : World) (name : Bytes) (arguments : List Bytes) (text : Bytes) : Result :=
  let s : State := { name := ofBytes name, arguments := arguments.map ofBytes, world := w }
  let (s, flow) := run maxSteps s (script (ofBytes text))
  let s := if flow = .killed then s
    else (run maxSteps s (script s.farewell)).1.withStatus s.status
  let (t, _) := call maxSteps s "wait" []
  ⟨if flow = .killed then none else some s.status, toBytes (t.written 0)⟩

end Conformance.Shell

import Conformance.Shell.Command
import Conformance.World

/-!
# The state of a shell script

A script writes to two descriptors, which a redirection can point at each other or at nothing. What
is written is kept in numbered buffers: buffer 0 is what the script as a whole writes, and further
ones hold the output of commands that is used inside the script. Scripts look at files and change
none. The shell serves runs from the command line only (`Launch`).
-/

namespace Conformance.Shell

/-- Where descriptors 1 and 2 lead: to a buffer, or nowhere. -/
structure Descriptors where
  out : Option Nat := some 0
  err : Option Nat := some 0
deriving DecidableEq, Repr

namespace Descriptors

def get (d : Descriptors) (fd : Nat) : Option Nat :=
  if fd = 1 then d.out else if fd = 2 then d.err else none

def set (d : Descriptors) (fd : Nat) (buffer : Option Nat) : Descriptors :=
  if fd = 1 then { d with out := buffer } else if fd = 2 then { d with err := buffer } else d

end Descriptors

structure State where
  /-- What the script was started as. -/
  name : List Char
  arguments : List (List Char)
  world : World
  bindings : List (String × List Char) := []
  functions : List (String × Command) := []
  status : Nat := 0
  line : Nat := 1
  descriptors : Descriptors := {}
  /-- What is left to read. -/
  input : List Char := []
  /-- What was written, each buffer backwards. -/
  buffers : List (List Char) := [[]]
  /-- Commands in the background, not yet run. -/
  jobs : List (Descriptors × Command) := []
  /-- What is run when the script ends. -/
  farewell : List Char := []
  stopsOnFailure : Bool := false
  /-- Whether the script looks at the status of the command that runs, so that it may fail. -/
  tested : Bool := false

inductive Flow where
  | next
  | exit
  /-- A signal killed the script. -/
  | killed
  /-- A number of loops is left. -/
  | leave (loops : Nat)
  /-- A loop is started over, after leaving a number of others. -/
  | again (loops : Nat)
  | return
deriving DecidableEq, Repr

namespace State

def write (s : State) (buffer : Option Nat) (cs : List Char) : State :=
  match buffer with
  | none => s
  | some i => { s with buffers := s.buffers.modify i (cs.reverse ++ ·) }

def written (s : State) (buffer : Nat) : List Char := (s.buffers[buffer]?.getD []).reverse

/-- The state after writing to descriptor 1. -/
def say (s : State) (cs : List Char) : State := s.write s.descriptors.out cs

/-- The state after writing to descriptor 2. -/
def complain (s : State) (cs : List Char) : State := s.write s.descriptors.err cs

/-- The state after writing to descriptor 2 what is wrong in the current line. -/
def report (s : State) (cs : List Char) : State :=
  s.complain (s.name ++ ": ".toList ++ Nat.toDigits 10 s.line ++ ": ".toList ++ cs ++ ['\n'])

def withStatus (s : State) (status : Nat) : State := { s with status }

def valueOf? (s : State) (name : String) : Option (List Char) := s.bindings.lookup name

def assign (s : State) (name : String) (value : List Char) : State :=
  { s with bindings := (name, value) :: s.bindings.filter (·.1 != name) }

def unset (s : State) (name : String) : State :=
  { s with bindings := s.bindings.filter (·.1 != name) }

/-- The state with one more buffer, which descriptor 1 leads to. -/
def captured (s : State) : State :=
  { s with
    buffers := s.buffers ++ [[]]
    descriptors := { s.descriptors with out := some s.buffers.length } }

/-- The state of a command that ran on its own: only what it wrote, read and returned is kept. -/
def rejoin (outer inner : State) : State :=
  { outer with
    status := inner.status
    buffers := inner.buffers
    input := inner.input
    jobs := inner.jobs }

end State

def processNumber : List Char := "4242".toList

def spaced : List (List Char) → List Char
  | [] => []
  | [w] => w
  | w :: ws => w ++ ' ' :: spaced ws

/-- The value of a parameter that is one text. -/
def parameter? (s : State) (name : String) : Option (List Char) :=
  if name == "#" then some (Nat.toDigits 10 s.arguments.length)
  else if name == "?" then some (Nat.toDigits 10 s.status)
  else if name == "$" then some processNumber
  else if name == "@" || name == "*" then some (spaced s.arguments)
  else if name == "0" then some s.name
  else if name.toList.all Char.isDigit then s.arguments[Decimal.value name.toList - 1]?
  else s.valueOf? name

end Conformance.Shell

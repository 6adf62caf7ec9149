import Conformance.Shell.Format

/-!
# Commands that need no script

The commands that are part of the shell or so common that scripts take them for granted. They see
and change the state of the script that calls them. One that is called in a wrong way says so, fails
with status 2, and ends the script if it is one of those that scripts rely on. The shell serves
runs from the command line only (`Launch`).
-/

namespace Conformance.Shell

/-- A blank around a number. -/
def isSpace (c : Char) : Bool := isBlank c || ('\n' ≤ c && c ≤ '\r')

/-- The number of a word: digits, with blanks around them or a plus sign. -/
def count? (w : List Char) : Option Nat :=
  let w := w.dropWhile isSpace
  let w := if w.head? == some '+' then w.drop 1 else w
  let digits := w.takeWhile Char.isDigit
  if digits ≠ [] && (w.drop digits.length).all isSpace then some (Decimal.value digits) else none

def whole? (w : List Char) : Option Int :=
  match w.dropWhile isSpace with
  | '-' :: r => (count? r).map fun n => -(n : Int)
  | r => (count? r).map fun n => (n : Int)

def illegalNumber (w : List Char) : List Char := "Illegal number: ".toList ++ w

def test1 (w : World) (operator : List Char) (x : List Char) : Bool :=
  let p : Path := ⟨toBytes x⟩
  match String.ofList operator with
  | "-n" => !x.isEmpty
  | "-z" => x.isEmpty
  | "-e" => (w.find true p).toOption.isSome
  | "-f" => w.isFile p
  | "-d" => w.isDirectory p
  | "-r" => (w.find true p).toOption.isSome
  | "-w" => (w.find true p).toOption.isSome
  | "-h" => match w.find false p with
    | .ok (_, .link _) => true
    | _ => false
  | "-L" => match w.find false p with
    | .ok (_, .link _) => true
    | _ => false
  | "-s" => match w.contentOf p with
    | .ok bs => !bs.isEmpty
    | .error _ => false
  | "-x" => match w.find true p with
    | .ok (_, .file _ executable) => executable
    | .ok (_, e) => e.isDirectory
    | .error _ => false
  | _ => false

/-- Whether a comparison of two numbers holds, or which of them is none. -/
def compareNumbers (x y : List Char) (holds : Int → Int → Bool) : Except (List Char) Bool :=
  match whole? x, whole? y with
  | none, _ => .error (illegalNumber x)
  | _, none => .error (illegalNumber y)
  | some a, some b => .ok (holds a b)

def test2 (x operator y : List Char) : Except (List Char) Bool :=
  match String.ofList operator with
  | "=" => .ok (x == y)
  | "!=" => .ok (x != y)
  | "-eq" => compareNumbers x y (· == ·)
  | "-ne" => compareNumbers x y (· != ·)
  | "-lt" => compareNumbers x y (· < ·)
  | "-le" => compareNumbers x y (· ≤ ·)
  | "-gt" => compareNumbers x y (· > ·)
  | "-ge" => compareNumbers x y (· ≥ ·)
  | _ => .error (operator ++ ": unexpected operator".toList)

/-- Whether a test holds, or what is wrong with it. Tests may be joined by `-a` and `-o`. -/
def test (w : World) : List (List Char) → Except (List Char) Bool
  | ['!'] :: rest@(_ :: _) => (test w rest).map (!·)
  | [] => .ok false
  | [x] => .ok (!x.isEmpty)
  | [operator, x] => .ok (test1 w operator x)
  | [x, operator, y] => test2 x operator y
  | x :: operator :: y :: ['-', 'a'] :: rest => do
    let a ← test2 x operator y
    let b ← test w rest
    return a && b
  | x :: operator :: y :: ['-', 'o'] :: rest => do
    let a ← test2 x operator y
    let b ← test w rest
    return a || b
  | x :: _ => .error (x ++ ": unexpected operator".toList)

def tested (s : State) (name : String) (words : List (List Char)) : State :=
  match test s.world words with
  | .ok holds => s.withStatus (if holds then 0 else 1)
  | .error problem => (s.report (name.toList ++ ": ".toList ++ problem)).withStatus 2

def harmlessSignals : List String := ["0", "CHLD", "17", "CONT", "18", "URG", "23", "WINCH", "28"]

/-- Whether `kill` with some words kills the script itself. -/
def killsItself (words : List (List Char)) : Bool :=
  let (signal, targets) := match words with
    | ['-', 's'] :: signal :: ts => (signal, ts)
    | ('-' :: signal) :: ts => (signal, ts)
    | ts => ("TERM".toList, ts)
  targets.contains processNumber && !harmlessSignals.contains (String.ofList signal)

/-- The content of files, and the complaints about those that are missing. -/
def catenate (s : State) : List (List Char) → State
  | [] => s
  | x :: xs =>
    if x == ['-'] then catenate ({ s with input := [] }.say s.input) xs
    else match s.world.contentOf ⟨toBytes x⟩ with
      | .ok bs => catenate (s.say (ofBytes bs)) xs
      | .error e =>
        let text := (e.numbered?.map (·.2)).getD ""
        let complaint := "cat: ".toList ++ x ++ (": " ++ text ++ "\n").toList
        catenate ((s.complain complaint).withStatus 1) xs

def baseName (x suffix : List Char) : List Char :=
  let x := match (x.reverse.dropWhile (· == '/')).reverse with
    | [] => x
    | trimmed => trimmed
  let name := (x.reverse.takeWhile (· != '/')).reverse
  if suffix.isSuffixOf name && suffix != name then name.take (name.length - suffix.length) else name

/-- The end of a script that calls a command in a wrong way. -/
def misused (s : State) (problem : List Char) : State × Flow :=
  ((s.report problem).withStatus 2, .exit)

/-- The end of a script or function with a status, which is a number of up to eight bits for the
world outside. -/
def ended (s : State) (name : String) (flow : Flow) : List (List Char) → State × Flow
  | [] => (s, flow)
  | n :: _ =>
    match count? n with
    | some status => (s.withStatus (status % 256), flow)
    | none => misused s (name.toList ++ ": ".toList ++ illegalNumber n)

def setOptions (s : State) : List (List Char) → State
  | [] => s
  | ['-', '-'] :: ws => { s with arguments := ws }
  | ('-' :: flags) :: ws =>
    setOptions { s with stopsOnFailure := s.stopsOnFailure || flags.contains 'e' } ws
  | ('+' :: flags) :: ws =>
    setOptions { s with stopsOnFailure := s.stopsOnFailure && !flags.contains 'e' } ws
  | ws => { s with arguments := ws }

/-- The state with a variable set as a word of the form `name=value` says. -/
def exported (s : State) (w : List Char) : State :=
  match w.dropWhile (· != '=') with
  | _ :: value => s.assign (String.ofList (w.takeWhile (· != '='))) value
  | [] => s

/-- Reads a line into variables: a word into each, and the rest of the line into the last. -/
def readInto (s : State) (line : List Char) : List (List Char) → State
  | [] => s
  | [n] => s.assign (String.ofList n) ((line.dropWhile isBlank).reverse.dropWhile isBlank).reverse
  | n :: ns =>
    let line := line.dropWhile isBlank
    let word := line.takeWhile (!isBlank ·)
    readInto (s.assign (String.ofList n) word) (line.drop word.length) ns

/-- A command that needs no script, if its name is known. -/
def builtin? (s : State) (name : String) (words : List (List Char)) : Option (State × Flow) :=
  let good := some (s.withStatus 0, Flow.next)
  let loops := (words.head?.bind count?).getD 1
  match name with
  | ":" => good
  | "true" => good
  | "false" => some (s.withStatus 1, .next)
  | "echo" => some ((s.say (echo words)).withStatus 0, .next)
  | "printf" =>
    match words with
    | format :: ws => some ((s.say (printf format ws)).withStatus 0, .next)
    | [] => some ((s.report "printf: usage: printf format [arg ...]".toList).withStatus 2, .next)
  | "exit" => some (ended s name .exit words)
  | "return" => some (ended s name .return words)
  | "break" => some (s.withStatus 0, .leave loops)
  | "continue" => some (s.withStatus 0, .again loops)
  | "kill" => if killsItself words then some (s, .killed) else good
  | "cat" =>
    if words.isEmpty then some (({ s with input := [] }.say s.input).withStatus 0, .next)
    else some (catenate (s.withStatus 0) words, .next)
  | "test" => some (tested s name words, .next)
  | "[" =>
    if words.getLast? == some [']'] then some (tested s name words.dropLast, .next)
    else some ((s.report "[: missing ]".toList).withStatus 2, .next)
  | "shift" =>
    if s.arguments.length < loops then some (misused s "shift: can't shift that many".toList)
    else some ({ s with arguments := s.arguments.drop loops }.withStatus 0, .next)
  | "set" => some ((setOptions s words).withStatus 0, .next)
  | "unset" => some ((words.foldl (fun s n => s.unset (String.ofList n)) s).withStatus 0, .next)
  | "export" => some ((words.foldl exported s).withStatus 0, .next)
  | "readonly" => some ((words.foldl exported s).withStatus 0, .next)
  | "local" => some ((words.foldl exported s).withStatus 0, .next)
  | "read" =>
    let names := words.filter fun w => w.head? != some '-'
    let line := s.input.takeWhile (· != '\n')
    let rest := s.input.dropWhile (· != '\n')
    some ((readInto { s with input := rest.drop 1 } line names).withStatus
      (if rest.isEmpty then 1 else 0), .next)
  | "sleep" => good
  | "trap" =>
    match words with
    | action :: signals =>
      if signals.contains "EXIT".toList || signals.contains ['0'] then
        some ({ s with farewell := if action == ['-'] then [] else action }.withStatus 0, .next)
      else good
    | [] => good
  | "umask" => good
  | "ulimit" => good
  | "cd" =>
    match words with
    | [] => good
    | dir :: _ =>
      match s.world.changeDirectory ⟨toBytes dir⟩ with
      | .ok world => some ({ s with world }.withStatus 0, .next)
      | .error _ => some ((s.report ("cd: can't cd to ".toList ++ dir)).withStatus 2, .next)
  | "pwd" =>
    match s.world.currentDirectory with
    | .ok p => some ((s.say (ofBytes p.bytes ++ ['\n'])).withStatus 0, .next)
    | .error _ => some (s.withStatus 1, .next)
  | "basename" =>
    match words with
    | x :: rest => some ((s.say (baseName x (rest.headD []) ++ ['\n'])).withStatus 0, .next)
    | [] => some (s.withStatus 1, .next)
  | _ => none

end Conformance.Shell

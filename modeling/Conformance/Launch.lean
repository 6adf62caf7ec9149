import Conformance.Runner
import Conformance.Shell.Evaluation

/-!
# Starting the compiler

The compiler is started with the path of a fixture as its only argument, with nothing to read and
with both its output descriptors on one pipe, so that its output is one text in the order of
writing. It must be an executable file: the shell, or a script whose first line names its
interpreter. A script may be interpreted by another script, to a certain depth.

Only the program as a whole starts a compiler in this way, when it is run from the command line. All
that is said about runs is said of any `Compiler`.
-/

namespace Conformance.Launch

/-- The content of the file that is the shell. -/
def shellImage : Bytes := 0x7F :: Utf8.encode "ELF shell"

/-- The directories in which a program without a slash in its name is looked for. -/
def searchPath : List Path := [.ofText "/usr/local/bin", .ofText "/usr/bin", .ofText "/bin"]

def programPath (w : World) (program : Path) : Path :=
  if program.bytes.contains Path.slash || program.bytes = [] then program
  else ((searchPath.map (·.join program)).find? w.isFile).getD program

def executable (w : World) (program : Path) : Except FileError Bytes :=
  match w.find true program with
  | .error e => .error e
  | .ok (_, .file content true) => .ok content
  | .ok (_, _) => .error .permissionDenied

def isBlank (b : UInt8) : Bool := b == 0x20 || b == 0x09

/-- The interpreter that the first line of a script names, and the argument given there. -/
def interpreter? (content : Bytes) : Option (Path × List Bytes) :=
  match content with
  | 0x23 :: 0x21 :: rest =>
    let line := (rest.takeWhile (· != 0x0A)).dropWhile isBlank
    let name := line.takeWhile (!isBlank ·)
    let argument := (((line.drop name.length).dropWhile isBlank).reverse.dropWhile isBlank).reverse
    if name = [] then none
    else some (⟨name⟩, if argument = [] then [] else [argument])
  | _ => none

/-- Runs the shell with arguments: a script and what is handed to it. Options are passed over. -/
def runShell (w : World) (program : Path) (arguments : List Bytes) : Shell.Result :=
  match arguments.dropWhile fun a => a.head? == some 0x2D with
  | [] => ⟨some 0, []⟩
  | script :: rest =>
    match w.contentOf ⟨script⟩ with
    | .ok content => Shell.runScript w script rest content
    | .error .isDirectory => ⟨some 0, []⟩
    | .error e =>
      let problem := if e = .notFound then "No such file" else (e.numbered?.map (·.2)).getD ""
      ⟨some 2, program.bytes ++ Utf8.encode ": 0: cannot open " ++ script ++
        Utf8.encode (": " ++ problem ++ "\n")⟩

/-- How deep interpreters may be scripts themselves. -/
def maxInterpreters : Nat := 5

def start (w : World) : Nat → Path → List Bytes → Except FileError Shell.Result
  | depth, program, arguments =>
    match executable w program with
    | .error e => .error e
    | .ok content =>
      if content = shellImage then .ok (runShell w program arguments)
      else match interpreter? content with
        | none => .error .notExecutable
        | some (interpreter, given) =>
          match depth with
          | 0 => .error .tooManyLinks
          | depth + 1 => start w depth interpreter (given ++ program.bytes :: arguments)

def reply (w : World) (compiler fixture : Path) : Reply :=
  if compiler.bytes.contains 0 || fixture.bytes.contains 0 then
    .notStarted "nul byte found in provided data"
  else match start w maxInterpreters (programPath w compiler) [fixture.bytes] with
    | .error e => .notStarted e.message
    | .ok result => .exited (result.status.map fun n => .ofNat n) (Utf8.decodeLossy result.output)

def spawningEvent (compiler fixture : Path) : Log.Event :=
  Log.debug .launch ("Spawning " ++ compiler.display ++ " " ++ fixture.display)

def respond (w : World) (compiler fixture : Path) : Response :=
  ⟨reply w compiler fixture, 0, [spawningEvent compiler fixture]⟩

end Conformance.Launch

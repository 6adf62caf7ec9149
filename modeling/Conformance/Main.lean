import Conformance.Program
import Conformance.World.Description

/-!
# The command

The command reads the description of a world from standard input and runs the program in it on the
arguments it was given. It prints what the program prints and exits as the program does.
-/

namespace Conformance.Main

partial def readAll (stream : IO.FS.Stream) (soFar : String) : IO String := do
  let line ← stream.getLine
  if line.isEmpty then return soFar else readAll stream (soFar ++ line)

def host : RunEnvironment := ⟨"linux", "x86_64", RunEnvironment.currentVersion⟩

def usage : String := "Usage: flang-conformance [-v] run|list|env [OPTIONS]"

/-- Runs the program on arguments in a described world. -/
def run (arguments : List String) (description : String) : IO UInt32 := do
  match World.read? description with
  | none =>
    IO.eprintln "The world on standard input cannot be read"
    return 1
  | some w =>
    let compiler := fun binary => Compiler.ofFunction (Launch.respond w binary)
    match Program.run w {} host compiler () (arguments.map Utf8.encode) with
    | .error e =>
      if e.exitCode = 0 then IO.println usage else IO.eprintln usage
      return .ofNat e.exitCode
    | .ok ending =>
      IO.print ending.stdout
      IO.eprint ending.stderr
      return .ofNat ending.exitCode

end Conformance.Main

def main (arguments : List String) : IO UInt32 := do
  Conformance.Main.run arguments (← Conformance.Main.readAll (← IO.getStdin) "")

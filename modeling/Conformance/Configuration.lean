import Conformance.Log
import Conformance.World

/-!
# Configuration of a run

A run needs the root of the suite, which must be a directory, and the compiler under test, which
must be a file. The root is checked first. Both are made absolute, so that they mean the same from
any working directory; links in them are left alone.
-/

namespace Conformance

inductive ConfigurationError where
  | unset (var : String)
  | notADirectory (var : String) (path : Path)
  | notAFile (var : String) (path : Path)
  /-- The working directory has no path. -/
  | noWorkingDirectory (e : FileError)
deriving DecidableEq, Repr

def ConfigurationError.message : ConfigurationError → String
  | .unset var => "Set the " ++ var ++ " environment variable"
  | .notADirectory var path =>
    "The " ++ var ++ " environment variable must point to a directory (got " ++ path.display ++ ")"
  | .notAFile var path =>
    "The " ++ var ++ " environment variable must point to a file (got " ++ path.display ++ ")"
  | .noWorkingDirectory e => "Failed to resolve working directory: " ++ e.message

structure Configuration where
  suiteRoot : Path
  compilerBinary : Path
deriving DecidableEq, Repr

namespace Configuration

def absolute (w : World) (p : Path) : Except ConfigurationError Path :=
  (w.absolutize p).mapError .noWorkingDirectory

def resolveRoot (w : World) : Option Path → Except ConfigurationError Path
  | none => .error (.unset suiteRootVar)
  | some p => if w.isDirectory p then absolute w p else .error (.notADirectory suiteRootVar p)

def resolveCompiler (w : World) : Option Path → Except ConfigurationError Path
  | none => .error (.unset compilerBinaryVar)
  | some p => if w.isFile p then absolute w p else .error (.notAFile compilerBinaryVar p)

/-- Checks both values, the root first. -/
def resolve (w : World) (suiteRoot compilerBinary : Option Path) :
    Except ConfigurationError Configuration :=
  match resolveRoot w suiteRoot with
  | .error e => .error e
  | .ok root =>
    match resolveCompiler w compilerBinary with
    | .error e => .error e
    | .ok compiler => .ok ⟨root, compiler⟩

def ofEnvironment (w : World) : Except ConfigurationError Configuration :=
  resolve w w.environment.suiteRoot? w.environment.compilerBinary?

def rootOfEnvironment (w : World) : Except ConfigurationError Path :=
  resolveRoot w w.environment.suiteRoot?

def event (c : Configuration) : Log.Event :=
  Log.debug .configuration ("Resolved suite root " ++ c.suiteRoot.display ++ " and compiler " ++
    c.compilerBinary.display)

def events : Except ConfigurationError Configuration → List Log.Event
  | .ok c => [c.event]
  | .error _ => []

end Configuration

end Conformance

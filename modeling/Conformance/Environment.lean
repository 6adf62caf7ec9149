import Conformance.Path

/-!
# Environment variables

The environment maps names to byte strings. The runner reads two variables, and takes an empty value
for an unset one. A list of changes can be applied for good, or for as long as a guard is kept: a
guard remembers what the changed variables were before, as text, and puts it back in reverse order.
A value that is not text is not remembered, so its variable ends up unset.
-/

namespace Conformance

def suiteRootVar : String := "TEST_SUITE_ROOT"

def compilerBinaryVar : String := "COMPILER_BINARY"

structure Environment where
  vars : List (String × Bytes)
deriving DecidableEq, Repr, Inhabited

namespace Environment

def empty : Environment := ⟨[]⟩

def get? (env : Environment) (name : String) : Option Bytes := env.vars.lookup name

def unset (env : Environment) (name : String) : Environment :=
  ⟨env.vars.filter (·.1 != name)⟩

def set (env : Environment) (name : String) (value : Bytes) : Environment :=
  ⟨(name, value) :: (env.unset name).vars⟩

/-- A change of one variable: a new value, or none to unset it. -/
structure Change where
  name : String
  value : Option String
deriving DecidableEq, Repr

namespace Change

def suiteRoot (value : String) : Change := ⟨suiteRootVar, some value⟩

def compilerBinary (value : String) : Change := ⟨compilerBinaryVar, some value⟩

def unset (name : String) : Change := ⟨name, none⟩

end Change

def change (env : Environment) (c : Change) : Environment :=
  match c.value with
  | some value => env.set c.name (Utf8.encode value)
  | none => env.unset c.name

def apply (env : Environment) (changes : List Change) : Environment := changes.foldl change env

/-- What changed variables were before, in the order of the changes. -/
structure Guard where
  previous : List Change
deriving DecidableEq, Repr

/-- The guard of a list of changes: what each variable holds now, as far as it is text. -/
def guard (env : Environment) (changes : List Change) : Guard :=
  ⟨changes.map fun c => ⟨c.name, (env.get? c.name).bind Utf8.decode?⟩⟩

def applyScoped (env : Environment) (changes : List Change) : Guard × Environment :=
  (env.guard changes, env.apply changes)

/-- Puts back what a guard remembers, the last change first. -/
def restore (env : Environment) (g : Guard) : Environment := env.apply g.previous.reverse

/-- The path in a variable. An empty value counts as unset. -/
def path? (env : Environment) (name : String) : Option Path :=
  match env.get? name with
  | some (b :: bs) => some ⟨b :: bs⟩
  | _ => none

def suiteRoot? (env : Environment) : Option Path := env.path? suiteRootVar

def compilerBinary? (env : Environment) : Option Path := env.path? compilerBinaryVar

/-- Whether either variable is set. -/
def hasAny (env : Environment) : Bool := env.suiteRoot?.isSome || env.compilerBinary?.isSome

end Environment

end Conformance

import Conformance.Shell.Arithmetic
import Conformance.Shell.State

/-!
# Expansion of words

A word becomes zero or more texts when it is used: its expansions are carried out, and what they
give is split at blanks where it is not quoted. Patterns are made of characters, `?`, `*` and sets
in brackets. The shell serves runs from the command line only (`Launch`).
-/

namespace Conformance.Shell

def inSet (c : Char) : List Char → Bool
  | a :: '-' :: b :: r => (a ≤ c && c ≤ b) || inSet c r
  | a :: r => a == c || inSet c r
  | [] => false

/-- Reads a set behind its opening bracket: whether it is negated, its members, and the pattern
behind it. -/
def set? (p : List Char) : Option (Bool × List Char × List Char) :=
  let negated := p.head? == some '!' || p.head? == some '^'
  let p := if negated then p.drop 1 else p
  match p with
  | ']' :: r => (upTo ']' r).map fun (members, rest) => (negated, ']' :: members, rest)
  | p => (upTo ']' p).map fun (members, rest) => (negated, members, rest)

/-- Whether a text matches a pattern; the first argument bounds the number of steps. -/
def matchesFrom : Nat → List Char → List Char → Bool
  | 0, _, _ => false
  | _, [], cs => cs.isEmpty
  | fuel + 1, '*' :: p, cs =>
    matchesFrom fuel p cs ||
      match cs with
      | [] => false
      | _ :: r => matchesFrom fuel ('*' :: p) r
  | fuel + 1, '?' :: p, _ :: r => matchesFrom fuel p r
  | fuel + 1, '[' :: p, c :: r =>
    match set? p with
    | some (negated, members, rest) => inSet c members != negated && matchesFrom fuel rest r
    | none => c == '[' && matchesFrom fuel p r
  | fuel + 1, a :: p, c :: r => a == c && matchesFrom fuel p r
  | _, _ :: _, [] => false

def matchesPattern (pattern cs : List Char) : Bool :=
  matchesFrom (2 * (pattern.length + cs.length) + 2) pattern cs

/-- A text without what matches a pattern at its start or end, as short or as long as can be. -/
def trim (atEnd longest : Bool) (pattern value : List Char) : List Char :=
  let lengths := List.range (value.length + 1)
  let cut := fun n => value.length - n
  let hit := (if longest then lengths.reverse else lengths).find? fun n =>
    matchesPattern pattern (if atEnd then value.drop (cut n) else value.take n)
  match hit with
  | some n => if atEnd then value.take (cut n) else value.drop n
  | none => value

/-- Words in the making: those that are finished, last first, and the one that is begun. -/
structure Fields where
  done : List (List Char) := []
  current : Option (List Char) := none

namespace Fields

def add (f : Fields) (c : Char) : Fields := { f with current := some (f.current.getD [] ++ [c]) }

def addAll (f : Fields) (cs : List Char) : Fields :=
  { f with current := some (f.current.getD [] ++ cs) }

def cut (f : Fields) : Fields :=
  match f.current with
  | some w => ⟨w :: f.done, none⟩
  | none => f

def split (f : Fields) (cs : List Char) : Fields :=
  cs.foldl (fun f c => if isBlank c || c == '\n' then f.cut else f.add c) f

/-- A text that is split at its blanks unless it is quoted. -/
def expand (f : Fields) (quoted : Bool) (cs : List Char) : Fields :=
  if quoted then f.addAll cs else f.split cs

/-- Texts that become a word each. -/
def each (f : Fields) : List (List Char) → Fields
  | [] => f
  | [w] => f.addAll w
  | w :: ws => each (f.addAll w).cut ws

def toList (f : Fields) : List (List Char) := f.cut.done.reverse

end Fields

/-- The value of a parameter, if it is set (and not empty, if that counts as well). -/
def settled? (s : State) (name : String) (orEmpty : Bool) : Option (List Char) :=
  (parameter? s name).filter fun value => !(orEmpty && value.isEmpty)

/-- Adds a part of a word. The output of a script is given by `run`. -/
def addPart (s : State) (run : List Char → List Char) (f : Fields) : Part → Fields
  | .char c _ => f.add c
  | .quotes => f.addAll []
  | .parameter name quoted =>
    if name == "@" && quoted then f.each s.arguments
    else f.expand quoted ((parameter? s name).getD [])
  | .length name => f.addAll (Nat.toDigits 10 ((parameter? s name).getD []).length)
  | .fallback name orEmpty other quoted => f.expand quoted ((settled? s name orEmpty).getD other)
  | .instead name orEmpty other quoted =>
    f.expand quoted (if (settled? s name orEmpty).isSome then other else [])
  | .trimmed name atEnd longest pattern quoted =>
    f.expand quoted (trim atEnd longest pattern ((parameter? s name).getD []))
  | .arithmetic expression =>
    let lookup := fun name => (parameter? s name).getD []
    match Arithmetic.evaluate? lookup expression with
    | some n => f.addAll (Decimal.intText n.toInt).toList
    | none => f
  | .output script quoted =>
    f.expand quoted ((run script).reverse.dropWhile (· == '\n')).reverse

def expand (s : State) (run : List Char → List Char) (w : Word) : List (List Char) :=
  (w.foldl (addPart s run) {}).toList

/-- A part of a word that is not split. -/
def Part.whole : Part → Part
  | .parameter name _ => .parameter name true
  | .fallback name orEmpty other _ => .fallback name orEmpty other true
  | .instead name orEmpty other _ => .instead name orEmpty other true
  | .trimmed name atEnd longest pattern _ => .trimmed name atEnd longest pattern true
  | .output script _ => .output script true
  | p => p

/-- The last script whose output a word uses. -/
def lastScript? (w : Word) : Option (List Char) := w.reverse.findSome? fun
  | .output script _ => some script
  | _ => none

/-- The text that a word becomes where it is not split. -/
def expandText (s : State) (run : List Char → List Char) (w : Word) : List Char :=
  spaced (expand s run (w.map Part.whole))

end Conformance.Shell

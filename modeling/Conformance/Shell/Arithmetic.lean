import Conformance.Shell.Word
import Conformance.Yaml.Resolution

/-!
# Arithmetic in shell scripts

Expressions over signed machine words with the usual operators and binding strengths. Results wrap
around, and a literal out of range is the largest word. A name stands for the number its variable
holds, zero if it holds none. The shell serves runs from the command line only (`Launch`).
-/

namespace Conformance.Shell.Arithmetic

inductive Symbol where
  | number (n : Int64)
  | operator (s : String)
deriving DecidableEq, Repr

/-- The operators, longer ones first. -/
def operators : List String :=
  ["||", "&&", "==", "!=", "<=", ">=", "<<", ">>", "<", ">", "+", "-", "*", "/", "%", "&", "|", "^",
    "!", "~", "(", ")"]

/-- The word of a number, the largest one if there is none. -/
def clamped (n : Nat) : Int64 := .ofInt (min n Int64.maxValue.toInt)

/-- The number of a text in base 10, 16 or 8. -/
def number? : List Char → Option Int64
  | '0' :: 'x' :: r => (Yaml.digits? 16 r).map clamped
  | '0' :: c :: r => (Yaml.digits? 8 (c :: r)).map clamped
  | cs => (Yaml.digits? 10 cs).map clamped

def valueOf (cs : List Char) : Int64 :=
  match cs with
  | '-' :: r => -((number? r).getD 0)
  | cs => (number? cs).getD 0

/-- Cuts an expression into symbols; the first argument bounds their number. -/
def symbols? (lookup : String → List Char) : Nat → List Char → Option (List Symbol)
  | 0, _ => none
  | _, [] => some []
  | fuel + 1, c :: r =>
    if isBlank c || c == '\n' then symbols? lookup fuel r
    else if c == '$' then symbols? lookup fuel r
    else if c.isDigit then do
      let digits := (c :: r).takeWhile isNameChar
      let n ← number? digits
      return .number n :: (← symbols? lookup fuel ((c :: r).dropWhile isNameChar))
    else if isNameStart c then do
      let name := (c :: r).takeWhile isNameChar
      return .number (valueOf (lookup (String.ofList name))) ::
        (← symbols? lookup fuel ((c :: r).dropWhile isNameChar))
    else do
      let (s, rest) ← startingWith? operators (c :: r)
      return .operator s :: (← symbols? lookup fuel rest)

def strength? (s : String) : Option Nat :=
  [("||", 1), ("&&", 2), ("|", 3), ("^", 4), ("&", 5), ("==", 6), ("!=", 6), ("<", 7), ("<=", 7),
    (">", 7), (">=", 7), ("<<", 8), (">>", 8), ("+", 9), ("-", 9), ("*", 10), ("/", 10),
    ("%", 10)].lookup s

def ofBool (b : Bool) : Int64 := if b then 1 else 0

/-- The value of an operator. Division by zero has none. -/
def combine? (s : String) (a b : Int64) : Option Int64 :=
  match s with
  | "||" => some (ofBool (a != 0 || b != 0))
  | "&&" => some (ofBool (a != 0 && b != 0))
  | "|" => some (a ||| b)
  | "^" => some (a ^^^ b)
  | "&" => some (a &&& b)
  | "==" => some (ofBool (a == b))
  | "!=" => some (ofBool (a != b))
  | "<" => some (ofBool (a < b))
  | "<=" => some (ofBool (a ≤ b))
  | ">" => some (ofBool (b < a))
  | ">=" => some (ofBool (b ≤ a))
  | "<<" => some (a <<< b)
  | ">>" => some (a >>> b)
  | "+" => some (a + b)
  | "-" => some (a - b)
  | "*" => some (a * b)
  | "/" => if b = 0 then none else some (a / b)
  | "%" => if b = 0 then none else some (a % b)
  | _ => none

mutual

def operand? : Nat → List Symbol → Option (Int64 × List Symbol)
  | 0, _ => none
  | fuel + 1, ss =>
    match ss with
    | .number n :: rest => some (n, rest)
    | .operator "-" :: rest => (operand? fuel rest).map fun (n, rest) => (-n, rest)
    | .operator "+" :: rest => operand? fuel rest
    | .operator "!" :: rest => (operand? fuel rest).map fun (n, rest) => (ofBool (n == 0), rest)
    | .operator "~" :: rest => (operand? fuel rest).map fun (n, rest) => (~~~n, rest)
    | .operator "(" :: rest => do
      let (n, rest) ← expression? fuel 0 rest
      match rest with
      | .operator ")" :: rest => some (n, rest)
      | _ => none
    | _ => none

/-- Reads an expression of operators that bind more strongly than `least`. -/
def expression? : Nat → Nat → List Symbol → Option (Int64 × List Symbol)
  | 0, _, _ => none
  | fuel + 1, least, ss => do
    let (a, rest) ← operand? fuel ss
    continue? fuel least a rest

/-- Reads the operators behind an operand. -/
def continue? : Nat → Nat → Int64 → List Symbol → Option (Int64 × List Symbol)
  | 0, _, _, _ => none
  | fuel + 1, least, a, ss =>
    match ss with
    | .operator s :: rest =>
      match strength? s with
      | some k =>
        if least < k then do
          let (b, rest) ← expression? fuel k rest
          continue? fuel least (← combine? s a b) rest
        else some (a, ss)
      | none => some (a, ss)
    | ss => some (a, ss)

end

def evaluate? (lookup : String → List Char) (cs : List Char) : Option Int64 := do
  let ss ← symbols? lookup (cs.length + 1) cs
  if ss.isEmpty then some 0
  else
    let (n, rest) ← expression? (4 * ss.length + 4) 0 ss
    if rest.isEmpty then some n else none

end Conformance.Shell.Arithmetic

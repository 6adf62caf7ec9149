import Conformance.Number.Decimal

/-!
# What plain scalars stand for

A scalar without quotes stands for null, a truth value or a number if it is spelled like one, and
for a text otherwise. Whole numbers may have a sign and may be written in base 16, 8 or 2 behind
`0x`, `0o` or `0b`. Digits behind a leading zero are a text.
-/

namespace Conformance.Yaml

def isNullText (s : String) : Bool := s == "null" || s == "Null" || s == "NULL" || s == "~"

def boolOfText? (s : String) : Option Bool :=
  [("true", true), ("True", true), ("TRUE", true),
    ("false", false), ("False", false), ("FALSE", false)].lookup s

def digitValue? (c : Char) : Option Nat :=
  if '0' ≤ c && c ≤ '9' then some (c.toNat - '0'.toNat)
  else if 'a' ≤ c && c ≤ 'f' then some (c.toNat - 'a'.toNat + 10)
  else if 'A' ≤ c && c ≤ 'F' then some (c.toNat - 'A'.toNat + 10)
  else none

/-- The number spelled by digits of a base, read on from `n`. -/
def digitsFrom? (base : Nat) : Nat → List Char → Option Nat
  | n, [] => some n
  | n, c :: cs =>
    match digitValue? c with
    | some d => if d < base then digitsFrom? base (n * base + d) cs else none
    | none => none

def digits? (base : Nat) : List Char → Option Nat
  | [] => none
  | cs => digitsFrom? base 0 cs

def isSign (c : Char) : Bool := c == '+' || c == '-'

def dropSign : List Char → List Char
  | c :: cs => if isSign c then cs else c :: cs
  | [] => []

/-- Digits behind a leading zero, with or without a sign. -/
def isZeroPadded (cs : List Char) : Bool :=
  match dropSign cs with
  | '0' :: c :: r => (c :: r).all Decimal.isDigit
  | _ => false

/-- The number of a text in another base than ten. -/
def radix? : List Char → Option Nat
  | '0' :: 'x' :: r => digits? 16 r
  | '0' :: 'o' :: r => digits? 8 r
  | '0' :: 'b' :: r => digits? 2 r
  | _ => none

def unsigned? (cs : List Char) : Option Nat :=
  let body := match cs with
    | '+' :: r => r
    | r => r
  match radix? body with
  | some n => some n
  | none => if isZeroPadded cs then none else digits? 10 body

def negative? : List Char → Option Nat
  | '-' :: r =>
    match radix? r with
    | some n => some n
    | none => if isZeroPadded r then none else digits? 10 r
  | _ => none

def signed? (cs : List Char) : Option Int :=
  match unsigned? cs with
  | some n => some n
  | none => (negative? cs).map fun n => -(n : Int)

/-- A decimal fraction: its digits without the point, and the power of ten they are multiplied by.
-/
structure Scientific where
  digits : List Char
  exponent : Int
deriving DecidableEq, Repr

def scientificExponent? : List Char → Option Int
  | [] => some 0
  | c :: r =>
    if c == 'e' || c == 'E' then
      match r with
      | '-' :: r => (digits? 10 r).map fun n => -(n : Int)
      | '+' :: r => (digits? 10 r).map fun n => (n : Int)
      | r => (digits? 10 r).map fun n => (n : Int)
    else none

/-- Reads a decimal fraction without a sign. It has a digit in front of its point or behind. -/
def scientific? (cs : List Char) : Option Scientific :=
  let whole := cs.takeWhile Decimal.isDigit
  let rest := cs.dropWhile Decimal.isDigit
  let (part, rest) := match rest with
    | '.' :: r => (r.takeWhile Decimal.isDigit, r.dropWhile Decimal.isDigit)
    | r => ([], r)
  if whole = [] ∧ part = [] then none
  else (scientificExponent? rest).map fun e => ⟨whole ++ part, e - part.length⟩

/-- The least number that a double-precision float rounds to infinity. -/
def floatLimit : Nat := 1 <<< 1024 - 1 <<< 970

/-- Whether a decimal fraction is in the range of double-precision floats. Numbers of up to 308
digits are, numbers of more than 310 digits are not, and between them the value decides. -/
def Scientific.isFinite (x : Scientific) : Bool :=
  let digits := x.digits.dropWhile (· == '0')
  let size : Int := digits.length + x.exponent
  if digits = [] || size ≤ 308 then true
  else if 310 < size then false
  else Decimal.value digits * Nat.pow 10 x.exponent.toNat <
    floatLimit * Nat.pow 10 (-x.exponent).toNat

def isFloatText (cs : List Char) : Bool :=
  let s := String.ofList cs
  s == ".inf" || s == ".Inf" || s == ".INF" || s == "+.inf" || s == "+.Inf" || s == "+.INF" ||
    s == "-.inf" || s == "-.Inf" || s == "-.INF" || s == ".nan" || s == ".NaN" || s == ".NAN" ||
    ((scientific? (dropSign cs)).any Scientific.isFinite && !isZeroPadded cs)

/-- Whether a text is spelled as a whole number of up to 128 bits. -/
def isIntText (cs : List Char) : Bool :=
  (unsigned? cs).any (· < 1 <<< 128) || (negative? cs).any (· ≤ 1 <<< 127)

/-- Whether a text without quotes might be taken for something else than a text. -/
def isTaken (s : String) : Bool :=
  s == "" || isNullText s || (boolOfText? s).isSome || isIntText s.toList || isFloatText s.toList ||
    isZeroPadded s.toList

end Conformance.Yaml

import Conformance.Number.Decimal

/-!
# Reading JSON

`read?` reads one JSON value with nothing but blanks around it. A value keeps what later decisions
need: a number its spelling, an object its members in order with repetitions. A string is well
formed as soon as its escapes are; it denotes a text only if its surrogate escapes come in pairs
and none of its characters is a stray byte. A string without text does no harm where its value is
not looked at.

Every recursive call is made on a text that is shorter by at least one character, so the length of
the text bounds the depth (`fuel`).
-/

namespace Conformance

/-- The spelling of a number. -/
structure Json.Number where
  negative : Bool
  /-- The digits in front of the point. -/
  digits : List Char
  /-- It has neither a fraction nor an exponent. -/
  integral : Bool
deriving DecidableEq, Repr

/-- A JSON value. A string or member name that denotes no text is `none`. -/
inductive Json where
  | null
  | bool (b : Bool)
  | number (n : Json.Number)
  | string (s : Option String)
  | array (items : List Json)
  | object (members : List (Option String × Json))

namespace Json

def isBlank (c : Char) : Bool := c == ' ' || c == '\n' || c == '\t' || c == '\r'

def skipBlanks (cs : List Char) : List Char := cs.dropWhile isBlank

def hexValue? (c : Char) : Option Nat :=
  if '0' ≤ c && c ≤ '9' then some (c.toNat - '0'.toNat)
  else if 'a' ≤ c && c ≤ 'f' then some (c.toNat - 'a'.toNat + 10)
  else if 'A' ≤ c && c ≤ 'F' then some (c.toNat - 'A'.toNat + 10)
  else none

def hex4? (a b c d : Char) : Option Nat := do
  return ((← hexValue? a) * 16 + (← hexValue? b)) * 256 + (← hexValue? c) * 16 + (← hexValue? d)

/-- What stands in a string: a character, a UTF-16 unit given by number, or a stray byte. -/
inductive Element where
  | char (c : Char)
  | unit (n : Nat)
  | stray
deriving DecidableEq, Repr

def shortEscape? : Char → Option Char
  | '"' => some '"'
  | '\\' => some '\\'
  | '/' => some '/'
  | 'b' => some '\x08'
  | 'f' => some '\x0c'
  | 'n' => some '\n'
  | 'r' => some '\r'
  | 't' => some '\t'
  | _ => none

/-- Reads the elements of a string up to its closing quote, and the text behind the quote. -/
def elements? (isStray : Char → Bool) : List Char → Option (List Element × List Char)
  | [] => none
  | '"' :: r => some ([], r)
  | '\\' :: 'u' :: a :: b :: c :: d :: r => do
    let n ← hex4? a b c d
    let (es, rest) ← elements? isStray r
    return (.unit n :: es, rest)
  | '\\' :: c :: r => do
    let e ← shortEscape? c
    let (es, rest) ← elements? isStray r
    return (.char e :: es, rest)
  | c :: r =>
    if c.toNat < 0x20 || c == '\\' then none
    else do
      let (es, rest) ← elements? isStray r
      return ((if isStray c then .stray else .char c) :: es, rest)

/-- A unit that opens a surrogate pair. -/
def isHigh (n : Nat) : Bool := 0xD800 ≤ n && n < 0xDC00

/-- A unit that closes a surrogate pair. -/
def isLow (n : Nat) : Bool := 0xDC00 ≤ n && n < 0xE000

/-- The characters that elements denote: two units of a surrogate pair are one character, any other
surrogate denotes none. -/
def assemble? : List Element → Option (List Char)
  | [] => some []
  | .char c :: es => (assemble? es).map (c :: ·)
  | .stray :: _ => none
  | .unit n :: es =>
    if isHigh n then
      match es with
      | .unit m :: es =>
        if isLow m then
          (assemble? es).map (Char.ofNat (0x10000 + (n - 0xD800) * 1024 + (m - 0xDC00)) :: ·)
        else none
      | _ => none
    else if isLow n then none
    else (assemble? es).map (Char.ofNat n :: ·)

def string? (isStray : Char → Bool) (cs : List Char) : Option (Option String × List Char) :=
  (elements? isStray cs).map fun (es, rest) => ((assemble? es).map String.ofList, rest)

def digits? (cs : List Char) : Option (List Char × List Char) :=
  match cs.takeWhile Decimal.isDigit with
  | [] => none
  | ds => some (ds, cs.dropWhile Decimal.isDigit)

/-- Reads digits without a leading zero. -/
def wholeDigits? (cs : List Char) : Option (List Char × List Char) :=
  match digits? cs with
  | some ('0' :: _ :: _, _) => none
  | other => other

def fraction? : List Char → Option (Bool × List Char)
  | '.' :: r => (digits? r).map fun (_, rest) => (true, rest)
  | cs => some (false, cs)

def exponent? : List Char → Option (Bool × List Char)
  | c :: r =>
    if c == 'e' || c == 'E' then
      let r := match r with
        | '+' :: r => r
        | '-' :: r => r
        | r => r
      (digits? r).map fun (_, rest) => (true, rest)
    else some (false, c :: r)
  | [] => some (false, [])

def number? (cs : List Char) : Option (Number × List Char) := do
  let (negative, cs) := match cs with
    | '-' :: r => (true, r)
    | cs => (false, cs)
  let (digits, cs) ← wholeDigits? cs
  let (hasFraction, cs) ← fraction? cs
  let (hasExponent, cs) ← exponent? cs
  return (⟨negative, digits, !hasFraction && !hasExponent⟩, cs)

mutual

/-- Reads one value, leading blanks included. -/
def value? (isStray : Char → Bool) : Nat → List Char → Option (Json × List Char)
  | 0, _ => none
  | fuel + 1, cs =>
    match skipBlanks cs with
    | '{' :: r =>
      match skipBlanks r with
      | '}' :: rest => some (.object [], rest)
      | r => (members? isStray fuel r).map fun (ms, rest) => (.object ms, rest)
    | '[' :: r =>
      match skipBlanks r with
      | ']' :: rest => some (.array [], rest)
      | r => (items? isStray fuel r).map fun (xs, rest) => (.array xs, rest)
    | '"' :: r => (string? isStray r).map fun (s, rest) => (.string s, rest)
    | 't' :: 'r' :: 'u' :: 'e' :: rest => some (.bool true, rest)
    | 'f' :: 'a' :: 'l' :: 's' :: 'e' :: rest => some (.bool false, rest)
    | 'n' :: 'u' :: 'l' :: 'l' :: rest => some (.null, rest)
    | cs => (number? cs).map fun (n, rest) => (.number n, rest)

def items? (isStray : Char → Bool) : Nat → List Char → Option (List Json × List Char)
  | 0, _ => none
  | fuel + 1, cs =>
    match value? isStray fuel cs with
    | none => none
    | some (x, cs) =>
      match skipBlanks cs with
      | ',' :: r => (items? isStray fuel r).map fun (xs, rest) => (x :: xs, rest)
      | ']' :: rest => some ([x], rest)
      | _ => none

def members? (isStray : Char → Bool) :
    Nat → List Char → Option (List (Option String × Json) × List Char)
  | 0, _ => none
  | fuel + 1, cs =>
    match skipBlanks cs with
    | '"' :: r =>
      match string? isStray r with
      | none => none
      | some (k, cs) =>
        match skipBlanks cs with
        | ':' :: r =>
          match value? isStray fuel r with
          | none => none
          | some (x, cs) =>
            match skipBlanks cs with
            | ',' :: r => (members? isStray fuel r).map fun (ms, rest) => ((k, x) :: ms, rest)
            | '}' :: rest => some ([(k, x)], rest)
            | _ => none
        | _ => none
    | _ => none

end

/-- Reads a text that is one value, taking the characters that satisfy `isStray` for stray bytes. -/
def readWith? (isStray : Char → Bool) (cs : List Char) : Option Json :=
  match value? isStray (2 * cs.length + 2) cs with
  | some (x, rest) => if skipBlanks rest = [] then some x else none
  | none => none

def read? (s : String) : Option Json := readWith? (fun _ => false) s.toList

end Json

end Conformance

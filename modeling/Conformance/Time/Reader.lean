import Conformance.Time

/-!
# Reading instants

The notation of RFC 3339 is read with some latitude: blanks may stand in front of every number and
around the marks between numbers, numbers may have fewer digits, a blank may stand for the `T`, and
digits of the fraction behind the ninth are dropped. The offset from UTC is `Z`, `UTC`, or a sign
with hours and minutes. The fields are checked against the calendar, and a second of 60 is a leap
second in whatever minute it stands.
-/

namespace Conformance.Instant

/-- A blank of any script. -/
def isSpace (c : Char) : Bool :=
  let n := c.toNat
  (0x09 ≤ n && n ≤ 0x0D) || n == 0x20 || n == 0x85 || n == 0xA0 || n == 0x1680 ||
    (0x2000 ≤ n && n ≤ 0x200A) || n == 0x2028 || n == 0x2029 || n == 0x202F || n == 0x205F ||
    n == 0x3000

def skipSpaces (cs : List Char) : List Char := cs.dropWhile isSpace

/-- Reads a number of at least one digit, taking all digits. -/
def number? (cs : List Char) : Option (Nat × List Char) :=
  match cs.takeWhile Decimal.isDigit with
  | [] => none
  | ds => some (Decimal.value ds, cs.dropWhile Decimal.isDigit)

/-- Reads a number of at least one digit, taking at most `width` of them. -/
def numberUpTo? (width : Nat) (cs : List Char) : Option (Nat × List Char) :=
  match (cs.take width).takeWhile Decimal.isDigit with
  | [] => none
  | ds => some (Decimal.value ds, cs.drop ds.length)

/-- Reads a year behind blanks: any number of digits behind a sign, else at most four. -/
def year? (cs : List Char) : Option (Int × List Char) :=
  match skipSpaces cs with
  | '-' :: r => (number? r).map fun (n, rest) => (-n, rest)
  | '+' :: r => (number? r).map fun (n, rest) => (n, rest)
  | cs => (numberUpTo? 4 cs).map fun (n, rest) => (n, rest)

/-- Reads a number of at most two digits behind blanks. -/
def pair? (cs : List Char) : Option (Nat × List Char) := numberUpTo? 2 (skipSpaces cs)

def mark? (mark : Char) (cs : List Char) : Option (List Char) :=
  match skipSpaces cs with
  | c :: r => if c = mark then some r else none
  | [] => none

/-- Reads a fraction of a second as nanoseconds, zero if there is none. -/
def fraction? : List Char → Option (Nat × List Char)
  | '.' :: r =>
    match numberUpTo? 9 r with
    | none => none
    | some (n, rest) =>
      some (n * Nat.pow 10 (9 - (r.length - rest.length)), rest.dropWhile Decimal.isDigit)
  | cs => some (0, cs)

def twoDigits? : List Char → Option (Nat × List Char)
  | a :: b :: r =>
    if Decimal.isDigit a && Decimal.isDigit b then some (Decimal.value [a, b], r) else none
  | _ => none

/-- Reads the sign of an offset; a true minus sign counts as a hyphen. -/
def sign? : List Char → Option (Int × List Char)
  | '+' :: r => some (1, r)
  | '-' :: r => some (-1, r)
  | '\u2212' :: r => some (-1, r)
  | _ => none

def offset? (cs : List Char) : Option (Int × List Char) :=
  match (cs.take 3).map Char.toLower, cs with
  | ['u', 't', 'c'], cs => some (0, cs.drop 3)
  | _, 'Z' :: r => some (0, r)
  | _, 'z' :: r => some (0, r)
  | _, cs => do
    let (sign, cs) ← sign? cs
    let (hours, cs) ← twoDigits? cs
    let (minutes, cs) ← twoDigits? (cs.dropWhile fun c => c == ':' || isSpace c)
    if minutes < 60 then some (sign * (hours * 3600 + minutes * 60), cs) else none

def ofFields? (d : Date) (hour minute second nanos : Nat) (offset : Int) : Option Instant :=
  if d.isValid && hour < 24 && minute < 60 && second ≤ 60 && offset.natAbs < 86400 then
    let (second, nanos) := if second = 60 then (59, nanos + secondNanos) else (second, nanos)
    let t : Instant :=
      ⟨d.dayNumber * daySeconds + hour * 3600 + minute * 60 + second - offset, nanos⟩
    if t.isValid then some t else none
  else none

def read? (s : String) : Option Instant := do
  let (year, cs) ← year? s.toList
  let cs ← mark? '-' cs
  let (month, cs) ← pair? cs
  let cs ← mark? '-' cs
  let (day, cs) ← pair? cs
  let cs ← match cs with
    | 'T' :: r => some r
    | 't' :: r => some r
    | ' ' :: r => some r
    | _ => none
  let (hour, cs) ← pair? cs
  let cs ← mark? ':' cs
  let (minute, cs) ← pair? cs
  let cs ← mark? ':' cs
  let (second, cs) ← pair? cs
  let (nanos, cs) ← fraction? cs
  let (offset, cs) ← offset? (skipSpaces cs)
  if skipSpaces cs = [] then ofFields? ⟨year, month, day⟩ hour minute second nanos offset else none

end Conformance.Instant

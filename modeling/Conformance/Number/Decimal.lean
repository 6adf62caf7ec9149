/-!
# Decimal text

Numbers are written in decimal with no leading zeros. `natText` and `intText` write them,
`value` reads digits back, and `roundDiv` is the one place where a quotient is rounded: to the
nearest whole number, an exact half going to the even neighbour.
-/

namespace Conformance.Decimal

def isDigit (c : Char) : Bool := '0' ≤ c && c ≤ '9'

def digitValue (c : Char) : Nat := c.toNat - '0'.toNat

/-- The number a list of digits spells, read on from `n`. -/
def valueFrom (n : Nat) (digits : List Char) : Nat :=
  digits.foldl (fun n c => n * 10 + digitValue c) n

def value (digits : List Char) : Nat := valueFrom 0 digits

def natText (n : Nat) : String := String.ofList (Nat.toDigits 10 n)

def intText : Int → String
  | .ofNat n => natText n
  | .negSucc n => "-" ++ natText (n + 1)

/-- A natural number in decimal with zeros in front up to `width` digits. -/
def paddedText (width n : Nat) : String :=
  let digits := Nat.toDigits 10 n
  String.ofList (List.replicate (width - digits.length) '0' ++ digits)

/-- The quotient rounded to the nearest whole number, a half to the even neighbour. -/
def roundDiv (num den : Nat) : Nat :=
  let q := num / den
  let twice := 2 * (num % den)
  if twice > den || (twice == den && q % 2 == 1) then q + 1 else q

end Conformance.Decimal

import Conformance.Number.Decimal

/-!
# Double-precision arithmetic on non-negative numbers

The pass rate is a quotient computed in double precision. A number is held as `sig · 2 ^ exp` with
53 significant bits, and each operation rounds its exact result once, to nearest and ties to even.
The numbers here lie far inside the exponent range, so no result is subnormal or infinite.
-/

namespace Conformance

/-- The number `sig · 2 ^ exp`. A nonzero number has 53 bits in `sig`. -/
structure Binary64 where
  sig : Nat
  exp : Int
deriving DecidableEq, Repr

namespace Binary64

def leastSig : Nat := 4503599627370496

def zero : Binary64 := ⟨0, 0⟩

/-- The numerator and denominator of `num / den / 2 ^ exp`. -/
def scaled (num den : Nat) (exp : Int) : Nat × Nat :=
  if 0 ≤ exp then (num, den <<< exp.toNat) else (num <<< (-exp).toNat, den)

/-- The exponent that gives the quotient `num / den` a whole part of 53 bits. -/
def fittingExp (num den : Nat) : Int :=
  let exp := (Nat.log2 num : Int) - Nat.log2 den - 52
  let (n, d) := scaled num den exp
  if n / d < leastSig then exp - 1 else exp

/-- The quotient `num / den · 2 ^ e`, rounded to 53 bits. -/
def ofRatio (num den : Nat) (e : Int) : Binary64 :=
  if num = 0 then zero
  else
    let exp := fittingExp num den
    let (n, d) := scaled num den exp
    let sig := Decimal.roundDiv n d
    if sig = 2 * leastSig then ⟨leastSig, exp + 1 + e⟩ else ⟨sig, exp + e⟩

def ofNat (n : Nat) : Binary64 := ofRatio n 1 0

def div (x y : Binary64) : Binary64 := ofRatio x.sig y.sig (x.exp - y.exp)

def mul (x y : Binary64) : Binary64 := ofRatio (x.sig * y.sig) 1 (x.exp + y.exp)

/-- The 64 bits of the number in the interchange format. -/
def bits (x : Binary64) : Nat :=
  if x.sig = 0 then 0 else (x.exp + 52 + 1023).toNat * leastSig + (x.sig - leastSig)

/-- The number with `places` digits behind the point, rounded once from its exact value. -/
def fixedText (places : Nat) (x : Binary64) : String :=
  let unit := Nat.pow 10 places
  let whole :=
    if 0 ≤ x.exp then (x.sig <<< x.exp.toNat) * unit
    else Decimal.roundDiv (x.sig * unit) (1 <<< (-x.exp).toNat)
  Decimal.natText (whole / unit) ++ "." ++ Decimal.paddedText places (whole % unit)

end Binary64

end Conformance

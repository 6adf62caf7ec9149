/-!
# Machine words

Counts and durations are unsigned words of 64 bits, exit codes are signed words of 32 bits. A whole
number out of the range of its word is no count and no exit code: it is refused, never wrapped.
-/

namespace Conformance.Word

/-- The unsigned word of 64 bits with a given value, if there is one. -/
def unsigned? (n : Nat) : Option UInt64 := if n < UInt64.size then some (.ofNat n) else none

def signed? (n : Int) : Option Int32 :=
  if Int32.minValue.toInt ≤ n ∧ n ≤ Int32.maxValue.toInt then some (.ofInt n) else none

end Conformance.Word

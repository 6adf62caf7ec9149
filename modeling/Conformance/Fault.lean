import Conformance.Text.Quoted
import Conformance.Number.Decimal

/-!
# Faults

A fault ends what is running without a result. Sums of machine words that do not fit are faults, so
is a demand for more permits than a semaphore can hold, and a compiler stand-in may fault by itself.
It then gives up with a `Payload`, which is a text as a rule.
-/

namespace Conformance

def maxPermits : Nat := 2305843009213693951

/-- What a compiler stand-in gives up with. -/
inductive Payload where
  | text (s : String)
  /-- A value that is no text. -/
  | other
deriving DecidableEq, Repr

def Payload.shown : Payload → String
  | .text s => s
  | .other => "Box<dyn Any>"

instance : Coe String Payload := ⟨.text⟩

instance : Coe Payload String := ⟨Payload.shown⟩

/-- Why there is no result. -/
inductive Fault where
  | addOverflow
  | tooManyPermits
  | compiler (payload : Payload)
deriving DecidableEq, Repr

def Fault.payload : Fault → Payload
  | .addOverflow => "attempt to add with overflow"
  | .tooManyPermits =>
    "a semaphore may not have more than MAX_PERMITS permits (" ++ Decimal.natText maxPermits ++ ")"
  | .compiler payload => payload

def Fault.message (e : Fault) : String := e.payload.shown

/-- The sum of two machine words, if it fits. -/
def addWords (a b : UInt64) : Except Fault UInt64 :=
  if a.toNat + b.toNat < UInt64.size then .ok (a + b) else .error .addOverflow

/-- The sum of a list of machine words from the left, if every partial sum fits. -/
def sumWords (total : UInt64) : List UInt64 → Except Fault UInt64
  | [] => .ok total
  | a :: as =>
    match addWords total a with
    | .error e => .error e
    | .ok total => sumWords total as

end Conformance

import Conformance.Json.Reader
import Conformance.Number.Word
import Conformance.Record

/-!
# Looking at JSON values

A number is a whole number only if it is spelled as one: no fraction, no exponent, and no minus
sign in front of zero. A record is an object, or an array of its fields in order. An alternative
that carries nothing is written as its name, or as an object that maps the name to null.
-/

namespace Conformance.Json

/-- The whole number a spelling denotes. -/
def Number.int? (n : Number) : Option Int :=
  let m := Decimal.value n.digits
  if !n.integral || (n.negative && m = 0) then none
  else some (if n.negative then -m else m)

def text? : Json → Option String
  | .string s => s
  | _ => none

def bool? : Json → Option Bool
  | .bool b => some b
  | _ => none

def int? : Json → Option Int
  | .number n => n.int?
  | _ => none

/-- The whole number, if it fits an unsigned 64-bit word. -/
def word? (x : Json) : Option UInt64 := do
  let n ← x.int?
  if 0 ≤ n then Word.unsigned? n.toNat else none

def int32? (x : Json) : Option Int32 := x.int?.bind Word.signed?

def isNull : Json → Bool
  | .null => true
  | _ => false

def list? : Json → Option (List Json)
  | .array items => some items
  | _ => none

/-- The name of an alternative that carries nothing. -/
def variant? : Json → Option String
  | .string s => s
  | .object [(k, .null)] => k
  | _ => none

/-- The members of an object, if all their names have text. -/
def members : List (Option String × Json) → Option (List (String × Json))
  | [] => some []
  | (some k, x) :: ms => (members ms).map ((k, x) :: ·)
  | (none, _) :: _ => none

def fields? (names : List String) (defaulted : Nat) : Json → Option (List (String × Json))
  | .object ms => members ms
  | .array items => positionalFields names defaulted items
  | _ => none

def view : View Json where
  text? := text?
  bool? := bool?
  word? := word?
  int32? := int32?
  isNull? x := some x.isNull
  list? := list?
  variant? := variant?
  fields? := fields?

end Conformance.Json

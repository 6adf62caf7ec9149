import Conformance.Text.Utf8
import Conformance.Text.Printable

/-!
# Text quoted for diagnostics

A quoted text stands between double quotes. Quotes and backslashes are escaped, the common controls
have short escapes, hidden characters are written by code point, and bytes that spell no character
are written in hexadecimal, so that different byte strings never look alike.
-/

namespace Conformance.Quoted

def lowerHex (n : Nat) : String := String.ofList (Nat.toDigits 16 n)

/-- The upper-case hexadecimal digits of a number, at least `width` of them. -/
def upperHex (width n : Nat) : String :=
  let digits := (Nat.toDigits 16 n).map Char.toUpper
  String.ofList (List.replicate (width - digits.length) '0' ++ digits)

def char (c : Char) : String :=
  if c == '\x00' then "\\0"
  else if c == '\t' then "\\t"
  else if c == '\r' then "\\r"
  else if c == '\n' then "\\n"
  else if c == '"' then "\\\""
  else if c == '\\' then "\\\\"
  else if Printable.isShown c then String.singleton c
  else "\\u\x7b" ++ lowerHex c.toNat ++ "\x7d"

def text (s : String) : String :=
  "\"" ++ String.join (s.toList.map char) ++ "\""

def piece : Utf8.Piece → String
  | .char c => char c
  | .broken bs => String.join (bs.map fun b => "\\x" ++ upperHex 2 b.toNat)

def bytes (bs : Bytes) : String :=
  "\"" ++ String.join ((Utf8.pieces bs).map piece) ++ "\""

def list (xs : List String) : String :=
  "[" ++ ", ".intercalate (xs.map text) ++ "]"

end Conformance.Quoted

import Conformance.Data
import Conformance.Text.Quoted
import Conformance.Number.Decimal

/-!
# Writing JSON

Two layouts of the same text: `compact` without any blanks, and `pretty` with one item a line and
two blanks for each level. Empty lists and records take two characters in both. A string escapes
quotes, backslashes and the controls below U+0020; everything else stands as it is.
-/

namespace Conformance.Json

def escape (c : Char) : List Char :=
  if c == '"' then ['\\', '"']
  else if c == '\\' then ['\\', '\\']
  else if c == '\x08' then ['\\', 'b']
  else if c == '\t' then ['\\', 't']
  else if c == '\n' then ['\\', 'n']
  else if c == '\x0c' then ['\\', 'f']
  else if c == '\r' then ['\\', 'r']
  else if c.toNat < 0x20 then
    ['\\', 'u', '0', '0', Nat.digitChar (c.toNat / 16), Nat.digitChar (c.toNat % 16)]
  else [c]

def quote (s : String) : String :=
  String.ofList ('"' :: s.toList.flatMap escape ++ ['"'])

/-- A value that is neither a list nor a record. -/
def atom : Data → Option String
  | .null => some "null"
  | .bool true => some "true"
  | .bool false => some "false"
  | .int n => some (Decimal.intText n)
  | .text s => some (quote s)
  | .path p => p.text?.map quote
  | .list _ => none
  | .record _ => none

mutual

/-- The text of a value without blanks. -/
def compact : Data → Chunks
  | .list items => some "[" :: compactItems items ++ [some "]"]
  | .record fields => some "\x7b" :: compactFields fields ++ [some "\x7d"]
  | .null => [atom .null]
  | .bool b => [atom (.bool b)]
  | .int n => [atom (.int n)]
  | .text s => [atom (.text s)]
  | .path p => [atom (.path p)]

def compactItems : List Data → Chunks
  | [] => []
  | [x] => compact x
  | x :: xs => compact x ++ some "," :: compactItems xs

def compactFields : List (String × Data) → Chunks
  | [] => []
  | [(k, x)] => some (quote k ++ ":") :: compact x
  | (k, x) :: fs => some (quote k ++ ":") :: compact x ++ some "," :: compactFields fs

end

/-- A line break and the blanks of a level. -/
def newline (level : Nat) : String :=
  String.ofList ('\n' :: List.replicate (2 * level) ' ')

mutual

/-- The text of a value with one item a line, standing at a level. -/
def pretty (level : Nat) : Data → Chunks
  | .list [] => [some "[]"]
  | .list items => some "[" :: prettyItems (level + 1) items ++ [some (newline level ++ "]")]
  | .record [] => [some "\x7b\x7d"]
  | .record fields =>
    some "\x7b" :: prettyFields (level + 1) fields ++ [some (newline level ++ "\x7d")]
  | .null => [atom .null]
  | .bool b => [atom (.bool b)]
  | .int n => [atom (.int n)]
  | .text s => [atom (.text s)]
  | .path p => [atom (.path p)]

def prettyItems (level : Nat) : List Data → Chunks
  | [] => []
  | [x] => some (newline level) :: pretty level x
  | x :: xs => some (newline level) :: pretty level x ++ some "," :: prettyItems level xs

def prettyFields (level : Nat) : List (String × Data) → Chunks
  | [] => []
  | [(k, x)] => some (newline level ++ quote k ++ ": ") :: pretty level x
  | (k, x) :: fs =>
    some (newline level ++ quote k ++ ": ") :: pretty level x ++ some "," :: prettyFields level fs

end

def compactText? (d : Data) : Option String := (compact d).complete?

def prettyText? (d : Data) : Option String := (pretty 0 d).complete?

end Conformance.Json

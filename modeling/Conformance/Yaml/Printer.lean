import Conformance.Data
import Conformance.Text.Quoted
import Conformance.Yaml.Character
import Conformance.Yaml.Resolution

/-!
# Writing YAML

Reports are written in block style: a field a line, two blanks for each level of records, and the
items of a list behind dashes in the column of the field that holds the list. Lines are never
folded.

A text is written in the first style that keeps it. A text of several lines is a literal block. A
text that would be taken for another value is put between single quotes, and any other text stands
plain. If spaces, indicators or unprintable characters rule the style out, quotes of the next
stronger kind are used; double quotes can hold everything.

Every value is written up to the end of its last line, so that lines simply follow each other.
-/

namespace Conformance.Yaml

def startsWithIndicator : List Char → Bool
  | '-' :: '-' :: '-' :: _ => true
  | '.' :: '.' :: '.' :: _ => true
  | c :: r => isIndicator c || ((c == '?' || c == ':' || c == '-') && atSpacing r)
  | [] => false

/-- Whether a plain scalar would end within a text: at a colon in front of spacing, or at a number
sign behind it. -/
def hasInnerIndicator : List Char → Bool
  | a :: c :: r =>
    (c == ':' && atSpacing r) || (c == '#' && isSpacing a) || hasInnerIndicator (c :: r)
  | _ => false

def hasNeighbours (p q : Char → Bool) : List Char → Bool
  | a :: b :: r => (p a && q b) || hasNeighbours p q (b :: r)
  | _ => false

def isSpace (c : Char) : Bool := c == ' '

/-- Whether a text holds something that only double quotes keep. -/
def needsDoubleQuotes (cs : List Char) : Bool :=
  !cs.all isPrintable || hasNeighbours isSpace isBreak cs

def allowsPlain (cs : List Char) : Bool :=
  !(needsDoubleQuotes cs || cs.any isBreak || startsWithIndicator cs || hasInnerIndicator cs ||
    cs.head?.any isSpace || cs.getLast?.any isSpace)

def allowsSingleQuotes (cs : List Char) : Bool :=
  !(needsDoubleQuotes cs || hasNeighbours isBreak isSpace cs)

def allowsBlock (cs : List Char) : Bool :=
  !(needsDoubleQuotes cs || cs.getLast?.any isSpace || cs.isEmpty)

def styleOf (s : String) : Style :=
  let cs := s.toList
  if cs.contains '\n' then if allowsBlock cs then .literal else .doubleQuoted
  else if !isTaken s && allowsPlain cs then .plain
  else if allowsSingleQuotes cs then .singleQuoted
  else .doubleQuoted

def indentation (n : Nat) : List Char := List.replicate n ' '

/-- The characters of single quotes: quotes are doubled, and what follows a line break is indented.
-/
def singleQuotedBody (indent : Nat) (pending : Bool) : List Char → List Char
  | [] => if pending then indentation indent else []
  | c :: r =>
    if isBreak c then c :: singleQuotedBody indent true r
    else
      (if pending then indentation indent else []) ++
        (if c == '\'' then ['\'', '\''] else [c]) ++ singleQuotedBody indent false r

def doubleQuotedChar (c : Char) : List Char :=
  if c == '"' then ['\\', '"']
  else if c == '\\' then ['\\', '\\']
  else if isPrintable c && !isBreak c then [c]
  else if c == '\x00' then ['\\', '0']
  else if c == '\x07' then ['\\', 'a']
  else if c == '\x08' then ['\\', 'b']
  else if c == '\t' then ['\\', 't']
  else if c == '\n' then ['\\', 'n']
  else if c == '\x0b' then ['\\', 'v']
  else if c == '\x0c' then ['\\', 'f']
  else if c == '\r' then ['\\', 'r']
  else if c == '\x1b' then ['\\', 'e']
  else if c == nel then ['\\', 'N']
  else if c == lineSeparator then ['\\', 'L']
  else if c == paragraphSeparator then ['\\', 'P']
  else if c.toNat ≤ 0xFF then '\\' :: 'x' :: (Quoted.upperHex 2 c.toNat).toList
  else if c.toNat ≤ 0xFFFF then '\\' :: 'u' :: (Quoted.upperHex 4 c.toNat).toList
  else '\\' :: 'U' :: (Quoted.upperHex 8 c.toNat).toList

/-- The mark that says what becomes of the line breaks at the end of a block: without a mark one is
kept, `-` keeps none and `+` keeps all. -/
def chompingMark (cs : List Char) : List Char :=
  match cs.reverse with
  | [] => ['-']
  | [c] => if isBreak c then ['+'] else ['-']
  | c :: d :: _ => if !isBreak c then ['-'] else if isBreak d then ['+'] else []

/-- The head of a literal block. A block that starts with a space or an empty line gives its
indentation. -/
def literalHead (cs : List Char) : List Char :=
  '|' :: (if cs.head?.any fun c => isSpace c || isBreak c then ['2'] else []) ++ chompingMark cs

def literalBody (indent : Nat) (pending : Bool) : List Char → List Char
  | [] => []
  | c :: r =>
    if isBreak c then c :: literalBody indent true r
    else (if pending then indentation indent else []) ++ c :: literalBody indent false r

/-- A text through the end of its last line; its further lines are indented. -/
def scalar (indent : Nat) (s : String) : String :=
  let cs := s.toList
  match styleOf s with
  | .plain => s ++ "\n"
  | .singleQuoted => String.ofList ('\'' :: singleQuotedBody indent false cs ++ ['\'', '\n'])
  | .literal | .folded =>
    String.ofList (literalHead cs ++ '\n' :: literalBody indent true cs ++
      if cs.getLast?.any isBreak then [] else ['\n'])
  | .doubleQuoted => String.ofList ('"' :: cs.flatMap doubleQuotedChar ++ ['"', '\n'])

/-- A value that is neither a list nor a record, through the end of its last line. -/
def atom (indent : Nat) : Data → Option String
  | .null => some "null\n"
  | .bool true => some "true\n"
  | .bool false => some "false\n"
  | .int n => some (Decimal.intText n ++ "\n")
  | .text s => some (scalar indent s)
  | .path p => p.text?.map (scalar indent)
  | .list _ => none
  | .record _ => none

def margin (n : Nat) : String := String.ofList (indentation n)

mutual

/-- A value behind the name of a field that stands in a column. -/
def fieldValue (column : Nat) : Data → Chunks
  | .list [] => [some " []\n"]
  | .list items => some "\n" :: listItems column items
  | .record [] => [some " \x7b\x7d\n"]
  | .record fields => some "\n" :: recordFields (column + 2) fields
  | .null => [some " ", atom (column + 2) .null]
  | .bool b => [some " ", atom (column + 2) (.bool b)]
  | .int n => [some " ", atom (column + 2) (.int n)]
  | .text s => [some " ", atom (column + 2) (.text s)]
  | .path p => [some " ", atom (column + 2) (.path p)]

/-- A value behind a dash that stands in a column. -/
def itemValue (column : Nat) : Data → Chunks
  | .list [] => [some " []\n"]
  | .list (x :: xs) => some " -" :: itemValue (column + 2) x ++ listItems (column + 2) xs
  | .record [] => [some " \x7b\x7d\n"]
  | .record ((name, x) :: fields) =>
    some (" " ++ name ++ ":") :: fieldValue (column + 2) x ++ recordFields (column + 2) fields
  | .null => [some " ", atom (column + 2) .null]
  | .bool b => [some " ", atom (column + 2) (.bool b)]
  | .int n => [some " ", atom (column + 2) (.int n)]
  | .text s => [some " ", atom (column + 2) (.text s)]
  | .path p => [some " ", atom (column + 2) (.path p)]

def listItems (column : Nat) : List Data → Chunks
  | [] => []
  | x :: xs => some (margin column ++ "-") :: itemValue column x ++ listItems column xs

def recordFields (column : Nat) : List (String × Data) → Chunks
  | [] => []
  | (name, x) :: fields =>
    some (margin column ++ name ++ ":") :: fieldValue column x ++ recordFields column fields

end

def document : Data → Chunks
  | .record fields => recordFields 0 fields
  | .list items => listItems 0 items
  | d => [atom 0 d]

/-- The text of a value whose paths all have text. -/
def text? (d : Data) : Option String := (document d).complete?

end Conformance.Yaml

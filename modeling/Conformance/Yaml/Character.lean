/-!
# Characters and styles of YAML

Five characters end a line. Blanks separate tokens within a line. A text may be shown as it is only
if all its characters are printable; a document may hold a few more than that. A scalar is written
in one of five styles.
-/

namespace Conformance.Yaml

def nel : Char := '\u0085'

def lineSeparator : Char := '\u2028'

def paragraphSeparator : Char := '\u2029'

def byteOrderMark : Char := '\uFEFF'

def isBreak (c : Char) : Bool :=
  c == '\n' || c == '\r' || c == nel || c == lineSeparator || c == paragraphSeparator

/-- A blank within a line. -/
def isBlank (c : Char) : Bool := c == ' ' || c == '\t'

def isSpacing (c : Char) : Bool := isBlank c || isBreak c

/-- Whether a text starts with spacing or is at its end. -/
def atSpacing : List Char → Bool
  | [] => true
  | c :: _ => isSpacing c

/-- A character of the names of anchors, tag handles and directives. -/
def isWordChar (c : Char) : Bool :=
  ('0' ≤ c && c ≤ '9') || ('a' ≤ c && c ≤ 'z') || ('A' ≤ c && c ≤ 'Z') || c == '_' || c == '-'

def isPrintable (c : Char) : Bool :=
  c == '\n' || (' ' ≤ c && c ≤ '~') ||
    ('\u00A0' ≤ c && c != byteOrderMark && c != '\uFFFE' && c != '\uFFFF')

def isAllowed (c : Char) : Bool :=
  isPrintable c || c == '\t' || c == '\r' || c == nel || c == byteOrderMark

/-- Whether a text starts with the mark of a document's start or end. -/
def atDocumentMark : List Char → Bool
  | '-' :: '-' :: '-' :: r => atSpacing r
  | '.' :: '.' :: '.' :: r => atSpacing r
  | _ => false

inductive Style where
  | plain
  | singleQuoted
  | doubleQuoted
  | literal
  | folded
deriving DecidableEq, Repr

/-- A character that cannot start a plain scalar. -/
def isIndicator (c : Char) : Bool :=
  c == '#' || c == ',' || c == '[' || c == ']' || c == '\x7b' || c == '\x7d' || c == '&' ||
    c == '*' || c == '!' || c == '|' || c == '>' || c == '\'' || c == '"' || c == '%' || c == '@' ||
    c == '\x60'

end Conformance.Yaml

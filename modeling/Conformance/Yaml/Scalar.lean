import Conformance.Yaml.Character
import Conformance.Yaml.Resolution

/-!
# Reading scalars

Quoted and plain scalars may run over several lines, and both are folded the same way: blanks around
a line break are dropped, a single line break becomes a space, and of several line breaks the first
is dropped. So a scalar is first taken apart into `Element`s, and `fold` puts its text together. A
separator of lines or paragraphs is never dropped.

A block scalar is read line by line below its indentation, which is given in its head or found from
its first line that is not empty. A literal block keeps its line breaks, a folded one folds them
between lines that do not start with a blank.

All functions return the characters behind the scalar.
-/

namespace Conformance.Yaml

/-- Reads a line break. Its text is a line feed, except for the separators, which stay. -/
def lineBreak? : List Char → Option (Char × List Char)
  | '\r' :: '\n' :: r => some ('\n', r)
  | c :: r =>
    if c == lineSeparator || c == paragraphSeparator then some (c, r)
    else if isBreak c then some ('\n', r)
    else none
  | [] => none

inductive Element where
  | char (c : Char)
  /-- A blank, kept unless a line ends beside it. -/
  | blank (c : Char)
  | newline (c : Char)
  /-- A line break that was escaped: it joins two lines without a space. -/
  | joint
deriving DecidableEq, Repr

/-- The spacing between two characters of a text. -/
inductive Gap where
  | blanks (cs : List Char)
  /-- The first line break, if it was not escaped, and the others. -/
  | lines (first : Option Char) (more : List Char)
deriving DecidableEq, Repr

namespace Gap

def blank (c : Char) : Gap → Gap
  | .blanks cs => .blanks (cs ++ [c])
  | .lines first more => .lines first more

def newline (c : Char) : Gap → Gap
  | .blanks _ => .lines (some c) []
  | .lines first more => .lines first (more ++ [c])

/-- What the gap contributes to the text. -/
def text : Gap → List Char
  | .blanks cs => cs
  | .lines (some '\n') [] => [' ']
  | .lines (some '\n') more => more
  | .lines (some c) more => c :: more
  | .lines none more => more

end Gap

/-- The text of the elements behind a gap. -/
def foldFrom (gap : Gap) : List Element → List Char
  | [] => gap.text
  | .char c :: es => gap.text ++ c :: foldFrom (.blanks []) es
  | .blank c :: es => foldFrom (gap.blank c) es
  | .newline c :: es => foldFrom (gap.newline c) es
  | .joint :: es => gap.text ++ foldFrom (.lines none []) es

def fold (es : List Element) : String := String.ofList (foldFrom (.blanks []) es)

def Element.isGap : Element → Bool
  | .blank _ => true
  | .newline _ => true
  | .char _ => false
  | .joint => false

def trimEnd (es : List Element) : List Element := (es.reverse.dropWhile Element.isGap).reverse

/-- Reads the elements of a scalar between single quotes. A document mark at the start of a line is
refused. -/
def singleQuoted? : (lineStart : Bool) → List Char → Option (List Element × List Char)
  | _, [] => none
  | lineStart, c :: r =>
    if lineStart && atDocumentMark (c :: r) then none
    else if c == '\'' then
      match r with
      | '\'' :: r => do
        let (es, rest) ← singleQuoted? false r
        return (.char '\'' :: es, rest)
      | r => some ([], r)
    else if isBlank c then do
      let (es, rest) ← singleQuoted? false r
      return (.blank c :: es, rest)
    else if isBreak c then
      match c, r with
      | '\r', '\n' :: r => do
        let (es, rest) ← singleQuoted? true r
        return (.newline '\n' :: es, rest)
      | c, r => do
        let (es, rest) ← singleQuoted? true r
        return (.newline (if c == lineSeparator || c == paragraphSeparator then c else '\n') :: es,
          rest)
    else do
      let (es, rest) ← singleQuoted? false r
      return (.char c :: es, rest)

def shortEscape? (c : Char) : Option Char :=
  [('0', '\x00'), ('a', '\x07'), ('b', '\x08'), ('t', '\t'), ('\t', '\t'), ('n', '\n'),
    ('v', '\x0b'), ('f', '\x0c'), ('r', '\r'), ('e', '\x1b'), (' ', ' '), ('"', '"'), ('/', '/'),
    ('\\', '\\'), ('N', nel), ('_', '\u00A0'), ('L', lineSeparator),
    ('P', paragraphSeparator)].lookup c

/-- The number of digits in a numeric escape. -/
def escapeWidth? (c : Char) : Option Nat := [('x', 2), ('u', 4), ('U', 8)].lookup c

def charOfNat? (n : Nat) : Option Char := if n.isValidChar then some (Char.ofNat n) else none

/-- Reads the elements of a scalar between double quotes; the first argument bounds the number of
elements. A document mark at the start of a line is refused. -/
def doubleQuoted? : Nat → (lineStart : Bool) → List Char → Option (List Element × List Char)
  | 0, _, _ => none
  | _, _, [] => none
  | fuel + 1, lineStart, c :: r =>
    if lineStart && atDocumentMark (c :: r) then none
    else if c == '"' then some ([], r)
    else if c == '\\' then
      match lineBreak? r with
      | some (_, r) => do
        let (es, rest) ← doubleQuoted? fuel true r
        return (.joint :: es, rest)
      | none =>
        match r with
        | [] => none
        | e :: r =>
          match escapeWidth? e with
          | some width =>
            if r.length < width then none
            else do
              let n ← digits? 16 (r.take width)
              let x ← charOfNat? n
              let (es, rest) ← doubleQuoted? fuel false (r.drop width)
              return (.char x :: es, rest)
          | none => do
            let x ← shortEscape? e
            let (es, rest) ← doubleQuoted? fuel false r
            return (.char x :: es, rest)
    else if isBlank c then do
      let (es, rest) ← doubleQuoted? fuel false r
      return (.blank c :: es, rest)
    else
      match lineBreak? (c :: r) with
      | some (b, r) => do
        let (es, rest) ← doubleQuoted? fuel true r
        return (.newline b :: es, rest)
      | none => do
        let (es, rest) ← doubleQuoted? fuel false r
        return (.char c :: es, rest)

/-- A character with a meaning of its own in flow collections. -/
def isFlowIndicator (c : Char) : Bool :=
  c == ',' || c == '[' || c == ']' || c == '\x7b' || c == '\x7d'

def endsPlain (flow : Bool) : List Char → Bool
  | ':' :: r => atSpacing r
  | c :: _ => flow && isFlowIndicator c
  | [] => true

/-- Whether a plain scalar in a flow collection has a colon where none can be. -/
def hasStrayColon : List Char → Bool
  | ':' :: c :: _ => isFlowIndicator c || c == '?'
  | _ => false

/-- Where the next character of a plain scalar stands: behind another one, behind blanks, or behind
line breaks. -/
inductive PlainPlace where
  | inWord
  | behindBlanks
  | behindLines
deriving DecidableEq, Repr

/-- Whether a plain scalar goes no further behind spacing: there is a comment or a document mark, or
the line is not indented enough. -/
def stopsBehindGap (flow : Bool) (indent : Int) (column : Nat) (cs : List Char) : Bool :=
  (!flow && (column : Int) < indent) || cs.head? == some '#' || (column == 0 && atDocumentMark cs)

/-- Reads the elements of a plain scalar from a column on; the first argument bounds the number of
elements. Lines of a block must be indented by `indent`, and not with tabs. The answer also tells
whether a line ended behind the scalar. -/
def plain? (flow : Bool) (indent : Int) :
    Nat → PlainPlace → Nat → List Char → Option (List Element × Bool × List Char)
  | 0, _, _, _ => none
  | _, place, _, [] => some ([], place == .behindLines, [])
  | fuel + 1, place, column, c :: r =>
    match lineBreak? (c :: r) with
    | some (b, r) => do
      let (es, ended, rest) ← plain? flow indent fuel .behindLines 0 r
      return (.newline b :: es, ended, rest)
    | none =>
      if isBlank c then
        if place == .behindLines && c == '\t' && (column : Int) < indent then none
        else do
          let place := if place == .behindLines then .behindLines else .behindBlanks
          let (es, ended, rest) ← plain? flow indent fuel place (column + 1) r
          return (.blank c :: es, ended, rest)
      else if place != .inWord && stopsBehindGap flow indent column (c :: r) then
        some ([], place == .behindLines, c :: r)
      else if flow && hasStrayColon (c :: r) then none
      else if endsPlain flow (c :: r) then some ([], place == .behindLines, c :: r)
      else do
        let (es, ended, rest) ← plain? flow indent fuel .inWord (column + 1) r
        return (.char c :: es, ended, rest)

/-- What becomes of the line breaks at the end of a block. -/
inductive Chomping where
  | strip
  | clip
  | keep
deriving DecidableEq, Repr

structure BlockHead where
  chomping : Chomping
  /-- The indentation, if the head gives it. -/
  increment : Option Nat
deriving DecidableEq, Repr

def chomping? : List Char → Option (Chomping × List Char)
  | '+' :: r => some (.keep, r)
  | '-' :: r => some (.strip, r)
  | _ => none

/-- Reads an indentation, which is not zero. The outer answer is `none` on a zero. -/
def increment? : List Char → Option (Option Nat × List Char)
  | c :: r =>
    if c == '0' then none
    else if Decimal.isDigit c then some (some (Decimal.digitValue c), r)
    else some (none, c :: r)
  | [] => some (none, [])

/-- Reads the rest of a line that may only hold a comment, and its end. -/
def lineEnd? (cs : List Char) : Option (List Char) :=
  let cs := cs.dropWhile isBlank
  let cs := if cs.head? == some '#' then cs.dropWhile (!isBreak ·) else cs
  match cs with
  | [] => some []
  | cs => (lineBreak? cs).map (·.2)

def blockHead? (cs : List Char) : Option (BlockHead × List Char) :=
  match chomping? cs with
  | some (chomping, cs) => do
    let (increment, cs) ← increment? cs
    return (⟨chomping, increment⟩, ← lineEnd? cs)
  | none => do
    let (increment, cs) ← increment? cs
    match increment, chomping? cs with
    | some n, some (chomping, cs) => return (⟨chomping, some n⟩, ← lineEnd? cs)
    | increment, _ => return (⟨.clip, increment⟩, ← lineEnd? cs)

/-- What stands in front of a line of a block. -/
structure BlockGap where
  breaks : List Char
  /-- The column of the next character. -/
  column : Nat
  /-- The largest column on the way. -/
  widest : Nat
  rest : List Char
deriving DecidableEq, Repr

/-- Reads empty lines and indentation. Spaces from the column `indent` on are not indentation; tabs
in front of it are refused. -/
def blockGap? (indent : Option Nat) : (column widest : Nat) → List Char → Option BlockGap
  | column, widest, [] => some ⟨[], column, widest, []⟩
  | column, widest, c :: r =>
    let inside := indent.all (column < ·)
    if inside && c == ' ' then blockGap? indent (column + 1) (max widest (column + 1)) r
    else if inside && c == '\t' then none
    else if isBreak c then
      match c, r with
      | '\r', '\n' :: r =>
        (blockGap? indent 0 widest r).map fun g => { g with breaks := '\n' :: g.breaks }
      | c, r =>
        (blockGap? indent 0 widest r).map fun g =>
          { g with breaks :=
              (if c == lineSeparator || c == paragraphSeparator then c else '\n') :: g.breaks }
    else some ⟨[], column, widest, c :: r⟩

/-- A line of a block: the line breaks in front of it, its text, and the line break behind it. -/
structure BlockLine where
  breaks : List Char
  text : List Char
  ending : Option Char
deriving DecidableEq, Repr

/-- The lines of a block, and the empty lines and the characters behind it. The first argument
bounds the number of lines. -/
def blockLines? (indent : Nat) : Nat → BlockGap → Option (List BlockLine × BlockGap)
  | 0, _ => none
  | fuel + 1, gap =>
    if gap.column = indent && !gap.rest.isEmpty then
      let text := gap.rest.takeWhile (!isBreak ·)
      let rest := gap.rest.dropWhile (!isBreak ·)
      match lineBreak? rest with
      | some (b, rest) => do
        let next ← blockGap? (some indent) 0 0 rest
        let (lines, last) ← blockLines? indent fuel next
        return (⟨gap.breaks, text, some b⟩ :: lines, last)
      | none => some ([⟨gap.breaks, text, none⟩], ⟨[], indent + text.length, 0, rest⟩)
    else some ([], gap)

/-- The text between two lines of a block, of which the first ends in `ending`. -/
def blockJoint (folded : Bool) (ending : Option Char) (blankBefore blankBehind : Bool)
    (breaks : List Char) : List Char :=
  if folded && ending == some '\n' && !blankBefore && !blankBehind then
    if breaks.isEmpty then [' '] else breaks
  else ending.toList ++ breaks

def startsBlank (cs : List Char) : Bool := cs.head?.any isBlank

/-- The text of lines behind a line that ended in `ending`, and the line break at the end. -/
def blockText (folded : Bool) (ending : Option Char) (blankBefore : Bool) :
    List BlockLine → List Char × Option Char
  | [] => ([], ending)
  | line :: lines =>
    let (text, last) := blockText folded line.ending (startsBlank line.text) lines
    (blockJoint folded ending blankBefore (startsBlank line.text) line.breaks ++ line.text ++ text,
      last)

/-- Reads a block scalar behind its indicator, in a collection indented by `parent`. -/
def block? (folded : Bool) (parent : Int) (cs : List Char) : Option (String × List Char) := do
  let (head, cs) ← blockHead? cs
  let given := head.increment.map fun n => (max parent 0).toNat + n
  let gap ← blockGap? given 0 0 cs
  let indent := given.getD (max (max gap.widest (parent + 1).toNat) 1)
  let (lines, last) ← blockLines? indent (cs.length + 1) gap
  let (text, ending) := blockText folded none false lines
  let tail := match head.chomping with
    | .strip => []
    | .clip => ending.toList
    | .keep => ending.toList ++ last.breaks
  return (String.ofList (text ++ tail), last.rest)

end Conformance.Yaml

import Conformance.Text.Utf8
import Conformance.Yaml.Scalar

/-!
# Tokens of YAML

A document is cut into tokens from left to right. Indentation becomes tokens of its own: a block
collection is opened where its first entry stands deeper than the enclosing block, and closed where
a line goes back. A mapping key without `?` is recognised only when the colon behind it is reached,
so the place where it started is remembered (`KeyPlace`) and the token is put in there. Such a key
must be on one line and not longer than 1024 bytes.

Each step of `Scanner.step?` consumes a character or ends the document, so the length of the text
bounds the number of steps.
-/

namespace Conformance.Yaml

inductive TagText where
  | verbatim (suffix : Bytes)
  /-- A tag that a handle abbreviates. -/
  | shorthand (handle : String) (suffix : Bytes)
deriving DecidableEq, Repr

inductive Token where
  | documentStart
  | documentEnd
  | version (major minor : Nat)
  | tagDirective (handle : String) (expansion : Bytes)
  | blockSequenceStart
  | blockMappingStart
  | blockEnd
  | flowSequenceStart
  | flowSequenceEnd
  | flowMappingStart
  | flowMappingEnd
  | entry
  | flowEntry
  | key
  | value
  | alias (name : String)
  | anchor (name : String)
  | tag (t : TagText)
  | scalar (style : Style) (text : String)
deriving DecidableEq, Repr

structure Mark where
  line : Nat := 0
  column : Nat := 0
  /-- The number of bytes in front. -/
  index : Nat := 0
deriving DecidableEq, Repr

def Mark.advance : Mark → Nat → List Char → Mark
  | m, 0, _ => m
  | m, _, [] => m
  | m, n + 1, c :: r =>
    let index := m.index + (Utf8.encodeChar c).length
    if c == '\r' && r.head? == some '\n' then Mark.advance { m with index } n r
    else if isBreak c then Mark.advance ⟨m.line + 1, 0, index⟩ n r
    else Mark.advance { m with column := m.column + 1, index } n r

/-- A place where a key may have started. -/
structure KeyPlace where
  mark : Mark
  position : Nat
  /-- Nothing but a key can stand there. -/
  required : Bool
deriving DecidableEq, Repr

/-- How far a document has been cut into tokens. -/
structure Scanner where
  rest : List Char
  mark : Mark := {}
  /-- The column of the innermost block collection, -1 outside of any. -/
  indent : Int := -1
  indents : List Int := []
  keyAllowed : Bool := true
  /-- Where a key may have started, for the block and for each open flow collection, innermost
  first. -/
  keys : List (Option KeyPlace) := [none]
  tokens : Array Token := #[]
deriving Repr

/-- The largest number of bytes in a key without `?`. -/
def maxKeyLength : Nat := 1024

namespace Scanner

def inFlow (s : Scanner) : Bool := 1 < s.keys.length

def push (s : Scanner) (t : Token) : Scanner := { s with tokens := s.tokens.push t }

def moveTo (s : Scanner) (rest : List Char) : Scanner :=
  { s with rest, mark := s.mark.advance (s.rest.length - rest.length) s.rest }

def skip (s : Scanner) (n : Nat) : Scanner := s.moveTo (s.rest.drop n)

/-- Skips blanks, comments and line breaks in front of a token; the first argument bounds the number
of lines. Tabs are no indentation: they are skipped only where no key may start. -/
def skipSpacing : Nat → Scanner → Scanner
  | 0, s => s
  | fuel + 1, s =>
    let s := if s.mark.column == 0 && s.rest.head? == some byteOrderMark then s.skip 1 else s
    let tabs := s.inFlow || !s.keyAllowed
    let rest := s.rest.dropWhile fun c => c == ' ' || (tabs && c == '\t')
    let rest := if rest.head? == some '#' then rest.dropWhile (!isBreak ·) else rest
    let s := s.moveTo rest
    match lineBreak? rest with
    | some (_, rest) =>
      let s := s.moveTo rest
      skipSpacing fuel (if s.inFlow then s else { s with keyAllowed := true })
    | none => s

/-- Whether a remembered place is too far back for a key. -/
def isStale (m : Mark) (k : KeyPlace) : Bool :=
  k.mark.line < m.line || k.mark.index + maxKeyLength < m.index

/-- Forgets the places that are too far back, unless a key is required there. -/
def dropStale? (s : Scanner) : Option Scanner :=
  if s.keys.any fun k => k.any fun k => isStale s.mark k && k.required then none
  else some { s with keys := s.keys.map fun k => k.filter fun k => !isStale s.mark k }

/-- Forgets the place of the innermost collection, unless a key is required there. -/
def forgetKey? (s : Scanner) : Option Scanner :=
  match s.keys with
  | some k :: keys => if k.required then none else some { s with keys := none :: keys }
  | _ => some s

/-- Remembers that a key may start here. -/
def saveKey? (s : Scanner) : Option Scanner :=
  if s.keyAllowed then do
    let s ← s.forgetKey?
    let place : KeyPlace :=
      ⟨s.mark, s.tokens.size, !s.inFlow && s.indent == (s.mark.column : Int)⟩
    return { s with keys := some place :: s.keys.tail }
  else some s

/-- Closes the block collections deeper than a column. -/
def unroll (column : Int) : List Int → Scanner → Scanner
  | indents, s =>
    if s.inFlow || s.indent ≤ column then { s with indents }
    else match indents with
      | [] => { s.push .blockEnd with indent := -1, indents := [] }
      | i :: is => unroll column is { s.push .blockEnd with indent := i }

def unrollTo (s : Scanner) (column : Int) : Scanner := unroll column s.indents s

/-- Opens a block collection at a column, if it is deeper than the enclosing one; its token is put
in at a position. -/
def roll (s : Scanner) (column position : Nat) (opening : Token) : Scanner :=
  if !s.inFlow && s.indent < (column : Int) then
    { s with
      indents := s.indent :: s.indents
      indent := column
      tokens := s.tokens.insertIdxIfInBounds position opening }
  else s

/-- Leaves all block collections and forgets a pending key. -/
def leaveBlocks? (s : Scanner) : Option Scanner := do
  let s ← (s.unrollTo (-1)).forgetKey?
  return { s with keyAllowed := false }

def documentMark? (s : Scanner) (t : Token) : Option Scanner := do
  return (← s.leaveBlocks?).push t |>.skip 3

def flowStart? (s : Scanner) (t : Token) : Option Scanner := do
  let s ← s.saveKey?
  return { s with keys := none :: s.keys, keyAllowed := true }.push t |>.skip 1

def flowEnd? (s : Scanner) (t : Token) : Option Scanner := do
  let s ← s.forgetKey?
  let keys := if s.inFlow then s.keys.tail else s.keys
  return { s with keys, keyAllowed := false }.push t |>.skip 1

def flowEntry? (s : Scanner) : Option Scanner := do
  let s ← s.forgetKey?
  return { s with keyAllowed := true }.push .flowEntry |>.skip 1

def entry? (s : Scanner) : Option Scanner := do
  if !s.inFlow && !s.keyAllowed then none
  else
    let s ← (s.roll s.mark.column s.tokens.size .blockSequenceStart).forgetKey?
    return { s with keyAllowed := true }.push .entry |>.skip 1

def key? (s : Scanner) : Option Scanner := do
  if !s.inFlow && !s.keyAllowed then none
  else
    let s ← (s.roll s.mark.column s.tokens.size .blockMappingStart).forgetKey?
    return { s with keyAllowed := !s.inFlow }.push .key |>.skip 1

/-- Reads the colon in front of a value. A remembered place becomes a key. -/
def value? (s : Scanner) : Option Scanner :=
  match s.keys with
  | some k :: keys =>
    let s := { s with
      tokens := s.tokens.insertIdxIfInBounds k.position .key
      keys := none :: keys
      keyAllowed := false }
    some ((s.roll k.mark.column k.position .blockMappingStart).push .value |>.skip 1)
  | _ =>
    if !s.inFlow && !s.keyAllowed then none
    else
      let s := s.roll s.mark.column s.tokens.size .blockMappingStart
      some ({ s with keyAllowed := !s.inFlow }.push .value |>.skip 1)

def anchorName? (cs : List Char) : Option (String × List Char) :=
  let name := cs.takeWhile isWordChar
  let rest := cs.dropWhile isWordChar
  let ends := atSpacing rest ||
    rest.head?.any fun c =>
      c == '?' || c == ':' || c == ',' || c == ']' || c == '\x7d' || c == '%' || c == '@' ||
        c == '\x60'
  if name = [] || !ends then none else some (String.ofList name, rest)

/-- Reads something that a key may start with. -/
def nodePart? (s : Scanner) (read : List Char → Option (Token × List Char)) : Option Scanner := do
  let s ← s.saveKey?
  let (t, rest) ← read s.rest
  return { s with keyAllowed := false }.push t |>.moveTo rest

def isTagChar (verbatim : Bool) (c : Char) : Bool :=
  isWordChar c || c == ';' || c == '/' || c == '?' || c == ':' || c == '@' || c == '&' ||
    c == '=' || c == '+' || c == '$' || c == '.' || c == '%' || c == '!' || c == '~' || c == '*' ||
    c == '\'' || c == '(' || c == ')' || (verbatim && (c == ',' || c == '[' || c == ']'))

def percentByte? : List Char → Option (UInt8 × List Char)
  | '%' :: a :: b :: r => (digits? 16 [a, b]).map fun n => (n.toUInt8, r)
  | _ => none

def leadWidth? (b : UInt8) : Option Nat :=
  if b &&& 0x80 == 0x00 then some 1
  else if b &&& 0xE0 == 0xC0 then some 2
  else if b &&& 0xF0 == 0xE0 then some 3
  else if b &&& 0xF8 == 0xF0 then some 4
  else none

/-- The percent escapes of the other bytes of a character. -/
def percentTail? : Nat → List Char → Option (Bytes × List Char)
  | 0, cs => some ([], cs)
  | n + 1, cs => do
    let (b, cs) ← percentByte? cs
    if b &&& 0xC0 == 0x80 then
      let (bs, cs) ← percentTail? n cs
      return (b :: bs, cs)
    else none

def tagChars? (verbatim : Bool) : Nat → List Char → Option (Bytes × List Char)
  | 0, cs => some ([], cs)
  | _, [] => some ([], [])
  | fuel + 1, c :: r =>
    if c == '%' then do
      let (b, cs) ← percentByte? (c :: r)
      let width ← leadWidth? b
      let (bs, cs) ← percentTail? (width - 1) cs
      let (more, rest) ← tagChars? verbatim fuel cs
      return (b :: bs ++ more, rest)
    else if isTagChar verbatim c then do
      let (more, rest) ← tagChars? verbatim fuel r
      return (Utf8.encodeChar c ++ more, rest)
    else some ([], c :: r)

/-- Reads the characters of a tag behind `head`, at least one in all. -/
def tagText? (verbatim : Bool) (head cs : List Char) : Option (Bytes × List Char) := do
  let (bs, rest) ← tagChars? verbatim cs.length cs
  if head = [] && bs = [] then none
  else return (Utf8.encode (String.ofList (head.drop 1)) ++ bs, rest)

/-- Splits off a tag handle: exclamation mark, word, and exclamation mark if there is one. -/
def tagHandle (cs : List Char) : List Char × List Char :=
  match cs with
  | c :: r =>
    let word := r.takeWhile isWordChar
    match r.dropWhile isWordChar with
    | '!' :: rest => (c :: word ++ ['!'], rest)
    | rest => (c :: word, rest)
  | [] => ([], [])

def endsTag (flow : Bool) (cs : List Char) : Bool :=
  atSpacing cs || (flow && cs.head? == some ',')

/-- Reads a tag. A lone exclamation mark is a tag of its own. -/
def tag? (flow : Bool) : List Char → Option (TagText × List Char)
  | '!' :: '<' :: r => do
    let (suffix, rest) ← tagText? true [] r
    match rest with
    | '>' :: rest => if endsTag flow rest then some (.verbatim suffix, rest) else none
    | _ => none
  | cs => do
    let (handle, rest) := tagHandle cs
    if 2 ≤ handle.length && handle.getLast? == some '!' then
      let (suffix, rest) ← tagText? false [] rest
      if endsTag flow rest then some (.shorthand (String.ofList handle) suffix, rest) else none
    else
      let (suffix, rest) ← tagText? false handle rest
      let t := if suffix = [] then TagText.verbatim [0x21] else .shorthand "!" suffix
      if endsTag flow rest then some (t, rest) else none

/-- Reads a number of up to nine digits. -/
def versionNumber? (cs : List Char) : Option (Nat × List Char) :=
  let digits := cs.takeWhile Decimal.isDigit
  if digits = [] || 9 < digits.length then none
  else some (Decimal.value digits, cs.dropWhile Decimal.isDigit)

def directiveValue? (name : String) (cs : List Char) : Option (Token × List Char) :=
  let cs := cs.dropWhile isBlank
  if name == "YAML" then do
    let (major, cs) ← versionNumber? cs
    match cs with
    | '.' :: cs =>
      let (minor, cs) ← versionNumber? cs
      return (.version major minor, cs)
    | _ => none
  else if name == "TAG" then
    let (handle, cs) := tagHandle cs
    if handle.head? == some '!' && (handle.length == 1 || handle.getLast? == some '!') &&
        cs.head?.any isBlank then do
      let (expansion, cs) ← tagText? true [] (cs.dropWhile isBlank)
      if atSpacing cs then some (.tagDirective (String.ofList handle) expansion, cs) else none
    else none
  else none

def directive? (s : Scanner) : Option Scanner := do
  let s ← s.leaveBlocks?
  let cs := s.rest.drop 1
  let name := cs.takeWhile isWordChar
  let cs := cs.dropWhile isWordChar
  if name = [] || !atSpacing cs then none
  else
    let (t, cs) ← directiveValue? (String.ofList name) cs
    return (s.push t).moveTo (← lineEnd? cs)

def blockScalar? (s : Scanner) (style : Style) : Option Scanner := do
  let s ← s.forgetKey?
  let (text, rest) ← block? (style == .folded) s.indent (s.rest.drop 1)
  return { s with keyAllowed := true }.push (.scalar style text) |>.moveTo rest

def startsPlain (flow : Bool) : List Char → Bool
  | [] => false
  | c :: r =>
    if c == '-' then !(r.head?.any isBlank)
    else if c == '?' || c == ':' then !flow && !atSpacing r
    else !(isSpacing c || isIndicator c)

/-- Reads a plain scalar. Where it ends with its line, a key may follow. -/
def plainScalar? (s : Scanner) : Option Scanner := do
  let s ← s.saveKey?
  let (es, ended, rest) ←
    plain? s.inFlow (s.indent + 1) (s.rest.length + 1) .inWord s.mark.column s.rest
  return { s with keyAllowed := ended }.push (.scalar .plain (fold (trimEnd es))) |>.moveTo rest

/-- Reads the token that stands here, at a character that is no spacing. -/
def token? (s : Scanner) : Option Scanner :=
  match s.rest with
  | [] => none
  | c :: r =>
    if s.mark.column == 0 && c == '%' then s.directive?
    else if s.mark.column == 0 && atDocumentMark (c :: r) then
      s.documentMark? (if c == '-' then .documentStart else .documentEnd)
    else if c == '[' then s.flowStart? .flowSequenceStart
    else if c == '\x7b' then s.flowStart? .flowMappingStart
    else if c == ']' then s.flowEnd? .flowSequenceEnd
    else if c == '\x7d' then s.flowEnd? .flowMappingEnd
    else if c == ',' then s.flowEntry?
    else if c == '-' && atSpacing r then s.entry?
    else if c == '?' && (s.inFlow || atSpacing r) then s.key?
    else if c == ':' && (s.inFlow || atSpacing r) then s.value?
    else if c == '*' then
      s.nodePart? fun cs => (anchorName? (cs.drop 1)).map fun (n, rest) => (.alias n, rest)
    else if c == '&' then
      s.nodePart? fun cs => (anchorName? (cs.drop 1)).map fun (n, rest) => (.anchor n, rest)
    else if c == '!' then
      s.nodePart? fun cs => (tag? s.inFlow cs).map fun (t, rest) => (.tag t, rest)
    else if c == '|' && !s.inFlow then s.blockScalar? .literal
    else if c == '>' && !s.inFlow then s.blockScalar? .folded
    else if c == '\'' then
      s.nodePart? fun cs => (singleQuoted? false (cs.drop 1)).map fun (es, rest) =>
        (.scalar .singleQuoted (fold es), rest)
    else if c == '"' then
      s.nodePart? fun cs => (doubleQuoted? cs.length false (cs.drop 1)).map fun (es, rest) =>
        (.scalar .doubleQuoted (fold es), rest)
    else if startsPlain s.inFlow (c :: r) then s.plainScalar?
    else none

def finish? (s : Scanner) : Option Scanner := do
  (s.unrollTo (-1)).forgetKey?

/-- Cuts the rest of a text into tokens; the first argument bounds their number. -/
def scan? : Nat → Scanner → Option (Array Token)
  | 0, _ => none
  | fuel + 1, s => do
    let s ← (skipSpacing (s.rest.length + 1) s).dropStale?
    let s := s.unrollTo s.mark.column
    if s.rest.isEmpty then return (← s.finish?).tokens
    else scan? fuel (← s.token?)

end Scanner

def tokens? (cs : List Char) : Option (List Token) :=
  if cs.all isAllowed then (Scanner.scan? (cs.length + 1) { rest := cs }).map Array.toList else none

end Conformance.Yaml

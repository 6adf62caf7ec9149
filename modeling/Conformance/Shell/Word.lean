import Conformance.Text.Utf8
import Conformance.Number.Decimal

/-!
# Words of shell scripts

A script is a byte string; a character stands for each byte. It is cut into words, operators and
line ends. A word is a list of parts: characters, which may be quoted, and expansions, which are
carried out when the word is used. Scripts inside expansions are kept as text until then.

Cutting never fails. Where the text cannot be cut any further, a token says why, so that the
commands in front of it can still be read and run.

The shell serves runs from the command line only (`Launch`).
-/

namespace Conformance.Shell

/-- The characters that stand for bytes. -/
def ofBytes (bs : Bytes) : List Char := bs.map fun b => Char.ofNat b.toNat

def toBytes (cs : List Char) : Bytes := cs.map fun c => c.toNat.toUInt8

def ofText (s : String) : List Char := ofBytes (Utf8.encode s)

inductive Problem where
  /-- Something stands where something else is expected, if it is clear what. -/
  | unexpected (found : String) (expected : Option String)
  | unterminatedQuote
  | unterminatedBackquote
  | missing (closing : String)
  | badSubstitution
  | badLoopVariable
  | badFunctionName
deriving DecidableEq, Repr

def Problem.message : Problem → String
  | .unexpected found none => "Syntax error: " ++ found ++ " unexpected"
  | .unexpected found (some expected) =>
    "Syntax error: " ++ found ++ " unexpected (expecting " ++ expected ++ ")"
  | .unterminatedQuote => "Syntax error: Unterminated quoted string"
  | .unterminatedBackquote => "Syntax error: EOF in backquote substitution"
  | .missing closing => "Syntax error: Missing '" ++ closing ++ "'"
  | .badSubstitution => "Bad substitution"
  | .badLoopVariable => "Syntax error: Bad for loop variable"
  | .badFunctionName => "Syntax error: Bad function name"

inductive Part where
  | char (c : Char) (quoted : Bool)
  /-- Quotes, which make a word even if nothing is in them. -/
  | quotes
  | parameter (name : String) (quoted : Bool)
  | length (name : String)
  /-- The value of a parameter, or another text if it is unset (or empty, if that counts as well).
  -/
  | fallback (name : String) (orEmpty : Bool) (other : List Char) (quoted : Bool)
  /-- Another text, if a parameter is set (and not empty, if that counts as well). -/
  | instead (name : String) (orEmpty : Bool) (other : List Char) (quoted : Bool)
  /-- The value of a parameter without what matches a pattern at its start or end. -/
  | trimmed (name : String) (atEnd longest : Bool) (pattern : List Char) (quoted : Bool)
  | arithmetic (expression : List Char)
  | output (script : List Char) (quoted : Bool)
deriving DecidableEq, Repr

abbrev Word := List Part

/-- What stands at a place of a script. -/
inductive Lexeme where
  | word (w : Word)
  | operator (s : String)
  /-- A redirection of a file descriptor, and the operator between it and its target. -/
  | redirection (fd : Option Nat) (s : String)
  | newline
  | finish
  /-- The script cannot be cut any further. -/
  | fault (p : Problem)
deriving DecidableEq, Repr

/-- A piece of a script, and the number of the line in which it ends. -/
structure Token where
  line : Nat
  lexeme : Lexeme
deriving DecidableEq, Repr

def isBlank (c : Char) : Bool := c == ' ' || c == '\t'

/-- A character that ends a word. -/
def isMeta (c : Char) : Bool :=
  isBlank c || c == '\n' || c == ';' || c == '&' || c == '|' || c == '(' || c == ')' || c == '<' ||
    c == '>'

def isNameStart (c : Char) : Bool := c.isAlpha || c == '_'

def isNameChar (c : Char) : Bool := isNameStart c || c.isDigit

def isName (cs : List Char) : Bool := cs.head?.any isNameStart && cs.all isNameChar

/-- A parameter named by one character. -/
def isSpecialParameter (c : Char) : Bool :=
  c.isDigit || c == '#' || c == '?' || c == '$' || c == '@' || c == '*' || c == '!' || c == '-'

/-- The text up to the parenthesis that closes `depth` open ones, and the text behind it. Quoted
parentheses do not count. -/
def upToClosing : Nat → Option Char → List Char → Option (List Char × List Char)
  | _, _, [] => none
  | depth, some q, c :: r => do
    let (inner, rest) ← upToClosing depth (if c == q then none else some q) r
    return (c :: inner, rest)
  | depth, none, c :: r =>
    if c == ')' then
      match depth with
      | 0 => some ([], r)
      | depth + 1 => (upToClosing depth none r).map fun (inner, rest) => (c :: inner, rest)
    else
      let depth := if c == '(' then depth + 1 else depth
      let quote := if c == '\'' || c == '"' then some c else none
      (upToClosing depth quote r).map fun (inner, rest) => (c :: inner, rest)

def upTo (q : Char) (cs : List Char) : Option (List Char × List Char) :=
  match cs.dropWhile (· != q) with
  | [] => none
  | _ :: rest => some (cs.takeWhile (· != q), rest)

def parameterName : List Char → List Char
  | [] => []
  | c :: r =>
    if isNameStart c then (c :: r).takeWhile isNameChar
    else if c.isDigit then (c :: r).takeWhile Char.isDigit
    else if isSpecialParameter c then [c]
    else []

/-- Reads what stands between braces behind a dollar sign. -/
def braces (quoted : Bool) (body : List Char) : Except Problem Part :=
  let name := parameterName body
  let n := String.ofList name
  match name, body.drop name.length with
  | [], _ => .error .badSubstitution
  | _, [] => .ok (.parameter n quoted)
  | _, '-' :: other => .ok (.fallback n false other quoted)
  | _, ':' :: '-' :: other => .ok (.fallback n true other quoted)
  | _, '+' :: other => .ok (.instead n false other quoted)
  | _, ':' :: '+' :: other => .ok (.instead n true other quoted)
  | _, '%' :: '%' :: pattern => .ok (.trimmed n true true pattern quoted)
  | _, '%' :: pattern => .ok (.trimmed n true false pattern quoted)
  | ['#'], rest =>
    if parameterName rest = rest then .ok (.length (String.ofList rest))
    else .error .badSubstitution
  | _, '#' :: '#' :: pattern => .ok (.trimmed n false true pattern quoted)
  | _, '#' :: pattern => .ok (.trimmed n false false pattern quoted)
  | _, _ => .error .badSubstitution

def orProblem {α : Type} (p : Problem) : Option α → Except Problem α
  | some a => .ok a
  | none => .error p

/-- Reads an expansion behind a dollar sign. A dollar sign in front of anything else stands for
itself. -/
def dollar (quoted : Bool) : List Char → Except Problem (Part × List Char)
  | '(' :: '(' :: r => do
    let (inner, rest) ← orProblem (.missing "))") (upToClosing 1 none r)
    return (.arithmetic inner.dropLast, rest)
  | '(' :: r => do
    let (inner, rest) ← orProblem (.unexpected "end of file" (some "\")\"")) (upToClosing 0 none r)
    return (.output inner quoted, rest)
  | '\x7b' :: r => do
    let (inner, rest) ← orProblem (.missing "\x7d") (upTo '\x7d' r)
    return (← braces quoted inner, rest)
  | c :: r =>
    if isNameStart c then
      let name := (c :: r).takeWhile isNameChar
      .ok (.parameter (String.ofList name) quoted, (c :: r).dropWhile isNameChar)
    else if isSpecialParameter c then .ok (.parameter (String.singleton c) quoted, r)
    else .ok (.char '$' quoted, c :: r)
  | [] => .ok (.char '$' quoted, [])

/-- Reads the parts of a quoted text up to the quote that ends it, or through the end of the text if
there is none. The first argument bounds the number of parts. -/
def quotedParts (closing : Option Char) : Nat → List Char → Except Problem (Word × List Char)
  | 0, _ => .error .unterminatedQuote
  | _, [] => if closing.isNone then .ok ([], []) else .error .unterminatedQuote
  | fuel + 1, c :: r =>
    if some c == closing then .ok ([], r)
    else if c == '\\' then
      match r with
      | '\n' :: r => quotedParts closing fuel r
      | d :: r => do
        let (ps, rest) ← quotedParts closing fuel r
        if some d == closing || d == '\\' || d == '$' || d == '\x60' then
          return (.char d true :: ps, rest)
        else return (.char '\\' true :: .char d true :: ps, rest)
      | [] => if closing.isNone then .ok ([.char '\\' true], []) else .error .unterminatedQuote
    else if c == '$' then do
      let (p, r) ← dollar true r
      let (ps, rest) ← quotedParts closing fuel r
      return (p :: ps, rest)
    else if c == '\x60' then do
      let (inner, r) ← orProblem .unterminatedBackquote (upTo '\x60' r)
      let (ps, rest) ← quotedParts closing fuel r
      return (.output inner true :: ps, rest)
    else do
      let (ps, rest) ← quotedParts closing fuel r
      return (.char c true :: ps, rest)

/-- Reads the parts of a word; the first argument bounds their number. -/
def word : Nat → List Char → Except Problem (Word × List Char)
  | 0, _ => .error .unterminatedQuote
  | _, [] => .ok ([], [])
  | fuel + 1, c :: r =>
    if isMeta c then .ok ([], c :: r)
    else if c == '\'' then do
      let (inner, r) ← orProblem .unterminatedQuote (upTo '\'' r)
      let (ps, rest) ← word fuel r
      return (.quotes :: inner.map (.char · true) ++ ps, rest)
    else if c == '"' then do
      let (inner, r) ← quotedParts (some '"') (r.length + 1) r
      let (ps, rest) ← word fuel r
      return (.quotes :: inner ++ ps, rest)
    else if c == '\\' then
      match r with
      | '\n' :: r => word fuel r
      | d :: r => do
        let (ps, rest) ← word fuel r
        return (.char d true :: ps, rest)
      | [] => .ok ([.char '\\' true], [])
    else if c == '$' then do
      let (p, r) ← dollar false r
      let (ps, rest) ← word fuel r
      return (p :: ps, rest)
    else if c == '\x60' then do
      let (inner, r) ← orProblem .unterminatedBackquote (upTo '\x60' r)
      let (ps, rest) ← word fuel r
      return (.output inner false :: ps, rest)
    else do
      let (ps, rest) ← word fuel r
      return (.char c false :: ps, rest)

def operators : List String := [";;", "&&", "||", ";", "&", "|", "(", ")"]

def redirections : List String := ["<<-", "<<", ">>", ">&", "<&", ">|", "<>", ">", "<"]

/-- The first of some texts that another one starts with, and what is behind it. -/
def startingWith? (options : List String) (cs : List Char) : Option (String × List Char) :=
  (options.find? fun o => o.toList.isPrefixOf cs).map fun o => (o, cs.drop o.length)

/-- The lines up to a delimiter, the text behind its line, and the number of lines that are passed.
Tabs at the start of lines are dropped if `strip`. The first argument bounds the number of lines. -/
def hereLines (strip : Bool) (delimiter : List Char) :
    Nat → List Char → List Char × List Char × Nat
  | 0, cs => ([], cs, 0)
  | _, [] => ([], [], 0)
  | fuel + 1, cs =>
    let line := cs.takeWhile (· != '\n')
    let rest := (cs.dropWhile (· != '\n')).drop 1
    let text := if strip then line.dropWhile (· == '\t') else line
    if text = delimiter then ([], rest, 1)
    else
      let (body, after, n) := hereLines strip delimiter fuel rest
      (text ++ '\n' :: body, after, n + 1)

def plainText (w : Word) : List Char := w.filterMap fun
  | .char c _ => some c
  | _ => none

def hasQuotes (w : Word) : Bool := w.any fun
  | .char _ quoted => quoted
  | .quotes => true
  | _ => false

/-- A text that stands in the script below the line of its redirection: its delimiter is read, its
lines are taken out of the script, and they become a word. The last answer is the number of lines
taken out. -/
def hereText (strip : Bool) (cs : List Char) : Except Problem (Word × List Char × Nat) := do
  let cs := cs.dropWhile isBlank
  let (w, rest) ← word (cs.length + 1) cs
  let line := rest.takeWhile (· != '\n')
  let below := (rest.dropWhile (· != '\n')).drop 1
  let (body, after, n) := hereLines strip (plainText w) (below.length + 1) below
  let body ← if hasQuotes w then pure (body.map (Part.char · true))
    else (quotedParts none (body.length + 1) body).map (·.1)
  return (.quotes :: body, line ++ '\n' :: after, n)

def linesBefore (cs rest : List Char) : Nat := (cs.take (cs.length - rest.length)).count '\n'

/-- Cuts a script into tokens from a line on. Some lines further down were taken out already, and
are counted at the next line end. The first argument bounds the number of tokens. -/
def tokensFrom : Nat → Nat → Nat → List Char → List Token
  | 0, line, _, _ => [⟨line, .finish⟩]
  | _, line, _, [] => [⟨line, .finish⟩]
  | fuel + 1, line, taken, c :: r =>
    if isBlank c then tokensFrom fuel line taken r
    else if c == '\\' && r.head? == some '\n' then tokensFrom fuel (line + 1) taken (r.drop 1)
    else if c == '#' then tokensFrom fuel line taken (r.dropWhile (· != '\n'))
    else if c == '\n' then
      ⟨line + 1 + taken, .newline⟩ :: tokensFrom fuel (line + 1 + taken) 0 r
    else
      let digits := (c :: r).takeWhile Char.isDigit
      let behind := (c :: r).dropWhile Char.isDigit
      let fd := if digits = [] then none else some (Decimal.value digits)
      match startingWith? redirections behind with
      | some (s, rest) =>
        if s == "<<" || s == "<<-" then
          match hereText (s == "<<-") rest with
          | .error p => [⟨line, .fault p⟩]
          | .ok (w, rest, n) =>
            ⟨line, .redirection fd "<<"⟩ :: ⟨line, .word w⟩ :: tokensFrom fuel line (taken + n) rest
        else ⟨line, .redirection fd s⟩ :: tokensFrom fuel line taken rest
      | none =>
        match startingWith? operators (c :: r) with
        | some (s, rest) => ⟨line, .operator s⟩ :: tokensFrom fuel line taken rest
        | none =>
          match word (r.length + 2) (c :: r) with
          | .error p => [⟨line + r.count '\n', .fault p⟩]
          | .ok (w, rest) =>
            let line := line + linesBefore (c :: r) rest
            ⟨line, .word w⟩ :: tokensFrom fuel line taken rest

/-- Cuts a script into tokens. The last one is the end of the script, or says why it cannot be cut.
-/
def tokens (cs : List Char) : List Token := tokensFrom (2 * cs.length + 1) 1 0 cs

end Conformance.Shell

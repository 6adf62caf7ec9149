import Conformance.Shell.Word

/-!
# Commands of shell scripts

A script is a sequence of commands. Simple commands are words with assignments in front and
redirections; they are combined by operators and by the compound commands of the language.

A script is read line by line as it runs, so a mistake shows only when its line is reached: `script`
reads a whole script, and a command that stands for the mistake ends it. Each call of the reader
consumes a token within a few steps, so the number of tokens bounds the depth.

The shell serves runs from the command line only (`Launch`).
-/

namespace Conformance.Shell

structure Redirection where
  fd : Option Nat
  operator : String
  target : Word
deriving DecidableEq, Repr

structure Mistake where
  line : Nat
  problem : Problem
deriving DecidableEq, Repr

inductive Command where
  | nothing
  | simple (line : Nat) (assignments : List (String × Word)) (words : List Word)
  | redirected (c : Command) (rs : List Redirection)
  | sequence (a b : Command)
  | both (a b : Command)
  | either (a b : Command)
  | negation (a : Command)
  | pipe (a b : Command)
  | background (a : Command)
  | subshell (a : Command)
  | conditional (condition yes no : Command)
  /-- A loop that goes on while its condition succeeds, or while it fails. -/
  | loop (expected : Bool) (condition body : Command)
  | forEach (name : String) (words : Option (List Word)) (body : Command)
  | choice (word : Word) (branches : List (List Word × Command))
  | definition (name : String) (body : Command)
  /-- What comes next cannot be read. -/
  | mistake (m : Mistake)
deriving Repr

/-- A command that was read and the tokens behind it. -/
abbrev Reading := Except Mistake (Command × List Token)

def bareText? : Word → Option (List Char)
  | [] => some []
  | .char c false :: ps => (bareText? ps).map (c :: ·)
  | _ => none

def Token.bare? (t : Token) : Option String :=
  match t.lexeme with
  | .word w => (bareText? w).map String.ofList
  | _ => none

def keywords : List String :=
  ["!", "case", "do", "done", "elif", "else", "esac", "fi", "for", "if", "in", "then", "until",
    "while", "\x7b", "\x7d"]

/-- The words that end a list of commands. -/
def endWords : List String := ["do", "done", "elif", "else", "esac", "fi", "then", "\x7d"]

def inQuotes (s : String) : String := "\"" ++ s ++ "\""

def Token.describe (t : Token) : String :=
  match t.lexeme with
  | .word _ =>
    match t.bare? with
    | some s => if keywords.contains s then inQuotes s else "word"
    | none => "word"
  | .operator s => inQuotes s
  | .redirection _ _ => "redirection"
  | .newline => "newline"
  | .finish => "end of file"
  | .fault _ => "end of file"

/-- The mistake that something else is expected than what comes next. -/
def unexpected (expected : Option String) : List Token → Mistake
  | [] => ⟨0, .unexpected "end of file" expected⟩
  | t :: _ =>
    match t.lexeme with
    | .fault p => ⟨t.line, p⟩
    | _ => ⟨t.line, .unexpected t.describe expected⟩

def atBare (ts : List Token) (s : String) : Bool := ts.head?.any fun t => t.bare? == some s

def bare (s : String) (ts : List Token) : Except Mistake (List Token) :=
  if atBare ts s then .ok (ts.drop 1) else .error (unexpected (some (inQuotes s)) ts)

def atLexeme (ts : List Token) (l : Lexeme) : Bool := ts.head?.any fun t => t.lexeme == l

def atOperator (ts : List Token) (s : String) : Bool := atLexeme ts (.operator s)

def operator (s : String) (ts : List Token) : Except Mistake (List Token) :=
  if atOperator ts s then .ok (ts.drop 1) else .error (unexpected (some (inQuotes s)) ts)

def skipNewlines (ts : List Token) : List Token := ts.dropWhile fun t => t.lexeme == .newline

def endsList (ts : List Token) : Bool :=
  ts.isEmpty || atLexeme ts .finish || atOperator ts ")" || atOperator ts ";;" ||
    endWords.any (atBare ts)

def assignment? (w : Word) : Option (String × Word) :=
  let name := w.takeWhile fun
    | .char c false => isNameChar c
    | _ => false
  match bareText? name, w.drop name.length with
  | some (c :: cs), .char '=' false :: value =>
    if isNameStart c then some (String.ofList (c :: cs), value) else none
  | _, _ => none

def redirectionList : List Token → Except Mistake (List Redirection × List Token)
  | ⟨_, .redirection fd operator⟩ :: ⟨_, .word target⟩ :: ts =>
    (redirectionList ts).map fun (rs, rest) => (⟨fd, operator, target⟩ :: rs, rest)
  | ⟨_, .redirection _ _⟩ :: ts => .error (unexpected none ts)
  | ts => .ok ([], ts)

def simpleParts : List Token → Except Mistake (List Word × List Redirection × List Token)
  | ⟨_, .word w⟩ :: ts => (simpleParts ts).map fun (ws, rs, rest) => (w :: ws, rs, rest)
  | ⟨_, .redirection fd operator⟩ :: ⟨_, .word target⟩ :: ts =>
    (simpleParts ts).map fun (ws, rs, rest) => (ws, ⟨fd, operator, target⟩ :: rs, rest)
  | ⟨_, .redirection _ _⟩ :: ts => .error (unexpected none ts)
  | ts => .ok ([], [], ts)

/-- Splits assignments off the front of words. -/
def splitAssignments : List Word → List (String × Word) × List Word
  | [] => ([], [])
  | w :: ws =>
    match assignment? w with
    | some a => ((splitAssignments ws).map (a :: ·) id)
    | none => ([], w :: ws)

def withRedirections (c : Command) (rs : List Redirection) : Command :=
  if rs.isEmpty then c else .redirected c rs

def simple (ts : List Token) : Reading := do
  let (words, rs, rest) ← simpleParts ts
  let (assignments, words) := splitAssignments words
  return (withRedirections (.simple ((ts.head?.map (·.line)).getD 0) assignments words) rs, rest)

def followed (c : Command) (ts : List Token) : Reading := do
  let (rs, rest) ← redirectionList ts
  return (withRedirections c rs, rest)

/-- Reads the words of a loop up to the end of their line. -/
def loopWords : List Token → List Word × List Token
  | ⟨_, .word w⟩ :: ts => ((loopWords ts).map (w :: ·) id)
  | ts => ([], ts)

/-- Reads what a loop runs over, through the end of its line: some words, or else all arguments. -/
def loopRange (ts : List Token) : Except Mistake (Option (List Word) × List Token) :=
  if atBare (skipNewlines ts) "in" then
    let (words, ts) := loopWords ((skipNewlines ts).drop 1)
    if atLexeme ts .newline || atOperator ts ";" then .ok (some words, ts.drop 1)
    else .error (unexpected none ts)
  else .ok (none, if atOperator ts ";" then ts.drop 1 else ts)

/-- Reads the patterns of a branch up to their closing parenthesis. -/
def patterns : List Token → Except Mistake (List Word × List Token)
  | ⟨_, .word w⟩ :: ⟨_, .operator "|"⟩ :: ts =>
    (patterns ts).map fun (ws, rest) => (w :: ws, rest)
  | ⟨_, .word w⟩ :: ts => (operator ")" ts).map fun rest => ([w], rest)
  | ts => .error (unexpected (some (inQuotes ")")) (ts.drop 1))

def nextWord (ts : List Token) : Except Mistake (Word × List Token) :=
  match ts with
  | ⟨_, .word w⟩ :: ts => .ok (w, ts)
  | ts => .error (unexpected (some "word") ts)

mutual

/-- Reads commands up to the end of a list. -/
def block : Nat → List Token → Reading
  | 0, ts => .error (unexpected none ts)
  | fuel + 1, ts => do
    let ts := skipNewlines ts
    if atLexeme ts .finish then return (.nothing, ts)
    else
      let (a, ts) ← andOr fuel ts
      blockFrom fuel a ts

def blockFrom : Nat → Command → List Token → Reading
  | 0, _, ts => .error (unexpected none ts)
  | fuel + 1, a, ts => do
    let a := if atOperator ts "&" then .background a else a
    if atOperator ts "&" || atOperator ts ";" || atLexeme ts .newline then
      let ts := skipNewlines (ts.drop 1)
      if endsList ts then return (a, ts)
      else
        let (b, ts) ← andOr fuel ts
        blockFrom fuel (.sequence a b) ts
    else return (a, ts)

/-- Reads pipelines joined by operators that look at success. -/
def andOr : Nat → List Token → Reading
  | 0, ts => .error (unexpected none ts)
  | fuel + 1, ts => do
    let (a, ts) ← pipeline fuel ts
    andOrFrom fuel a ts

def andOrFrom : Nat → Command → List Token → Reading
  | 0, _, ts => .error (unexpected none ts)
  | fuel + 1, a, ts =>
    if atOperator ts "&&" then do
      let (b, ts) ← pipeline fuel (skipNewlines (ts.drop 1))
      andOrFrom fuel (.both a b) ts
    else if atOperator ts "||" then do
      let (b, ts) ← pipeline fuel (skipNewlines (ts.drop 1))
      andOrFrom fuel (.either a b) ts
    else .ok (a, ts)

/-- Reads commands joined by pipes, with a negation in front or not. -/
def pipeline : Nat → List Token → Reading
  | 0, ts => .error (unexpected none ts)
  | fuel + 1, ts =>
    if atBare ts "!" then do
      let (c, rest) ← pipes fuel (ts.drop 1)
      return (.negation c, rest)
    else pipes fuel ts

def pipes : Nat → List Token → Reading
  | 0, ts => .error (unexpected none ts)
  | fuel + 1, ts => do
    let (a, ts) ← command fuel ts
    if atOperator ts "|" then
      let (b, rest) ← pipes fuel (skipNewlines (ts.drop 1))
      return (.pipe a b, rest)
    else return (a, ts)

def command : Nat → List Token → Reading
  | 0, ts => .error (unexpected none ts)
  | fuel + 1, ts =>
    match ts with
    | ⟨_, .operator "("⟩ :: ts => do
      let (body, ts) ← block fuel ts
      followed (.subshell body) (← operator ")" ts)
    | ⟨_, .word w⟩ :: ⟨line, .operator "("⟩ :: ts => do
      let ts ← operator ")" ts
      match bareText? w with
      | none => .error ⟨line, .badFunctionName⟩
      | some name =>
        if isName name then
          let (body, rest) ← command fuel (skipNewlines ts)
          return (.definition (String.ofList name) body, rest)
        else .error ⟨line, .badFunctionName⟩
    | ts =>
      if atBare ts "\x7b" then do
        let (body, ts) ← block fuel (ts.drop 1)
        followed body (← bare "\x7d" ts)
      else if atBare ts "if" then do
        let (c, ts) ← branches fuel (ts.drop 1)
        followed c ts
      else if atBare ts "while" || atBare ts "until" then do
        let (condition, rest) ← block fuel (ts.drop 1)
        let (body, rest) ← block fuel (← bare "do" rest)
        followed (.loop (atBare ts "while") condition body) (← bare "done" rest)
      else if atBare ts "for" then
        match ts.drop 1 with
        | ⟨line, .word w⟩ :: ts =>
          match bareText? w with
          | none => .error ⟨line, .badLoopVariable⟩
          | some name =>
            if isName name then do
              let (words, ts) ← loopRange ts
              let (body, ts) ← block fuel (← bare "do" (skipNewlines ts))
              followed (.forEach (String.ofList name) words body) (← bare "done" ts)
            else .error ⟨line, .badLoopVariable⟩
        | ts => .error ⟨(unexpected none ts).line, .badLoopVariable⟩
      else if atBare ts "case" then do
        let (w, ts) ← nextWord (ts.drop 1)
        let ts ← bare "in" (skipNewlines ts)
        cases fuel w [] (skipNewlines ts)
      else match ts with
        | ⟨_, .redirection _ _⟩ :: _ => simple ts
        | t@⟨_, .word _⟩ :: _ =>
          if t.bare?.any keywords.contains then .error (unexpected none ts) else simple ts
        | ts => .error (unexpected none ts)

/-- Reads the branches of a conditional behind its first word. -/
def branches : Nat → List Token → Reading
  | 0, ts => .error (unexpected none ts)
  | fuel + 1, ts => do
    let (condition, ts) ← block fuel ts
    let (yes, ts) ← block fuel (← bare "then" ts)
    if atBare ts "elif" then
      let (no, rest) ← branches fuel (ts.drop 1)
      return (.conditional condition yes no, rest)
    else if atBare ts "else" then
      let (no, ts) ← block fuel (ts.drop 1)
      return (.conditional condition yes no, ← bare "fi" ts)
    else return (.conditional condition yes .nothing, ← bare "fi" ts)

/-- Reads the branches of a choice through its end, behind those that were read. -/
def cases : Nat → Word → List (List Word × Command) → List Token → Reading
  | 0, _, _, ts => .error (unexpected none ts)
  | fuel + 1, w, done, ts =>
    if atBare ts "esac" then followed (.choice w done) (ts.drop 1)
    else do
      let (ps, ts) ← patterns (if atOperator ts "(" then ts.drop 1 else ts)
      let (body, ts) ← if endsList (skipNewlines ts) then pure (.nothing, skipNewlines ts)
        else block fuel ts
      let done := done ++ [(ps, body)]
      if atBare ts "esac" then followed (.choice w done) (ts.drop 1)
      else cases fuel w done (skipNewlines (← operator ";;" ts))

end

/-- Reads the commands of one line, behind those that were read. -/
def lineFrom : Nat → Command → List Token → Reading
  | 0, _, ts => .error (unexpected none ts)
  | fuel + 1, done, ts =>
    if atLexeme ts .newline then .ok (done, ts.drop 1)
    else if atLexeme ts .finish then .ok (done, ts)
    else do
      let (a, rest) ← andOr (8 * ts.length + 8) ts
      if atOperator rest "&" then lineFrom fuel (.sequence done (.background a)) (rest.drop 1)
      else if atOperator rest ";" then lineFrom fuel (.sequence done a) (rest.drop 1)
      else if atLexeme rest .newline || atLexeme rest .finish then
        lineFrom fuel (.sequence done a) rest
      else .error (unexpected none rest)

/-- Reads a script line by line; the first argument bounds the number of lines. -/
def lines : Nat → List Token → Command
  | 0, _ => .nothing
  | fuel + 1, ts =>
    if atLexeme ts .finish then .nothing
    else match lineFrom (ts.length + 1) .nothing ts with
      | .error m => .mistake m
      | .ok (c, rest) => .sequence c (lines fuel rest)

def script (cs : List Char) : Command :=
  let ts := tokens cs
  lines (ts.length + 1) ts

end Conformance.Shell

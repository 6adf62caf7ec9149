import Conformance.Shell.Arithmetic
import Conformance.Shell.State

/-!
# What `echo` and `printf` write

Both know escapes with a backslash. `echo` writes its words with blanks between them. `printf` fills
the conversions of a format with its words, and starts the format over as long as words are left.
The shell serves runs from the command line only (`Launch`).
-/

namespace Conformance.Shell

def escape? (c : Char) : Option Char :=
  [('a', '\x07'), ('b', '\x08'), ('f', '\x0c'), ('n', '\n'), ('r', '\r'), ('t', '\t'),
    ('v', '\x0b'), ('\\', '\\')].lookup c

def isOctal (c : Char) : Bool := '0' ≤ c && c ≤ '7'

/-- The octal digits at the front of a text, at most `n`. -/
def octalDigits (n : Nat) (cs : List Char) : List Char := (cs.take n).takeWhile isOctal

def octalByte (ds : List Char) : Char :=
  Char.ofNat (ds.foldl (fun n c => n * 8 + Decimal.digitValue c) 0 % 256)

/-- Carries out escapes. The second answer is false if an escape asks for the output to end. Octal
numbers have a leading zero if `zeroLed`. The first argument bounds the number of characters. -/
def unescape (zeroLed : Bool) : Nat → List Char → List Char × Bool
  | 0, _ => ([], true)
  | _, [] => ([], true)
  | fuel + 1, '\\' :: c :: r =>
    if zeroLed && c == 'c' then ([], false)
    else match escape? c with
      | some x => (unescape zeroLed fuel r).map (x :: ·) id
      | none =>
        let digits := if zeroLed then if c == '0' then '0' :: octalDigits 3 r else []
          else octalDigits 3 (c :: r)
        if digits = [] then (unescape zeroLed fuel (c :: r)).map ('\\' :: ·) id
        else (unescape zeroLed fuel ((c :: r).drop digits.length)).map (octalByte digits :: ·) id
  | fuel + 1, c :: r => (unescape zeroLed fuel r).map (c :: ·) id

def echo (words : List (List Char)) : List Char :=
  let (newline, words) := match words with
    | ['-', 'n'] :: ws => (false, ws)
    | ws => (true, ws)
  let text := spaced words
  let (out, whole) := unescape true (text.length + 1) text
  out ++ if newline && whole then ['\n'] else []

structure Conversion where
  left : Bool
  zeros : Bool
  width : Nat
  precision : Option Nat
  kind : Char
deriving DecidableEq, Repr

def conversion? (cs : List Char) : Option (Conversion × List Char) :=
  let flags := cs.takeWhile fun c => c == '-' || c == '0' || c == '+' || c == ' ' || c == '#'
  let cs := cs.drop flags.length
  let width := cs.takeWhile Char.isDigit
  let cs := cs.drop width.length
  let (precision, cs) := match cs with
    | '.' :: r =>
      let ds := r.takeWhile Char.isDigit
      (some (Decimal.value ds), r.drop ds.length)
    | r => (none, r)
  match cs with
  | kind :: rest =>
    some (⟨flags.contains '-', flags.contains '0', Decimal.value width, precision, kind⟩, rest)
  | [] => none

def Conversion.pad (c : Conversion) (cs : List Char) : List Char :=
  let fill := List.replicate (c.width - cs.length) (if c.zeros && !c.left then '0' else ' ')
  if c.left then cs ++ fill else fill ++ cs

def numberOf (w : List Char) : Int := (Arithmetic.valueOf w).toInt

def Conversion.fill (c : Conversion) (w : List Char) : List Char :=
  match c.kind with
  | 's' => c.pad (match c.precision with
    | some n => w.take n
    | none => w)
  | 'b' => c.pad (unescape true (w.length + 1) w).1
  | 'c' => c.pad (w.take 1)
  | 'x' => c.pad (Nat.toDigits 16 (numberOf w).toNat)
  | 'o' => c.pad (Nat.toDigits 8 (numberOf w).toNat)
  | _ => c.pad (Decimal.intText (numberOf w)).toList

/-- Fills a format once, and the words that are left; the first argument bounds the number of its
characters. -/
def fillFormat : Nat → List Char → List (List Char) → List Char × List (List Char)
  | 0, _, ws => ([], ws)
  | _, [], ws => ([], ws)
  | fuel + 1, '%' :: '%' :: r, ws => (fillFormat fuel r ws).map ('%' :: ·) id
  | fuel + 1, '%' :: r, ws =>
    match conversion? r with
    | some (c, rest) => (fillFormat fuel rest (ws.drop 1)).map (c.fill (ws.headD []) ++ ·) id
    | none => ([], ws)
  | fuel + 1, c :: r, ws => (fillFormat fuel r ws).map (c :: ·) id

/-- What `printf` writes; the first argument bounds how often the format is used. -/
def printfFrom : Nat → List Char → List (List Char) → List Char
  | 0, _, _ => []
  | fuel + 1, format, ws =>
    let (out, rest) := fillFormat (format.length + 1) format ws
    if rest.isEmpty || rest.length == ws.length then out else out ++ printfFrom fuel format rest

def printf (format : List Char) (words : List (List Char)) : List Char :=
  printfFrom (words.length + 1) (unescape false (format.length + 1) format).1 words

end Conformance.Shell

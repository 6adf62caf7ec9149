import Conformance.Number.Decimal
import Conformance.Text.Split

/-!
# Log events

What the runner does is told in events with a level. A log filter decides which events are shown: it
is a list of directives, each of which sets the least level for the events whose target starts with
a text, and the most specific directive for an event decides. Every part of the runner has a target
of its own below that of the whole.
-/

namespace Conformance.Log

/-- How important an event is, in ascending order. -/
inductive Level where
  | trace
  | debug
  | info
  | warn
  | error
deriving DecidableEq, Repr

namespace Level

def rank : Level → Nat
  | .trace => 0
  | .debug => 1
  | .info => 2
  | .warn => 3
  | .error => 4

/-- The level in capitals, as it stands in front of events and in directives. -/
def label : Level → String
  | .trace => "TRACE"
  | .debug => "DEBUG"
  | .info => "INFO"
  | .warn => "WARN"
  | .error => "ERROR"

/-- The level shown unless a filter says otherwise. -/
def ofVerbose (verbose : Bool) : Level := if verbose then .debug else .info

end Level

inductive Source where
  | program
  | configuration
  | discovery
  | launch
  | runner
  | parallel
  | store
  | trial
  | timer
deriving DecidableEq, Repr

/-- The target of the runner as a whole. -/
def target : String := "flang_conformance"

def Source.target : Source → String
  | .program => Log.target
  | .configuration => Log.target ++ "::config"
  | .discovery => Log.target ++ "::discovery"
  | .launch => Log.target ++ "::executor::invoker"
  | .runner => Log.target ++ "::executor::runner"
  | .parallel => Log.target ++ "::executor::parallel"
  | .store => Log.target ++ "::results::storage"
  | .trial => Log.target ++ "::harness"
  | .timer => Log.target ++ "::utils::timer"

structure Event where
  source : Source
  level : Level
  message : String
deriving DecidableEq, Repr

def Event.line (e : Event) : String := e.level.label ++ " " ++ e.message

def debug (source : Source) (message : String) : Event := ⟨source, .debug, message⟩

def info (source : Source) (message : String) : Event := ⟨source, .info, message⟩

def warn (source : Source) (message : String) : Event := ⟨source, .warn, message⟩

def error (source : Source) (message : String) : Event := ⟨source, .error, message⟩

/-- The least level shown, or `off` if nothing is. -/
inductive Threshold where
  | off
  | atLeast (level : Level)
deriving DecidableEq, Repr

def Threshold.shows : Threshold → Event → Bool
  | .off, _ => false
  | .atLeast level, e => level.rank ≤ e.level.rank

/-- The number of a text of digits, with a plus sign or not. -/
def number? (cs : List Char) : Option Nat :=
  let digits := if cs.head? = some '+' then cs.drop 1 else cs
  if digits ≠ [] ∧ digits.all Decimal.isDigit then some (Decimal.value digits) else none

def numbered : List Threshold :=
  [.off, .atLeast .error, .atLeast .warn, .atLeast .info, .atLeast .debug, .atLeast .trace]

/-- The threshold that a word, in either case, or a number stands for. -/
def Threshold.ofText? (cs : List Char) : Option Threshold :=
  match number? cs with
  | some n => numbered[n]?
  | none =>
    [("off", Threshold.off), ("error", .atLeast .error), ("warn", .atLeast .warn),
      ("info", .atLeast .info), ("debug", .atLeast .debug), ("trace", .atLeast .trace)].lookup
      (String.ofList (cs.map Char.toLower))

/-- A directive: what the targets it is for start with, and the threshold there. -/
structure Directive where
  target : String
  threshold : Threshold
  /-- Whether it is for events inside spans only, of which the runner has none. -/
  inSpan : Bool := false
deriving DecidableEq, Repr

def directive (level : Level) : String := target ++ "=" ++ level.label

def isTargetStart (c : Char) : Bool :=
  c.isAlphanum || c == '-' || c == ':' || c == '_' || '\x7f' < c

/-- Reads the level behind an equals sign. All levels are shown if there is none. -/
def levelBehind? (cs : List Char) : Option Threshold :=
  if cs = [] then some (.atLeast .trace) else Threshold.ofText? cs

/-- Reads a directive without blanks in front: a threshold, a target, or a target with a threshold
behind `=`; a span in brackets may stand behind the target or in place of it. -/
def directiveOf? (cs : List Char) : Option Directive :=
  let name := cs.takeWhile fun c => c != '=' && c != '['
  let known := name = [] || name.head?.any isTargetStart
  match cs.drop name.length with
  | [] =>
    match Threshold.ofText? cs with
    | some t => some ⟨"", t, false⟩
    | none => if name ≠ [] && known then some ⟨String.ofList name, .atLeast .trace, false⟩ else none
  | '[' :: span =>
    match (span.dropWhile (· != ']')).drop 1 with
    | [] => if known && span.contains ']' then some ⟨String.ofList name, .atLeast .trace, true⟩
      else none
    | '=' :: level =>
      if known then (levelBehind? level).map fun t => ⟨String.ofList name, t, true⟩ else none
    | _ => none
  | _ :: level =>
    if name ≠ [] && known then (levelBehind? level).map fun t => ⟨String.ofList name, t, false⟩
    else none

structure Filter where
  directives : List Directive
deriving DecidableEq, Repr

namespace Filter

def ofLevel (level : Level) : Filter := ⟨[⟨target, .atLeast level, false⟩]⟩

/-- Reads a filter: directives separated by commas. Without any directive, errors are shown. -/
def ofText? (s : String) : Option Filter :=
  (((Split.splitAt ',' s.toList).filter (· ≠ [])).mapM directiveOf?).map fun
    | [] => ⟨[⟨"", .atLeast .error, false⟩]⟩
    | ds => ⟨ds⟩

/-- The directive that decides on an event: the one with the longest target, the last of several. -/
def deciding? (f : Filter) (e : Event) : Option Directive :=
  let concerned := f.directives.filter fun d =>
    !d.inSpan && d.target.toList.isPrefixOf e.source.target.toList
  concerned.foldl (fun best d =>
    match best with
    | none => some d
    | some b => if b.target.length ≤ d.target.length then some d else some b) none

def shows (f : Filter) (e : Event) : Bool := (f.deciding? e).any fun d => d.threshold.shows e

/-- The filter in force: the one given, or that of the verbosity when none is given or it cannot be
read. -/
def choose (given : Option String) (verbose : Bool) : Filter :=
  (given.bind ofText?).getD (ofLevel (.ofVerbose verbose))

end Filter

end Conformance.Log

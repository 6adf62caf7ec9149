import Conformance.Fixture
import Conformance.Number.Decimal
import Conformance.Number.Word

/-!
# The command line

A command line names a command and sets its options. An option is given by its long name or by a
letter; letters can be run together. The value of an option is attached to it or is the next token,
unless that starts with a dash. An option without its value is settled, that is counted and checked,
only when the next option is met or the command line ends, so that an unknown token in between is
complained about first.

No option but the filter may be repeated; the verbosity may be given once in front of the command
and once behind it.
-/

namespace Conformance

/-- Why a command line was not accepted, or what it asks for instead of a command. -/
inductive UsageError where
  | unknownArgument
  /-- An option is left without its value. -/
  | invalidValue
  | valueValidation
  | invalidUtf8
  /-- An option is repeated. -/
  | argumentConflict
  /-- A flag is given a value. -/
  | tooManyValues
  | invalidSubcommand
  | missingSubcommand
  | displayHelp
  | displayVersion
  /-- There is nothing on the command line. -/
  | displayHelpOnMissingArgument
deriving DecidableEq, Repr

/-- The exit code for a usage error. Help and version that were asked for are a success. -/
def UsageError.exitCode : UsageError → Nat
  | .displayHelp => 0
  | .displayVersion => 0
  | _ => 2

structure RunArguments where
  parallel : Bool := false
  concurrent : UInt64 := 4
  format : String := "table"
  filter : List String := []
  extension : String := fixtureExtension
  output : Option String := none
  noColor : Bool := false
deriving DecidableEq, Repr

structure ListArguments where
  detailed : Bool := false
  extension : String := fixtureExtension
deriving DecidableEq, Repr

inductive Command where
  | run (arguments : RunArguments)
  | list (arguments : ListArguments)
  | env
deriving DecidableEq, Repr

structure CommandLine where
  command : Command
  verbose : Bool
deriving DecidableEq, Repr

namespace CommandLine

/-- The options of all commands. -/
inductive Key where
  | parallel
  | concurrent
  | format
  | filter
  | extension
  | output
  | noColor
  | detailed
  | verbose
  | help
  | version
deriving DecidableEq, Repr

namespace Key

def long : Key → String
  | .parallel => "parallel"
  | .concurrent => "concurrent"
  | .format => "format"
  | .filter => "filter"
  | .extension => "extension"
  | .output => "output"
  | .noColor => "no-color"
  | .detailed => "detailed"
  | .verbose => "verbose"
  | .help => "help"
  | .version => "version"

def short? : Key → Option Char
  | .parallel => some 'p'
  | .concurrent => some 'c'
  | .format => some 'f'
  | .filter => none
  | .extension => some 'e'
  | .output => some 'o'
  | .noColor => none
  | .detailed => some 'd'
  | .verbose => some 'v'
  | .help => some 'h'
  | .version => some 'V'

def takesValue : Key → Bool
  | .concurrent => true
  | .format => true
  | .filter => true
  | .extension => true
  | .output => true
  | _ => false

def isRepeatable : Key → Bool
  | .filter => true
  | _ => false

end Key

/-- The options in front of a command. -/
def rootKeys : List Key := [.verbose, .help, .version]

def runKeys : List Key :=
  [.parallel, .concurrent, .format, .filter, .extension, .output, .noColor, .verbose, .help]

def listKeys : List Key := [.detailed, .extension, .verbose, .help]

def envKeys : List Key := [.verbose, .help]

/-- An option that was given, with its checked value. -/
inductive Setting where
  | flag (key : Key)
  | text (key : Key) (value : String)
  | count (key : Key) (value : UInt64)
deriving DecidableEq, Repr

def Setting.key : Setting → Key
  | .flag k => k
  | .text k _ => k
  | .count k _ => k

/-- The number a text spells: digits, with a plus sign or not, in the range of a machine word. -/
def word? (cs : List Char) : Option UInt64 :=
  let digits := match cs with
    | '+' :: r => r
    | r => r
  if digits ≠ [] && digits.all Decimal.isDigit then Word.unsigned? (Decimal.value digits) else none

def checked (key : Key) (value : Bytes) : Except UsageError Setting :=
  match Utf8.decode? value with
  | none => .error .invalidUtf8
  | some s =>
    if key = .concurrent then
      match word? s.toList with
      | some n => .ok (.count key n)
      | none => .error .valueValidation
    else .ok (.text key s)

/-- Counts an option with what stands for its value, and checks it. -/
def settle (found : List Setting) (key : Key) (value? : Option Bytes) :
    Except UsageError (List Setting) :=
  if key = .help then .error .displayHelp
  else if key = .version then .error .displayVersion
  else if key.takesValue && value?.isNone then .error .invalidValue
  else if !key.isRepeatable && found.any (·.key = key) then .error .argumentConflict
  else match value? with
    | none => .ok (found ++ [.flag key])
    | some value => (checked key value).map fun s => found ++ [s]

/-- The settings so far, and an option that is not settled yet with its value if it has one. -/
structure State where
  found : List Setting := []
  pending : Option (Key × Option Bytes) := none
deriving DecidableEq, Repr

namespace State

/-- The settings with the pending option settled. -/
def settled (s : State) : Except UsageError (List Setting) :=
  match s.pending with
  | none => .ok s.found
  | some (key, value?) => settle s.found key value?

/-- The state after an option that is settled at once. -/
def now (s : State) (key : Key) (value? : Option Bytes) : Except UsageError State :=
  match s.settled with
  | .error e => .error e
  | .ok found => (settle found key value?).map fun found => { found }

/-- The state after an option whose value is still to come. -/
def later (s : State) (key : Key) : Except UsageError State :=
  s.settled.map fun found => { found, pending := some (key, none) }

/-- The state after a token that is no option. -/
def value (s : State) (token : Bytes) : Except UsageError State :=
  match s.pending with
  | some (key, none) => .ok { s with pending := some (key, some token) }
  | _ => .error .unknownArgument

end State

def dash : UInt8 := 0x2D

def equals : UInt8 := 0x3D

/-- The token that ends the options. -/
def separator : Bytes := [dash, dash]

def longOption (keys : List Key) (s : State) (body : Bytes) : Except UsageError State :=
  let name := body.takeWhile (· != equals)
  let rest := body.dropWhile (· != equals)
  match keys.find? fun k => Utf8.encode k.long == name with
  | none => .error .unknownArgument
  | some key =>
    match key.takesValue, rest with
    | true, [] => s.later key
    | true, _ :: value => s.now key (some value)
    | false, [] => s.now key none
    | false, _ :: _ => .error .tooManyValues

/-- Reads letters of options behind their dash. -/
def shortOptions (keys : List Key) : State → Bytes → Except UsageError State
  | s, [] => .ok s
  | s, b :: rest =>
    match keys.find? fun k => k.short?.any fun c => Utf8.encodeChar c == [b] with
    | none => .error .unknownArgument
    | some key =>
      if key.takesValue then
        match rest with
        | [] => s.later key
        | c :: value => s.now key (some (if c == equals then value else c :: value))
      else
        match s.now key none with
        | .error e => .error e
        | .ok s => shortOptions keys s rest

def token (keys : List Key) (s : State) : Bytes → Except UsageError State
  | a :: b :: rest =>
    if a == dash && b == dash then longOption keys s rest
    else if a == dash then shortOptions keys s (b :: rest)
    else s.value (a :: b :: rest)
  | t => s.value t

/-- Reads the options of a command. Nothing may stand behind the separator. -/
def options (keys : List Key) : State → List Bytes → Except UsageError (List Setting)
  | s, [] => s.settled
  | s, t :: ts =>
    if t == separator then if ts.isEmpty then s.settled else .error .unknownArgument
    else match token keys s t with
      | .error e => .error e
      | .ok s => options keys s ts

def hasFlag (found : List Setting) (key : Key) : Bool := found.contains (.flag key)

def texts (found : List Setting) (key : Key) : List String :=
  found.filterMap fun
    | .text k value => if k = key then some value else none
    | _ => none

def counts (found : List Setting) (key : Key) : List UInt64 :=
  found.filterMap fun
    | .count k value => if k = key then some value else none
    | _ => none

def runArguments (found : List Setting) : RunArguments :=
  let defaults : RunArguments := {}
  { parallel := hasFlag found .parallel
    concurrent := (counts found .concurrent).head?.getD defaults.concurrent
    format := (texts found .format).head?.getD defaults.format
    filter := texts found .filter
    extension := (texts found .extension).head?.getD defaults.extension
    output := (texts found .output).head?
    noColor := hasFlag found .noColor }

def listArguments (found : List Setting) : ListArguments :=
  let defaults : ListArguments := {}
  { detailed := hasFlag found .detailed
    extension := (texts found .extension).head?.getD defaults.extension }

inductive CommandName where
  | run
  | list
  | env
  | help
deriving DecidableEq, Repr

def commandName? (t : Bytes) : Option CommandName :=
  [(Utf8.encode "run", CommandName.run), (Utf8.encode "list", .list), (Utf8.encode "env", .env),
    (Utf8.encode "help", .help)].lookup t

/-- What comes of asking for help on commands. -/
def helpOn : List Bytes → UsageError
  | [] => .displayHelp
  | [t] => if (commandName? t).isSome then .displayHelp else .invalidSubcommand
  | _ => .invalidSubcommand

/-- The option table of a command, and how its settings make a command. -/
def commandOf (name : CommandName) (verbose : Bool) (ts : List Bytes) :
    Except UsageError CommandLine :=
  match name with
  | .help => .error (helpOn ts)
  | .run => (options runKeys {} ts).map fun found =>
    ⟨.run (runArguments found), verbose || hasFlag found .verbose⟩
  | .list => (options listKeys {} ts).map fun found =>
    ⟨.list (listArguments found), verbose || hasFlag found .verbose⟩
  | .env => (options envKeys {} ts).map fun found => ⟨.env, verbose || hasFlag found .verbose⟩

/-- What comes of a command line without a command. -/
def withoutCommand (s : State) : UsageError :=
  if s.found.isEmpty then .displayHelpOnMissingArgument else .missingSubcommand

/-- Reads tokens up to the command and what follows it. -/
def fromRoot : State → List Bytes → Except UsageError CommandLine
  | s, [] => .error (withoutCommand s)
  | s, t :: ts =>
    match commandName? t with
    | some name => commandOf name (hasFlag s.found .verbose) ts
    | none =>
      if t == separator then
        match ts with
        | [] => .error (withoutCommand s)
        | t :: _ =>
          .error (if (commandName? t).isSome then .unknownArgument else .invalidSubcommand)
      else if t.head? == some dash && t != [dash] then
        match token rootKeys s t with
        | .error e => .error e
        | .ok s => fromRoot s ts
      else .error .invalidSubcommand

def parse (tokens : List Bytes) : Except UsageError CommandLine := fromRoot {} tokens

end CommandLine

end Conformance

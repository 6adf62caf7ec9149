import Conformance.Yaml.Token

/-!
# Nodes of YAML

A document is a tree of scalars, sequences and mappings. A node may carry a tag and an anchor; an
alias stands for the node with an anchor of that name. `document?` reads the tokens of a text that
holds exactly one document.

An anchor is numbered by how many names were in use before it. Where a name is used again, that
number does not grow, so that a later anchor may get the same number and take over its aliases. An
alias may stand inside the node it stands for; it is not looked up before it is used.

Each call consumes a token within a few steps, so the number of tokens bounds the depth.
-/

namespace Conformance.Yaml

inductive Node where
  | scalar (tag : Option Bytes) (style : Style) (text : String)
  | sequence (tag : Option Bytes) (items : List Node)
  | mapping (tag : Option Bytes) (entries : List (Node × Node))
  | alias (number : Nat)

structure Anchors where
  /-- The number of each name in use. -/
  numbers : List (String × Nat) := []
  /-- For each number the anchored nodes that had it, by their place among all, latest first. -/
  holders : List (Nat × Nat) := []
  nodes : List (Nat × Node) := []

namespace Anchors

/-- Puts a name in use. The answer is the place of its node. -/
def reserve (a : Anchors) (name : String) : Nat × Anchors :=
  let number := a.numbers.length
  let place := a.holders.length
  (place, { a with
    numbers := (name, number) :: a.numbers.filter (·.1 != name)
    holders := (number, place) :: a.holders })

def fill (a : Anchors) (place : Nat) (n : Node) : Anchors :=
  { a with nodes := (place, n) :: a.nodes }

def node? (a : Anchors) (number : Nat) : Option Node :=
  (a.holders.lookup number).bind fun place => a.nodes.lookup place

end Anchors

/-- A scalar that is left out. -/
def Node.empty : Node := .scalar none .plain ""

abbrev Handles := List (String × Bytes)

/-- What the common tags start with. -/
def commonTag : String := "tag:yaml.org,2002:"

/-- The handles that need no directive. -/
def defaultHandles : Handles := [("!", Utf8.encode "!"), ("!!", Utf8.encode commonTag)]

/-- The tag that a text stands for, unless its handle is unknown. -/
def TagText.resolve? (handles : Handles) : TagText → Option Bytes
  | .verbatim suffix => some suffix
  | .shorthand handle suffix => (handles.lookup handle).map (· ++ suffix)

/-- Tokens not yet read, and the anchors so far. -/
structure Reading where
  tokens : List Token
  anchors : Anchors := {}

abbrev Reader := StateT Reading Option

namespace Reader

def peek? : Reader (Option Token) := fun s => some (s.tokens.head?, s)

def advance : Reader Unit := fun s => some ((), { s with tokens := s.tokens.drop 1 })

/-- Reads the anchor and the tag of a node, which come in either order. -/
def properties : Reader (Option String × Option TagText) := fun s =>
  match s.tokens with
  | .anchor a :: .tag t :: r => some ((some a, some t), { s with tokens := r })
  | .anchor a :: r => some ((some a, none), { s with tokens := r })
  | .tag t :: .anchor a :: r => some ((some a, some t), { s with tokens := r })
  | .tag t :: r => some ((none, some t), { s with tokens := r })
  | _ => some ((none, none), s)

def reserve (name : String) : Reader Nat := fun s =>
  let (place, anchors) := s.anchors.reserve name
  some (place, { s with anchors })

def fill (place : Nat) (n : Node) : Reader Unit := fun s =>
  some ((), { s with anchors := s.anchors.fill place n })

def alias? (name : String) : Reader Node := fun s =>
  (s.anchors.numbers.lookup name).map fun k => (.alias k, s)

/-- The tag that counts for a scalar that is written out: a lone exclamation mark does not. -/
def scalarTag (tag : Option Bytes) : Option Bytes := tag.filter (· != [0x21])

/-- A token behind which a value in a block mapping is left out. -/
def endsBlockValue : Option Token → Bool
  | some .key => true
  | some .value => true
  | some .blockEnd => true
  | _ => false

def endsBlockEntry : Option Token → Bool
  | some .entry => true
  | some .blockEnd => true
  | _ => false

def endsFlowValue : Option Token → Bool
  | some .flowEntry => true
  | some .flowMappingEnd => true
  | _ => false

def endsFlowItem : Option Token → Bool
  | some .flowEntry => true
  | some .flowSequenceEnd => true
  | _ => false

mutual

/-- Reads a node. Block collections are refused inside flow collections; the entries of a sequence
need not be indented below the key of a block mapping. -/
def node (handles : Handles) (inBlock belowKey : Bool) : Nat → Reader Node
  | 0 => failure
  | fuel + 1 => do
    match ← peek? with
    | some (.alias name) =>
      advance
      alias? name
    | _ =>
      let (anchor, tag) ← properties
      let tag ← match tag with
        | none => pure none
        | some t =>
          match t.resolve? handles with
          | some tag => pure (some tag)
          | none => failure
      match anchor with
      | none => content handles inBlock belowKey tag tag.isSome fuel
      | some name =>
        let place ← reserve name
        let n ← content handles inBlock belowKey tag true fuel
        fill place n
        return n

/-- Reads a node behind its tag and anchor. With either it may be left out. -/
def content (handles : Handles) (inBlock belowKey : Bool) (tag : Option Bytes)
    (hasProperties : Bool) : Nat → Reader Node
  | 0 => failure
  | fuel + 1 => do
    match ← peek? with
    | some (.scalar style text) =>
      advance
      return .scalar (scalarTag tag) style text
    | some .flowSequenceStart =>
      advance
      return .sequence tag (← flowItems handles true fuel)
    | some .flowMappingStart =>
      advance
      return .mapping tag (← flowEntries handles true fuel)
    | next =>
      if belowKey && next == some .entry then
        return .sequence tag (← flushEntries handles fuel)
      else if inBlock && next == some .blockSequenceStart then
        advance
        return .sequence tag (← blockEntries handles fuel)
      else if inBlock && next == some .blockMappingStart then
        advance
        return .mapping tag (← blockFields handles fuel)
      else if hasProperties then return .scalar tag .plain ""
      else failure

def blockEntries (handles : Handles) : Nat → Reader (List Node)
  | 0 => failure
  | fuel + 1 => do
    match ← peek? with
    | some .entry =>
      advance
      let n ← if endsBlockEntry (← peek?) then pure .empty else node handles true false fuel
      return n :: (← blockEntries handles fuel)
    | some .blockEnd =>
      advance
      return []
    | _ => failure

/-- Reads the entries of a sequence that is not indented below its key. -/
def flushEntries (handles : Handles) : Nat → Reader (List Node)
  | 0 => failure
  | fuel + 1 => do
    match ← peek? with
    | some .entry =>
      advance
      let next ← peek?
      let n ← if next == some .entry || endsBlockValue next then pure .empty
        else node handles true false fuel
      return n :: (← flushEntries handles fuel)
    | _ => return []

def blockFields (handles : Handles) : Nat → Reader (List (Node × Node))
  | 0 => failure
  | fuel + 1 => do
    match ← peek? with
    | some .key =>
      advance
      let k ← if endsBlockValue (← peek?) then pure .empty else node handles true true fuel
      let v ← blockValue handles fuel
      return (k, v) :: (← blockFields handles fuel)
    | some .blockEnd =>
      advance
      return []
    | _ => failure

def blockValue (handles : Handles) : Nat → Reader Node
  | 0 => failure
  | fuel + 1 => do
    match ← peek? with
    | some .value =>
      advance
      if endsBlockValue (← peek?) then return .empty else node handles true true fuel
    | _ => return .empty

/-- Reads the items of a flow sequence through its end. An item with a colon is a mapping of its
own. -/
def flowItems (handles : Handles) (first : Bool) : Nat → Reader (List Node)
  | 0 => failure
  | fuel + 1 => do
    if (← peek?) == some .flowSequenceEnd then
      advance
      return []
    else
      if !first then
        if (← peek?) == some .flowEntry then advance else failure
      match ← peek? with
      | some .key =>
        advance
        let entry ← flowPair handles fuel
        return .mapping none [entry] :: (← flowItems handles false fuel)
      | some .flowSequenceEnd =>
        advance
        return []
      | _ =>
        let n ← node handles false false fuel
        return n :: (← flowItems handles false fuel)

/-- Reads the only key and value of a mapping in a flow sequence. A key that is left out takes its
colon with it. -/
def flowPair (handles : Handles) : Nat → Reader (Node × Node)
  | 0 => failure
  | fuel + 1 => do
    let next ← peek?
    let k ← if next == some .value || endsFlowItem next then do
        advance
        pure Node.empty
      else node handles false false fuel
    match ← peek? with
    | some .value =>
      advance
      if endsFlowItem (← peek?) then return (k, .empty)
      else return (k, ← node handles false false fuel)
    | _ => return (k, .empty)

def flowEntries (handles : Handles) (first : Bool) : Nat → Reader (List (Node × Node))
  | 0 => failure
  | fuel + 1 => do
    if (← peek?) == some .flowMappingEnd then
      advance
      return []
    else
      if !first then
        if (← peek?) == some .flowEntry then advance else failure
      match ← peek? with
      | some .key =>
        advance
        let next ← peek?
        let k ← if next == some .value || endsFlowValue next then pure .empty
          else node handles false false fuel
        let v ← flowValue handles fuel
        return (k, v) :: (← flowEntries handles false fuel)
      | some .flowMappingEnd =>
        advance
        return []
      | _ =>
        let k ← node handles false false fuel
        return (k, .empty) :: (← flowEntries handles false fuel)

def flowValue (handles : Handles) : Nat → Reader Node
  | 0 => failure
  | fuel + 1 => do
    match ← peek? with
    | some .value =>
      advance
      if endsFlowValue (← peek?) then return .empty else node handles false false fuel
    | _ => return .empty

end

end Reader

/-- Reads the directives in front of a document: one version, which must be 1.1 or 1.2, and handles
of tags, each once. -/
def directives? (version : Bool) (handles : Handles) : List Token → Option (Handles × List Token)
  | .version major minor :: r =>
    if !version && major == 1 && (minor == 1 || minor == 2) then directives? true handles r
    else none
  | .tagDirective handle expansion :: r =>
    if (handles.lookup handle).isSome then none
    else directives? version ((handle, expansion) :: handles) r
  | r => some (handles, r)

/-- Whether a document is left out in front of tokens. -/
def endsDocument : List Token → Bool
  | [] => true
  | .version _ _ :: _ => true
  | .tagDirective _ _ :: _ => true
  | .documentStart :: _ => true
  | .documentEnd :: _ => true
  | _ => false

def startsExplicitly : List Token → Bool
  | .version _ _ :: _ => true
  | .tagDirective _ _ :: _ => true
  | .documentStart :: _ => true
  | _ => false

def root? (tokens : List Token) : Option (Node × Reading) :=
  let fuel := 4 * tokens.length + 8
  if startsExplicitly tokens then
    match directives? false [] tokens with
    | some (handles, .documentStart :: r) =>
      if endsDocument r then some (.empty, { tokens := r })
      else Reader.node (handles ++ defaultHandles) true false fuel { tokens := r }
    | _ => none
  else Reader.node defaultHandles true false fuel { tokens }

structure Document where
  root : Node
  anchors : Anchors

/-- Reads the tokens of a text that holds exactly one document. -/
def document? (tokens : List Token) : Option Document :=
  match root? tokens with
  | some (n, s) => if s.tokens.all (· == .documentEnd) then some ⟨n, s.anchors⟩ else none
  | none => none

def read? (cs : List Char) : Option Document := (tokens? cs).bind document?

end Conformance.Yaml

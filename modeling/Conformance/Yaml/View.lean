import Conformance.Number.Word
import Conformance.Yaml.Node
import Conformance.Record

/-!
# Looking at YAML nodes

Every scalar has a text, whatever its style. Truth values and numbers are plain, or literal blocks
tagged as such. A plain scalar that is empty or spells null stands for the absence of a value,
unless it has a tag of another kind. A record is a mapping, and an alternative that carries nothing
is a scalar with its name, or nothing with its name as a tag.
-/

namespace Conformance.Yaml

def commonTagOf (kind : String) : Bytes := Utf8.encode (commonTag ++ kind)

namespace Node

def resolve? (anchors : Anchors) : Node → Option Node
  | .alias k => anchors.node? k
  | n => some n

def text? : Node → Option String
  | .scalar _ _ text => some text
  | _ => none

/-- The text of a scalar that may be a value of a kind: it is plain, or a literal block with the tag
of that kind. -/
def plainText? (kind : String) : Node → Option String
  | .scalar _ .plain text => some text
  | .scalar tag .literal text => if tag == some (commonTagOf kind) then some text else none
  | _ => none

def bool? (n : Node) : Option Bool := (n.plainText? "bool").bind boolOfText?

def word? (n : Node) : Option UInt64 := do
  Word.unsigned? (← unsigned? (← n.plainText? "int").toList)

def int32? (n : Node) : Option Int32 := do
  Word.signed? (← signed? (← n.plainText? "int").toList)

/-- Whether the node stands for the absence of a value. A node tagged as null that does not spell it
is refused. -/
def isNull? : Node → Option Bool
  | .scalar none .plain text => some (text == "" || isNullText text)
  | .scalar (some tag) .plain text =>
    if tag == commonTagOf "null" then if isNullText text then some true else none else some false
  | _ => some false

/-- The items of a sequence. A plain scalar that is empty is an empty sequence. -/
def list? : Node → Option (List Node)
  | .sequence _ items => some items
  | .scalar _ .plain "" => some []
  | _ => none

def tagName? : Bytes → Option String
  | [0x21] => some "!"
  | 0x21 :: name => Utf8.decode? name
  | _ => none

def variant? : Node → Option String
  | .scalar tag style text =>
    match tag.bind tagName? with
    | some name =>
      if style == .plain && (text == "" || isNullText text) then some name else none
    | none => some text
  | _ => none

/-- The fields of a mapping, if all its keys are scalars. -/
def entries? (anchors : Anchors) : List (Node × Node) → Option (List (String × Node))
  | [] => some []
  | (k, x) :: es => do
    let name ← (← k.resolve? anchors).text?
    return (name, x) :: (← entries? anchors es)

def fields? (anchors : Anchors) : Node → Option (List (String × Node))
  | .mapping _ es => entries? anchors es
  | _ => none

end Node

def view (anchors : Anchors) : View Node where
  text? n := (n.resolve? anchors).bind Node.text?
  bool? n := (n.resolve? anchors).bind Node.bool?
  word? n := (n.resolve? anchors).bind Node.word?
  int32? n := (n.resolve? anchors).bind Node.int32?
  isNull? n := (n.resolve? anchors).bind Node.isNull?
  list? n := (n.resolve? anchors).bind Node.list?
  variant? n := (n.resolve? anchors).bind Node.variant?
  fields? _ _ n := (n.resolve? anchors).bind (Node.fields? anchors)

end Conformance.Yaml

/-!
# Reading records

Reports are read from more than one format, and the records in them are read the same way from
each. A `View` says how a format shows plain values, lists and records; the functions here look up
fields. An unknown field is passed over whatever its value. A known field may occur once: a second
occurrence is refused, and so is the absence of a field that must be there.

Some formats also write a record as the bare list of its fields. In that form every field has its
place, and only fields at the end that have a default can be left out.
-/

namespace Conformance

/-- How the values `α` of a format are looked at. Each look fails on a value of another kind. -/
structure View (α : Type) where
  text? : α → Option String
  bool? : α → Option Bool
  word? : α → Option UInt64
  int32? : α → Option Int32
  /-- Whether the value stands for the absence of one. -/
  isNull? : α → Option Bool
  list? : α → Option (List α)
  /-- The name of an alternative that carries nothing. -/
  variant? : α → Option String
  /-- The fields of a record with the given field names, of which the last `defaulted` may be left
  out of a bare list. -/
  fields? : (names : List String) → (defaulted : Nat) → α → Option (List (String × α))

inductive Occurrence (α : Type) where
  | never
  | once (a : α)
  | repeatedly

abbrev Fields (α : Type) := List (String × α)

namespace Fields

variable {α β : Type}

def occurrence (name : String) : Fields α → Occurrence α
  | [] => .never
  | (k, a) :: fs =>
    if k = name then
      match occurrence name fs with
      | .never => .once a
      | _ => .repeatedly
    else occurrence name fs

def required (fs : Fields α) (name : String) (read : α → Option β) : Option β :=
  match fs.occurrence name with
  | .once a => read a
  | _ => none

/-- Reads a field that has a value of its own when it is left out. -/
def withDefault (fs : Fields α) (name : String) (default : β) (read : α → Option β) :
    Option β :=
  match fs.occurrence name with
  | .never => some default
  | .once a => read a
  | .repeatedly => none

/-- Reads a field whose value may be null or left out. -/
def optional (v : View α) (fs : Fields α) (name : String) (read : α → Option β) :
    Option (Option β) :=
  fs.withDefault name none fun a =>
    match v.isNull? a with
    | some true => some none
    | some false => (read a).map some
    | none => none

end Fields

/-- The fields of a record written as the bare list of its fields. -/
def positionalFields {α : Type} (names : List String) (defaulted : Nat) (items : List α) :
    Option (List (String × α)) :=
  if items.length ≤ names.length ∧ names.length ≤ items.length + defaulted then
    some (names.zip items)
  else none

end Conformance

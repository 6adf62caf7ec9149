import Conformance.Json.Reader

/-!
# The texts of a JSON value

`Spells x cs` says that `cs` is a text of the value `x`, with any blanks between
the tokens and any of the escapes there are for the characters of its strings.
Nothing here depends on how a text is read: a string is a list of elements that
denotes a text or none (`Denotes`), a number is its parts (`NumberText`), and
the parts of an array or an object are joined by commas (`Separated`). A text may
have blanks around its value as well (`Writes`).
-/

namespace Conformance.Json

def Blanks (ws : List Char) : Prop := ∀ c ∈ ws, isBlank c = true

def HexDigit (n : Nat) (c : Char) : Prop :=
  n < 16 ∧ (c = Nat.digitChar n ∨ c = (Nat.digitChar n).toUpper)

instance (n : Nat) (c : Char) : Decidable (HexDigit n c) :=
  inferInstanceAs (Decidable (_ ∧ _))

/-- The characters behind a backslash and what they stand for. -/
def shortEscapes : List (Char × Char) :=
  [('"', '"'), ('\\', '\\'), ('/', '/'), ('b', '\x08'), ('f', '\x0c'), ('n', '\n'), ('r', '\r'),
    ('t', '\t')]

/-- The ways to write one element of a string. -/
inductive ElementText : Element → List Char → Prop
  | plain {c : Char} (hcontrol : 0x20 ≤ c.toNat) (hquote : c ≠ '"') (hslash : c ≠ '\\') :
      ElementText (.char c) [c]
  | short {e c : Char} (h : (e, c) ∈ shortEscapes) : ElementText (.char c) ['\\', e]
  | unit {n : Nat} {a b c d : Char} (ha : HexDigit (n / 4096) a) (hb : HexDigit (n / 256 % 16) b)
      (hc : HexDigit (n / 16 % 16) c) (hd : HexDigit (n % 16) d) :
      ElementText (.unit n) ['\\', 'u', a, b, c, d]

/-- Elements one behind the other. -/
inductive ElementsText : List Element → List Char → Prop
  | nil : ElementsText [] []
  | cons {e : Element} {es : List Element} {cs cs' : List Char} (he : ElementText e cs)
      (hes : ElementsText es cs') : ElementsText (e :: es) (cs ++ cs')

/-- The characters that elements denote. Units are those of UTF-16, where a character beyond the
first 65536 takes two. -/
inductive Denotes : List Element → List Char → Prop
  | nil : Denotes [] []
  | char {c : Char} {es : List Element} {cs : List Char} (h : Denotes es cs) :
      Denotes (.char c :: es) (c :: cs)
  | unit {c : Char} {es : List Element} {cs : List Char} (hc : c.toNat < 0x10000)
      (h : Denotes es cs) : Denotes (.unit c.toNat :: es) (c :: cs)
  | pair {c : Char} {es : List Element} {cs : List Char} (hc : 0x10000 ≤ c.toNat)
      (h : Denotes es cs) :
      Denotes (.unit (0xD800 + (c.toNat - 0x10000) / 1024) ::
        .unit (0xDC00 + (c.toNat - 0x10000) % 1024) :: es) (c :: cs)

/-- A string between quotes. Its value is a text if its elements denote one, and `none` if they
denote none. -/
def StringText (s : Option String) (cs : List Char) : Prop :=
  ∃ es body, ElementsText es body ∧ cs = '"' :: (body ++ ['"']) ∧
    ∀ text, s = some text ↔ Denotes es text.toList

def Digits (ds : List Char) : Prop := ds ≠ [] ∧ ∀ c ∈ ds, Decimal.isDigit c = true

inductive FractionText : List Char → Prop
  | absent : FractionText []
  | present {ds : List Char} (h : Digits ds) : FractionText ('.' :: ds)

inductive ExponentText : List Char → Prop
  | absent : ExponentText []
  | present {mark : Char} {sign ds : List Char} (hmark : mark = 'e' ∨ mark = 'E')
      (hsign : sign = [] ∨ sign = ['+'] ∨ sign = ['-']) (h : Digits ds) :
      ExponentText (mark :: (sign ++ ds))

structure NumberText where
  /-- It has a minus sign. -/
  negative : Bool
  whole : List Char
  fraction : List Char
  exponent : List Char
  digits_whole : Digits whole
  no_leading_zero : ∀ c tail, whole ≠ '0' :: c :: tail
  fraction_ok : FractionText fraction
  exponent_ok : ExponentText exponent

namespace NumberText

def text (n : NumberText) : List Char :=
  (if n.negative then ['-'] else []) ++ (n.whole ++ (n.fraction ++ n.exponent))

/-- What is kept of the number. -/
def number (n : NumberText) : Number :=
  ⟨n.negative, n.whole, n.fraction.isEmpty && n.exponent.isEmpty⟩

def IsInteger (n : NumberText) : Prop := n.fraction = [] ∧ n.exponent = []

/-- The number that the digits in front of the point spell. -/
def magnitude (n : NumberText) : Nat := Decimal.value n.whole

/-- The number in front of the point, with its sign. -/
def value (n : NumberText) : Int := if n.negative then -n.magnitude else n.magnitude

end NumberText

section Lists

variable {α : Type} (text : α → List Char)

/-- Texts with commas between them and blanks around them. -/
inductive Separated : List α → List Char → Prop
  | single {a : α} {ws ws' : List Char} (hws : Blanks ws) (hws' : Blanks ws') :
      Separated [a] (ws ++ (text a ++ ws'))
  | cons {a : α} {as : List α} {ws ws' cs : List Char} (hws : Blanks ws) (hws' : Blanks ws')
      (h : Separated as cs) : Separated (a :: as) (ws ++ (text a ++ (ws' ++ ',' :: cs)))

/-- Separated texts, or none, between two marks. -/
inductive Enclosed (opening closing : Char) : List α → List Char → Prop
  | nil {ws : List Char} (hws : Blanks ws) :
      Enclosed opening closing [] (opening :: (ws ++ [closing]))
  | parts {as : List α} {cs : List Char} (h : Separated text as cs) :
      Enclosed opening closing as (opening :: (cs ++ [closing]))

end Lists

structure MemberText where
  name : Option String
  nameText : List Char
  before : List Char
  after : List Char
  value : Json
  valueText : List Char
  name_ok : StringText name nameText
  blanks_before : Blanks before
  blanks_after : Blanks after

def MemberText.text (m : MemberText) : List Char :=
  m.nameText ++ (m.before ++ ':' :: (m.after ++ m.valueText))

/-- The text is one of the value. -/
inductive Spells : Json → List Char → Prop
  | null : Spells .null "null".toList
  | true : Spells (.bool .true) "true".toList
  | false : Spells (.bool .false) "false".toList
  | number (n : NumberText) : Spells (.number n.number) n.text
  | string {s : Option String} {cs : List Char} (h : StringText s cs) : Spells (.string s) cs
  | array {items : List (Json × List Char)} {cs : List Char} (hitems : ∀ i ∈ items, Spells i.1 i.2)
      (h : Enclosed Prod.snd '[' ']' items cs) : Spells (.array (items.map Prod.fst)) cs
  | object {members : List MemberText} {cs : List Char}
      (hmembers : ∀ m ∈ members, Spells m.value m.valueText)
      (h : Enclosed MemberText.text '{' '}' members cs) :
      Spells (.object (members.map fun m => (m.name, m.value))) cs

def SpellsItems (xs : List Json) (cs : List Char) : Prop :=
  ∃ items : List (Json × List Char), xs = items.map Prod.fst ∧ (∀ i ∈ items, Spells i.1 i.2) ∧
    Separated Prod.snd items cs

def SpellsMembers (ms : List (Option String × Json)) (cs : List Char) : Prop :=
  ∃ members : List MemberText, ms = members.map (fun m => (m.name, m.value)) ∧
    (∀ m ∈ members, Spells m.value m.valueText) ∧ Separated MemberText.text members cs

/-- The text is one of the value, with blanks around it. -/
def Writes (text : String) (x : Json) : Prop :=
  ∃ ws cs ws', Blanks ws ∧ Blanks ws' ∧ Spells x cs ∧ text.toList = ws ++ (cs ++ ws')

section Parts

variable {x : Json} {xs : List Json} {ms : List (Option String × Json)} {name : Option String}
  {cs cs' nameText ws ws' before after : List Char}

theorem blanks_nil : Blanks [] := nofun

theorem Spells.writes {text : String} (h : Spells x text.toList) : Writes text x :=
  ⟨[], text.toList, [], blanks_nil, blanks_nil, h, by simp⟩

theorem Spells.items (h : Spells x cs) (hws : Blanks ws) (hws' : Blanks ws') :
    SpellsItems [x] (ws ++ (cs ++ ws')) :=
  ⟨[(x, cs)], rfl, List.forall_mem_singleton.2 h, .single hws hws'⟩

theorem SpellsItems.cons (hxs : SpellsItems xs cs') (h : Spells x cs) (hws : Blanks ws)
    (hws' : Blanks ws') : SpellsItems (x :: xs) (ws ++ (cs ++ (ws' ++ ',' :: cs'))) := by
  obtain ⟨items, rfl, hitems, hcs'⟩ := hxs
  exact ⟨(x, cs) :: items, rfl, List.forall_mem_cons.2 ⟨h, hitems⟩, .cons hws hws' hcs'⟩

theorem SpellsItems.array (h : SpellsItems xs cs) : Spells (.array xs) ('[' :: (cs ++ [']'])) := by
  obtain ⟨items, rfl, hitems, hcs⟩ := h
  exact .array hitems (.parts hcs)

theorem Spells.members (h : Spells x cs) (hname : StringText name nameText)
    (hbefore : Blanks before) (hafter : Blanks after) (hws : Blanks ws) (hws' : Blanks ws') :
    SpellsMembers [(name, x)]
      (ws ++ (nameText ++ (before ++ ':' :: (after ++ cs)) ++ ws')) :=
  ⟨[⟨name, nameText, before, after, x, cs, hname, hbefore, hafter⟩], rfl,
    List.forall_mem_singleton.2 h, .single hws hws'⟩

theorem SpellsMembers.cons (hms : SpellsMembers ms cs') (h : Spells x cs)
    (hname : StringText name nameText) (hbefore : Blanks before) (hafter : Blanks after)
    (hws : Blanks ws) (hws' : Blanks ws') :
    SpellsMembers ((name, x) :: ms)
      (ws ++ (nameText ++ (before ++ ':' :: (after ++ cs)) ++ (ws' ++ ',' :: cs'))) := by
  obtain ⟨members, rfl, hmembers, hcs'⟩ := hms
  exact ⟨⟨name, nameText, before, after, x, cs, hname, hbefore, hafter⟩ :: members, rfl,
    List.forall_mem_cons.2 ⟨h, hmembers⟩, .cons hws hws' hcs'⟩

theorem SpellsMembers.object (h : SpellsMembers ms cs) :
    Spells (.object ms) ('{' :: (cs ++ ['}'])) := by
  obtain ⟨members, rfl, hmembers, hcs⟩ := h
  exact .object hmembers (.parts hcs)

theorem spells_array_nil (hws : Blanks ws) : Spells (.array []) ('[' :: (ws ++ [']'])) :=
  .array (List.forall_mem_nil _) (.nil hws)

theorem spells_object_nil (hws : Blanks ws) : Spells (.object []) ('{' :: (ws ++ ['}'])) :=
  .object (List.forall_mem_nil _) (.nil hws)

end Parts

end Conformance.Json

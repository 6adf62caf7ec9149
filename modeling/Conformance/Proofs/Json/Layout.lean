import Conformance.Json.Printer
import Conformance.Json.View
import Conformance.Proofs.Json.Reading
import Conformance.Proofs.Report.Records
import Mathlib.Tactic.SplitIfs

/-!
# Printed values read back

`ofData d` is the JSON value of report data, where a path is the string of its
text. If every path in `d` has a text (`Data.paths`), then `d` is printed, and
what is printed is a text of `ofData d` (`exists_pretty`), so that it reads as
that value. The proof follows the recursion of the printer, level by level. A
path without text stops the printer, so the paths decide whether `d` is printed
(`prettyText?_isSome_iff`). Looking at `ofData d` finds what is in `d`
(`view_shows`).
-/

namespace Conformance

namespace Chunks

theorem complete?_nil : complete? [] = some "" := rfl

theorem complete?_cons {s t : String} {cs : Chunks} (h : cs.complete? = some t) :
    complete? (some s :: cs) = some (s ++ t) := by
  rw [complete?] at h
  obtain ⟨parts, hparts, rfl⟩ := Option.map_eq_some_iff.1 h
  simp [complete?, List.mapM_cons, hparts]

theorem complete?_append {s t : String} {cs cs' : Chunks} (h : cs.complete? = some s)
    (h' : cs'.complete? = some t) : complete? (cs ++ cs') = some (s ++ t) := by
  rw [complete?] at h h'
  obtain ⟨parts, hparts, rfl⟩ := Option.map_eq_some_iff.1 h
  obtain ⟨parts', hparts', rfl⟩ := Option.map_eq_some_iff.1 h'
  simp [complete?, List.mapM_append, hparts, hparts']

theorem complete?_singleton (s : String) : complete? [some s] = some s := by
  rw [complete?_cons complete?_nil, String.append_empty]

/-- A path without text stops the whole text. -/
theorem complete?_of_none_mem {cs : Chunks} (h : none ∈ cs) : cs.complete? = none := by
  have hparts : cs.mapM id = none := by
    induction cs with
    | nil => cases h
    | cons c cs ih =>
        cases c with
        | none => rfl
        | some s =>
            have hrest := ih (by simpa using h)
            simp [List.mapM_cons, hrest]
  rw [complete?, hparts]
  rfl

end Chunks

namespace Json

section Tokens

/-- A character is escaped in short, escaped by number, or stands for itself. -/
theorem escape_cases (c : Char) :
    (∃ e, (e, c) ∈ shortEscapes ∧ escape c = ['\\', e]) ∨
      (c.toNat < 0x20 ∧ escape c =
        ['\\', 'u', '0', '0', Nat.digitChar (c.toNat / 16), Nat.digitChar (c.toNat % 16)]) ∨
      (0x20 ≤ c.toNat ∧ c ≠ '"' ∧ c ≠ '\\' ∧ escape c = [c]) := by
  unfold escape
  simp only [beq_iff_eq]
  split_ifs with h1 h2 h3 h4 h5 h6 h7 h8
  · exact .inl ⟨'"', by rw [h1]; decide, rfl⟩
  · exact .inl ⟨'\\', by rw [h2]; decide, rfl⟩
  · exact .inl ⟨'b', by rw [h3]; decide, rfl⟩
  · exact .inl ⟨'t', by rw [h4]; decide, rfl⟩
  · exact .inl ⟨'n', by rw [h5]; decide, rfl⟩
  · exact .inl ⟨'f', by rw [h6]; decide, rfl⟩
  · exact .inl ⟨'r', by rw [h7]; decide, rfl⟩
  · exact .inr (.inl ⟨h8, rfl⟩)
  · exact .inr (.inr ⟨Nat.le_of_not_lt h8, h1, h2, rfl⟩)

/-- An escaped character is one element, which denotes the character. -/
theorem exists_element (c : Char) :
    ∃ e, ElementText e (escape c) ∧ ∀ es cs, Denotes es cs → Denotes (e :: es) (c :: cs) := by
  rcases escape_cases c with ⟨e, he, hescape⟩ | ⟨hc, hescape⟩ | ⟨hc, hquote, hslash, hescape⟩
  · rw [hescape]
    exact ⟨.char c, .short he, fun _ _ => .char⟩
  · have hzero : HexDigit 0 '0' := ⟨by decide, .inl rfl⟩
    have htext : ElementText (.unit c.toNat) (escape c) := by
      rw [hescape]
      refine .unit ?_ ?_ ?_ ?_
      · rwa [show c.toNat / 4096 = 0 by omega]
      · rwa [show c.toNat / 256 % 16 = 0 by omega]
      · rw [show c.toNat / 16 % 16 = c.toNat / 16 by omega]
        exact ⟨by omega, .inl rfl⟩
      · exact ⟨by omega, .inl rfl⟩
    exact ⟨.unit c.toNat, htext, fun _ _ => .unit (by omega)⟩
  · rw [hescape]
    exact ⟨.char c, .plain hc hquote hslash, fun _ _ => .char⟩

theorem exists_elements (cs : List Char) :
    ∃ es, ElementsText es (cs.flatMap escape) ∧ Denotes es cs := by
  induction cs with
  | nil => exact ⟨[], .nil, .nil⟩
  | cons c cs ih =>
      obtain ⟨es, htext, hdenotes⟩ := ih
      obtain ⟨e, he, hcons⟩ := exists_element c
      exact ⟨e :: es, .cons he htext, hcons es cs hdenotes⟩

theorem toList_quote (s : String) :
    (quote s).toList = '"' :: (s.toList.flatMap escape ++ ['"']) := by
  rw [quote, String.toList_ofList, List.cons_append]

theorem stringText_quote (s : String) : StringText (some s) (quote s).toList := by
  obtain ⟨es, htext, hdenotes⟩ := exists_elements s.toList
  rw [toList_quote]
  exact .of_denotes htext hdenotes

theorem toList_natText (n : Nat) : (Decimal.natText n).toList = Nat.toDigits 10 n :=
  String.toList_ofList

def spelling (n : Int) : Number := ⟨n < 0, Nat.toDigits 10 n.natAbs, true⟩

def NumberText.ofInt (n : Int) : NumberText where
  negative := n < 0
  whole := Nat.toDigits 10 n.natAbs
  fraction := []
  exponent := []
  digits_whole := ⟨Nat.toDigits_ne_nil, fun _ => Decimal.isDigit_of_mem_toDigits⟩
  no_leading_zero _ _ := Decimal.toDigits_ne_zero_cons
  fraction_ok := .absent
  exponent_ok := .absent

theorem NumberText.text_ofInt (n : Int) : (ofInt n).text = (Decimal.intText n).toList := by
  cases n with
  | ofNat n => simp [ofInt, text, Decimal.intText, toList_natText]
  | negSucc n => simp [ofInt, text, Decimal.intText, toList_natText]

theorem spells_intText (n : Int) : Spells (.number (spelling n)) (Decimal.intText n).toList :=
  NumberText.text_ofInt n ▸ .number (.ofInt n)

theorem isNumeral_of_mem_intText {n : Int} {c : Char} (h : c ∈ (Decimal.intText n).toList) :
    IsNumeral c := by
  cases n with
  | ofNat n =>
      rw [Decimal.intText, toList_natText] at h
      exact .inr (Decimal.isDigit_of_mem_toDigits h)
  | negSucc n =>
      rw [Decimal.intText, String.toList_append, toList_natText] at h
      rcases List.mem_append.1 h with hminus | hdigit
      · exact .inl (List.mem_singleton.1 hminus)
      · exact .inr (Decimal.isDigit_of_mem_toDigits hdigit)

theorem intText_ne_nil (n : Int) : (Decimal.intText n).toList ≠ [] := by
  cases n with
  | ofNat n =>
      rw [Decimal.intText, toList_natText]
      exact Nat.toDigits_ne_nil
  | negSucc n => simp [Decimal.intText]

end Tokens

mutual

/-- The JSON value of report data. -/
def ofData : Data → Json
  | .null => .null
  | .bool b => .bool b
  | .int n => .number (spelling n)
  | .text s => .string (some s)
  | .path p => .string p.text?
  | .list items => .array (ofItems items)
  | .record fields => .object (ofFields fields)

def ofItems : List Data → List Json
  | [] => []
  | x :: xs => ofData x :: ofItems xs

def ofFields : List (String × Data) → List (Option String × Json)
  | [] => []
  | (k, x) :: fields => (some k, ofData x) :: ofFields fields

end

theorem blanks_newline (level : Nat) : Blanks (newline level).toList := by
  rw [newline, String.toList_ofList]
  intro c hc
  rcases List.mem_cons.1 hc with rfl | hblank
  · rfl
  · rw [List.eq_of_mem_replicate hblank]
    rfl

theorem blanks_blank : Blanks [' '] := List.forall_mem_singleton.2 rfl

mutual

theorem exists_pretty (level : Nat) (d : Data) (h : ∀ p ∈ d.paths, p.text?.isSome) :
    ∃ text, (pretty level d).complete? = some text ∧ Spells (ofData d) text.toList := by
  match d with
  | .null => exact ⟨_, Chunks.complete?_singleton _, Spells.null⟩
  | .bool true => exact ⟨_, Chunks.complete?_singleton _, Spells.true⟩
  | .bool false => exact ⟨_, Chunks.complete?_singleton _, Spells.false⟩
  | .int n => exact ⟨_, Chunks.complete?_singleton _, spells_intText n⟩
  | .text s => exact ⟨_, Chunks.complete?_singleton _, Spells.string (stringText_quote s)⟩
  | .path p =>
      obtain ⟨s, hs⟩ := Option.isSome_iff_exists.1 (h p (by simp [Data.paths]))
      refine ⟨quote s, ?_, ?_⟩
      · rw [pretty, atom, hs]
        exact Chunks.complete?_singleton _
      · rw [ofData, hs]
        exact Spells.string (stringText_quote s)
  | .list [] => exact ⟨_, Chunks.complete?_singleton _, spells_array_nil blanks_nil⟩
  | .list (x :: xs) =>
      obtain ⟨text, htext, hbody⟩ := exists_prettyItems (level + 1) (x :: xs) (by simp) h
      refine ⟨_, Chunks.complete?_cons (Chunks.complete?_append htext
        (Chunks.complete?_singleton _)), ?_⟩
      simpa [ofData] using (hbody _ (blanks_newline level)).array
  | .record [] => exact ⟨_, Chunks.complete?_singleton _, spells_object_nil blanks_nil⟩
  | .record (field :: fields) =>
      obtain ⟨text, htext, hbody⟩ := exists_prettyFields (level + 1) (field :: fields) (by simp) h
      refine ⟨_, Chunks.complete?_cons (Chunks.complete?_append htext
        (Chunks.complete?_singleton _)), ?_⟩
      simpa [ofData] using (hbody _ (blanks_newline level)).object

theorem exists_prettyItems (level : Nat) (items : List Data) (hne : items ≠ [])
    (h : ∀ p ∈ Data.pathsOfItems items, p.text?.isSome) :
    ∃ text, (prettyItems level items).complete? = some text ∧
      ∀ ws, Blanks ws → SpellsItems (ofItems items) (text.toList ++ ws) := by
  match items with
  | [] => exact absurd rfl hne
  | [x] =>
      obtain ⟨text, htext, hspells⟩ :=
        exists_pretty level x fun p hp => h p (List.mem_append_left _ hp)
      refine ⟨_, Chunks.complete?_cons htext, fun ws hws => ?_⟩
      simpa [ofItems] using hspells.items (blanks_newline level) hws
  | x :: y :: xs =>
      obtain ⟨text, htext, hspells⟩ :=
        exists_pretty level x fun p hp => h p (List.mem_append_left _ hp)
      obtain ⟨text', htext', hbody⟩ := exists_prettyItems level (y :: xs) (by simp)
        fun p hp => h p (List.mem_append_right _ hp)
      refine ⟨_, Chunks.complete?_append (Chunks.complete?_cons htext)
        (Chunks.complete?_cons htext'), fun ws hws => ?_⟩
      simpa [ofItems] using (hbody ws hws).cons hspells (blanks_newline level) blanks_nil

theorem exists_prettyFields (level : Nat) (fields : List (String × Data)) (hne : fields ≠ [])
    (h : ∀ p ∈ Data.pathsOfFields fields, p.text?.isSome) :
    ∃ text, (prettyFields level fields).complete? = some text ∧
      ∀ ws, Blanks ws → SpellsMembers (ofFields fields) (text.toList ++ ws) := by
  match fields with
  | [] => exact absurd rfl hne
  | [(k, x)] =>
      obtain ⟨text, htext, hspells⟩ :=
        exists_pretty level x fun p hp => h p (List.mem_append_left _ hp)
      refine ⟨_, Chunks.complete?_cons htext, fun ws hws => ?_⟩
      simpa [ofFields] using
        hspells.members (stringText_quote k) blanks_nil blanks_blank (blanks_newline level) hws
  | (k, x) :: field :: fields =>
      obtain ⟨text, htext, hspells⟩ :=
        exists_pretty level x fun p hp => h p (List.mem_append_left _ hp)
      obtain ⟨text', htext', hbody⟩ := exists_prettyFields level (field :: fields) (by simp)
        fun p hp => h p (List.mem_append_right _ hp)
      refine ⟨_, Chunks.complete?_append (Chunks.complete?_cons htext)
        (Chunks.complete?_cons htext'), fun ws hws => ?_⟩
      simpa [ofFields] using (hbody ws hws).cons hspells (stringText_quote k) blanks_nil
        blanks_blank (blanks_newline level) blanks_nil

end

variable {p : Path}

mutual

theorem none_mem_pretty (hp : p.text? = none) (level : Nat) (d : Data) (h : p ∈ d.paths) :
    none ∈ pretty level d := by
  match d with
  | .path q =>
      have hq : p = q := by simpa [Data.paths] using h
      subst hq
      simp [pretty, atom, hp]
  | .list (x :: xs) => simp [pretty, none_mem_prettyItems hp (level + 1) (x :: xs) h]
  | .record (field :: fields) =>
      simp [pretty, none_mem_prettyFields hp (level + 1) (field :: fields) h]

theorem none_mem_prettyItems (hp : p.text? = none) (level : Nat) (items : List Data)
    (h : p ∈ Data.pathsOfItems items) : none ∈ prettyItems level items := by
  match items with
  | [x] =>
      have hx : p ∈ x.paths := by simpa [Data.pathsOfItems] using h
      simp [prettyItems, none_mem_pretty hp level x hx]
  | x :: y :: xs =>
      rw [Data.pathsOfItems] at h
      rcases List.mem_append.1 h with hx | hxs
      · simp [prettyItems, none_mem_pretty hp level x hx]
      · simp [prettyItems, none_mem_prettyItems hp level (y :: xs) hxs]

theorem none_mem_prettyFields (hp : p.text? = none) (level : Nat) (fields : List (String × Data))
    (h : p ∈ Data.pathsOfFields fields) : none ∈ prettyFields level fields := by
  match fields with
  | [(k, x)] =>
      have hx : p ∈ x.paths := by simpa [Data.pathsOfFields] using h
      simp [prettyFields, none_mem_pretty hp level x hx]
  | (k, x) :: field :: fields =>
      rw [Data.pathsOfFields] at h
      rcases List.mem_append.1 h with hx | hxs
      · simp [prettyFields, none_mem_pretty hp level x hx]
      · simp [prettyFields, none_mem_prettyFields hp level (field :: fields) hxs]

end

/-- The paths alone decide whether a value is printed. -/
theorem prettyText?_isSome_iff (d : Data) :
    (prettyText? d).isSome ↔ ∀ p ∈ d.paths, p.text?.isSome := by
  constructor
  · intro h p hp
    rw [Option.isSome_iff_ne_none]
    intro hnone
    rw [prettyText?, Chunks.complete?_of_none_mem (none_mem_pretty hnone 0 d hp)] at h
    cases h
  · intro h
    obtain ⟨text, htext, -⟩ := exists_pretty 0 d h
    rw [prettyText?, htext]
    rfl

theorem int?_spelling (n : Int) : (spelling n).int? = some n := by
  simp only [Number.int?, spelling, Decimal.value_toDigits, Bool.not_true, Bool.false_or]
  rw [if_neg]
  · simp only [decide_eq_true_eq]
    split_ifs <;> simp only [Option.some.injEq] <;> omega
  · simp only [Bool.and_eq_true, decide_eq_true_eq]
    omega

theorem int?_ofData (n : Int) : int? (ofData (.int n)) = some n := by
  rw [ofData]
  exact int?_spelling n

theorem ofItems_eq_map (items : List Data) : ofItems items = items.map ofData := by
  induction items with
  | nil => rfl
  | cons x xs ih => rw [ofItems, ih, List.map_cons]

theorem members_ofFields (fields : List (String × Data)) :
    members (ofFields fields) = some (fields.map fun f => (f.1, ofData f.2)) := by
  induction fields with
  | nil => rfl
  | cons f fields ih => rw [ofFields, members, ih, Option.map_some, List.map_cons]

theorem view_shows : view.Shows ofData where
  text _ := rfl
  path _ := rfl
  bool _ := rfl
  word n := by
    have hint : int? (ofData (.word n)) = some (n.toNat : Int) := int?_ofData n.toNat
    have hword : Word.unsigned? n.toNat = some n := by
      rw [Word.unsigned?, if_pos n.toNat_lt_size, UInt64.ofNat_toNat]
    simp [view, word?, hint, hword]
  int32 n := by
    have hint : int? (ofData (.int n.toInt)) = some n.toInt := int?_ofData n.toInt
    have hword : Word.signed? n.toInt = some n := by
      rw [Word.signed?, if_pos, Int32.ofInt_toInt]
      exact ⟨n.minValue_le_toInt, n.toInt_le⟩
    simp [view, int32?, hint, hword]
  null := rfl
  text_not_null _ := rfl
  int_not_null _ := rfl
  list items := congrArg some (ofItems_eq_map items)
  variant _ := rfl
  record _ _ fields := members_ofFields fields

end Json

end Conformance

import Conformance.Proofs.Json.Layout
import Conformance.Proofs.Yaml.Structure

/-!
# The tokens of printed data

`valueTokens`, `listTokens` and `recordTokens` are the tokens of report data. The
printer and the scanner meet in three predicates, one for each place that the
printer writes at: `FieldText` for what stands behind the name of a field,
`ItemText` for what stands behind a dash, and `LinesText` for whole lines. Each
says which tokens the scanner finds in the text, and that all its characters may
stand in a document. Scalars (`passesScalar_scalar`) and collections
(`CollectionText`) serve in the first two.

If every path in a value has a text and all its field names are names, then the
value is written, and its tokens are found in what was written. The proof follows
the recursion of the printer. The main result is `exists_text`, for the records
that documents are made of. A path without text stops the printer, so the paths
decide whether a record is written (`text?_isSome_iff`).
-/

namespace Conformance

mutual

def Data.names : Data → List String
  | .list items => Data.namesOfItems items
  | .record fields => Data.namesOfFields fields
  | .null => []
  | .bool _ => []
  | .int _ => []
  | .text _ => []
  | .path _ => []

def Data.namesOfItems : List Data → List String
  | [] => []
  | x :: xs => x.names ++ Data.namesOfItems xs

def Data.namesOfFields : List (String × Data) → List String
  | [] => []
  | (name, x) :: fields => name :: x.names ++ Data.namesOfFields fields

end

namespace Yaml

variable {c : Nat} {cs text : List Char} {new : List Token} {x : Char}

/-- A text that the scanner finds a scalar in, wherever it stands. -/
structure PassesScalar (c : Nat) (text : List Char) (new : List Token) : Prop where
  ne_nil : text ≠ []
  settled : Settled text
  isAllowed : ∀ x ∈ text, isAllowed x = true
  passes : ∀ allowed, Passes allowed c text new

theorem isAllowed_of_isPrintable (h : isPrintable x = true) : isAllowed x = true := by
  simp [isAllowed, h]

theorem StandsPlain.passesScalar (h : StandsPlain cs) (hne : cs ≠ []) (c : Nat) :
    PassesScalar c (cs ++ ['\n']) [.scalar .plain (String.ofList cs)] where
  ne_nil := by simp
  settled := settled_append h.settled hne _
  isAllowed x hx := by
    rcases List.mem_append.1 hx with hx | hx
    · exact isAllowed_of_isPrintable (h.printable x hx)
    · rw [List.mem_singleton.1 hx]
      rfl
  passes allowed := h.passes hne allowed c

theorem passesScalar_doubleQuoted (cs : List Char) (c : Nat) :
    PassesScalar c ('"' :: cs.flatMap doubleQuotedChar ++ ['"', '\n'])
      [.scalar .doubleQuoted (String.ofList cs)] where
  ne_nil := by simp
  settled := settled_cons.2 (by decide)
  isAllowed x hx := by
    refine isAllowed_of_isPrintable ?_
    simp only [List.mem_append, List.mem_cons, List.mem_flatMap, List.not_mem_nil, or_false] at hx
    rcases hx with (rfl | ⟨y, -, hx⟩) | rfl | rfl
    · rfl
    · exact (escaped_doubleQuotedChar y).isPrintable x hx
    · rfl
    · rfl
  passes allowed := passes_doubleQuoted cs allowed c

theorem passesScalar_singleQuoted (h : allowsSingleQuotes cs = true) (hnewline : '\n' ∉ cs)
    (c indent : Nat) :
    PassesScalar c ('\'' :: singleQuotedBody (indent + 1) false cs ++ ['\'', '\n'])
      [.scalar .singleQuoted (String.ofList cs)] where
  ne_nil := by simp
  settled := settled_cons.2 (by decide)
  isAllowed x hx := by
    refine isAllowed_of_isPrintable ?_
    have hprintable : ∀ x ∈ cs, isPrintable x = true := by
      simp only [allowsSingleQuotes, needsDoubleQuotes, Bool.not_eq_true', Bool.or_eq_false_iff,
        Bool.not_eq_false', List.all_eq_true] at h
      exact h.1.1
    simp only [List.mem_append, List.mem_cons, List.not_mem_nil, or_false] at hx
    rcases hx with (rfl | hx) | rfl | rfl
    · rfl
    · rcases mem_singleQuotedBody hx with hx | rfl | rfl
      · exact hprintable x hx
      · rfl
      · rfl
    · rfl
    · rfl
  passes allowed := passes_singleQuoted h hnewline allowed c indent

theorem passesScalar_literal (hcs : cs ≠ []) (hprintable : ∀ x ∈ cs, isPrintable x = true)
    (c : Nat) :
    PassesScalar c (literalHead cs ++ '\n' :: (literalBody (c + 2) true cs ++ lastBreak cs))
      [.scalar .literal (String.ofList cs)] where
  ne_nil := by simp
  settled := settled_cons.2 (by decide)
  isAllowed x hx := by
    refine isAllowed_of_isPrintable ?_
    have hhead : ∀ x ∈ literalHead cs, isPrintable x = true := by
      obtain ⟨chomping, hmark, -⟩ := exists_chomping hcs
      rw [literalHead, hmark]
      generalize (cs.head?.any fun c => isSpace c || isBreak c) = given
      cases given <;> cases chomping <;> exact List.all_eq_true.1 rfl
    have hlast : ∀ x ∈ lastBreak cs, isPrintable x = true := by
      rw [lastBreak]
      split_ifs <;> exact List.all_eq_true.1 rfl
    rcases List.mem_append.1 hx with hx | hx
    · exact hhead x hx
    · rcases List.mem_cons.1 hx with rfl | hx
      · rfl
      · rcases List.mem_append.1 hx with hx | hx
        · rcases mem_literalBody hx with hx | rfl
          · exact hprintable x hx
          · rfl
        · exact hlast x hx
  passes allowed := passes_literal hcs hprintable allowed c

theorem passesScalar_scalar (s : String) (c : Nat) :
    PassesScalar c (scalar (c + 2) s).toList [.scalar (styleOf s) s] := by
  have hs : String.ofList s.toList = s := String.ofList_toList
  have hdouble := passesScalar_doubleQuoted s.toList c
  rw [hs] at hdouble
  cases hnewline : s.toList.contains '\n' with
  | true =>
      cases hblock : allowsBlock s.toList with
      | false =>
          have hstyle : styleOf s = .doubleQuoted := by
            simp only [styleOf, hnewline, hblock]
            rfl
          rwa [scalar, hstyle, String.toList_ofList]
      | true =>
          have hstyle : styleOf s = .literal := by
            simp only [styleOf, hnewline, hblock]
            rfl
          simp only [allowsBlock, needsDoubleQuotes, Bool.not_eq_true', Bool.or_eq_false_iff,
            Bool.not_eq_false', List.all_eq_true] at hblock
          obtain ⟨⟨⟨hprintable, -⟩, -⟩, hempty⟩ := hblock
          have hliteral := passesScalar_literal (List.isEmpty_eq_false_iff.1 hempty) hprintable c
          rw [lastBreak, hempty, Bool.or_false, hs, ← List.cons_append, ← List.append_assoc]
            at hliteral
          rwa [scalar, hstyle, String.toList_ofList]
  | false =>
      have hnot : '\n' ∉ s.toList := by simpa using hnewline
      by_cases hplain : (!isTaken s && allowsPlain s.toList) = true
      · have hstyle : styleOf s = .plain := by simp only [styleOf, hnewline, hplain]; rfl
        obtain ⟨htaken, hallows⟩ := Bool.and_eq_true_iff.1 hplain
        have hne : s.toList ≠ [] := by
          intro hnil
          have hempty : s = "" := String.toList_eq_nil_iff.1 hnil
          simp [hempty, isTaken] at htaken
        have hstands := (standsPlain_of_allowsPlain hallows).passesScalar hne c
        rw [hs] at hstands
        rwa [scalar, hstyle, String.toList_append]
      · cases hsingle : allowsSingleQuotes s.toList with
        | true =>
            have hstyle : styleOf s = .singleQuoted := by
              simp only [styleOf, hnewline, hsingle, if_neg hplain]
              rfl
            have hquoted := passesScalar_singleQuoted hsingle hnot c (c + 1)
            rw [hs] at hquoted
            rwa [scalar, hstyle, String.toList_ofList]
        | false =>
            have hstyle : styleOf s = .doubleQuoted := by
              simp only [styleOf, hnewline, hsingle, if_neg hplain]
              rfl
            rwa [scalar, hstyle, String.toList_ofList]

theorem passesScalar_null (c : Nat) : PassesScalar c "null\n".toList [.scalar .plain "null"] := by
  have hstands : StandsPlain "null".toList := standsPlain_of_allowsPlain (by decide)
  exact hstands.passesScalar (by decide) c

theorem passesScalar_bool (c : Nat) (b : Bool) :
    PassesScalar c (if b then "true\n" else "false\n").toList
      [.scalar .plain (if b then "true" else "false")] := by
  cases b with
  | true =>
      have hstands : StandsPlain "true".toList := standsPlain_of_allowsPlain (by decide)
      exact hstands.passesScalar (by decide) c
  | false =>
      have hstands : StandsPlain "false".toList := standsPlain_of_allowsPlain (by decide)
      exact hstands.passesScalar (by decide) c

def numberChars : List Char := "-0123456789".toList

theorem mem_numberChars_of_isDigit (h : Decimal.isDigit x = true) : x ∈ numberChars := by
  have hrange : 48 ≤ x.toNat ∧ x.toNat < 58 := by
    simp only [Decimal.isDigit, Bool.and_eq_true, decide_eq_true_eq, Char.le_def,
      UInt32.le_iff_toNat_le] at h
    exact ⟨h.1, Nat.lt_succ_of_le h.2⟩
  have hall : ∀ n < 58, 48 ≤ n → Char.ofNat n ∈ numberChars := by decide
  have hmem := hall x.toNat hrange.2 hrange.1
  rwa [Char.ofNat_toNat] at hmem

theorem mem_numberChars_of_mem_intText {n : Int} (h : x ∈ (Decimal.intText n).toList) :
    x ∈ numberChars := by
  rcases Json.isNumeral_of_mem_intText h with rfl | hdigit
  · decide
  · exact mem_numberChars_of_isDigit hdigit

theorem hasInnerIndicator_eq_false (h : ∀ x ∈ cs, x ≠ ':' ∧ x ≠ '#') :
    hasInnerIndicator cs = false := by
  induction cs with
  | nil => rfl
  | cons y cs ih =>
      obtain ⟨-, hcs⟩ := List.forall_mem_cons.1 h
      cases cs with
      | nil => rfl
      | cons z cs =>
          obtain ⟨hcolon, hsharp⟩ := hcs z List.mem_cons_self
          simp [hasInnerIndicator, hcolon, hsharp, ih hcs]

theorem startsWithIndicator_eq_false {r : List Char} (hindicator : isIndicator x = false)
    (hdot : x ≠ '.') (hdash : x = '-' → r.head? ≠ some '-')
    (hmark : x = '?' ∨ x = ':' ∨ x = '-' → atSpacing r = false) :
    startsWithIndicator (x :: r) = false := by
  unfold startsWithIndicator
  split
  next heq =>
      cases heq
      exact absurd rfl (hdash rfl)
  next heq => exact absurd (List.cons.inj heq).1 hdot
  next heq =>
      cases heq
      rw [hindicator, Bool.false_or, Bool.and_eq_false_imp]
      intro hx
      exact hmark (by simpa [or_assoc] using hx)
  next heq => cases heq

theorem startsWithIndicator_intText (n : Int) :
    startsWithIndicator (Decimal.intText n).toList = false := by
  have hindicator : ∀ y ∈ numberChars, isIndicator y = false :=
    List.all_iff_forall_prop.1 (by decide)
  have hmarks : ∀ y ∈ numberChars, y ≠ '?' ∧ y ≠ ':' ∧ y ≠ '.' :=
    List.all_iff_forall_prop.1 (by decide)
  have hspacing : ∀ y ∈ numberChars, isSpacing y = false := List.all_iff_forall_prop.1 (by decide)
  cases n with
  | ofNat n =>
      obtain ⟨y, r, hr, hdigit⟩ := Decimal.exists_toDigits_eq_cons n
      have hy := mem_numberChars_of_isDigit hdigit
      have hdash : y ≠ '-' := by
        rintro rfl
        cases hdigit
      obtain ⟨hquestion, hcolon, hdot⟩ := hmarks y hy
      rw [Decimal.intText, Json.toList_natText, hr]
      refine startsWithIndicator_eq_false (hindicator y hy) hdot (fun h => absurd h hdash) ?_
      rintro (h | h | h)
      · exact absurd h hquestion
      · exact absurd h hcolon
      · exact absurd h hdash
  | negSucc n =>
      obtain ⟨y, r, hr, hdigit⟩ := Decimal.exists_toDigits_eq_cons (n + 1)
      have hminus : "-".toList = ['-'] := rfl
      rw [Decimal.intText, String.toList_append, Json.toList_natText, hminus, hr,
        List.singleton_append]
      refine startsWithIndicator_eq_false (by decide) (by decide) (fun _ h => ?_) fun _ => ?_
      · cases h
        cases hdigit
      · exact hspacing y (mem_numberChars_of_isDigit hdigit)

theorem standsPlain_intText (n : Int) : StandsPlain (Decimal.intText n).toList := by
  have hprintable : ∀ x ∈ numberChars, isPrintable x = true :=
    List.all_iff_forall_prop.1 (by decide)
  have hbreak : ∀ x ∈ numberChars, isBreak x = false := List.all_iff_forall_prop.1 (by decide)
  have hinner : ∀ x ∈ numberChars, x ≠ ':' ∧ x ≠ '#' := List.all_iff_forall_prop.1 (by decide)
  have hspace : ∀ x ∈ numberChars, isSpace x = false := List.all_iff_forall_prop.1 (by decide)
  refine ⟨fun x hx => hprintable x (mem_numberChars_of_mem_intText hx),
    fun x hx => hbreak x (mem_numberChars_of_mem_intText hx), startsWithIndicator_intText n,
    hasInnerIndicator_eq_false fun x hx => hinner x (mem_numberChars_of_mem_intText hx), ?_, ?_⟩
  · rw [Option.any_eq_false]
    intro x hx
    simp [hspace x (mem_numberChars_of_mem_intText (List.mem_of_head? hx))]
  · rw [Option.any_eq_false]
    intro x hx
    simp [hspace x (mem_numberChars_of_mem_intText (List.mem_of_getLast? hx))]

theorem passesScalar_int (c : Nat) (n : Int) :
    PassesScalar c (Decimal.intText n ++ "\n").toList [.scalar .plain (Decimal.intText n)] := by
  have hscalar := (standsPlain_intText n).passesScalar (Json.intText_ne_nil n) c
  rw [String.ofList_toList] at hscalar
  rw [String.toList_append]
  exact hscalar

mutual

/-- The tokens of a value. Behind the name of a field, a list needs no tokens around its items. -/
def valueTokens (belowKey : Bool) : Data → List Token
  | .null => [.scalar .plain "null"]
  | .bool b => [.scalar .plain (if b then "true" else "false")]
  | .int n => [.scalar .plain (Decimal.intText n)]
  | .text s => [.scalar (styleOf s) s]
  | .path p => p.text?.toList.map fun s => .scalar (styleOf s) s
  | .list [] => [.flowSequenceStart, .flowSequenceEnd]
  | .list (x :: xs) =>
    if belowKey then listTokens (x :: xs)
    else .blockSequenceStart :: listTokens (x :: xs) ++ [.blockEnd]
  | .record [] => [.flowMappingStart, .flowMappingEnd]
  | .record (f :: fields) => .blockMappingStart :: recordTokens (f :: fields) ++ [.blockEnd]

def listTokens : List Data → List Token
  | [] => []
  | x :: xs => .entry :: valueTokens false x ++ listTokens xs

def recordTokens : List (String × Data) → List Token
  | [] => []
  | (name, x) :: fields =>
    fieldTokens name.toList (valueTokens true x) ++ recordTokens fields

end

def AllAllowed (text : List Char) : Prop := ∀ x ∈ text, isAllowed x = true

theorem AllAllowed.append {text text' : List Char} (h : AllAllowed text) (h' : AllAllowed text') :
    AllAllowed (text ++ text') :=
  List.forall_mem_append.2 ⟨h, h'⟩

theorem allAllowed_indentation (n : Nat) : AllAllowed (indentation n) := by
  intro x hx
  rw [List.eq_of_mem_replicate hx]
  rfl

theorem Scanner.IsFieldName.allAllowed {name : List Char} (h : Scanner.IsFieldName name) :
    AllAllowed name :=
  fun x hx => isAllowed_of_isPrintable (Scanner.isPrintable_of_mem_nameChars x (h.chars x hx))

/-- What is written behind the name of a field in the column `c`. -/
structure FieldText (c : Nat) (text : List Char) (new : List Token) : Prop where
  allowed : AllAllowed text
  spacing : ∀ rest, atSpacing (text ++ rest) = true
  passes : Passes false c text new

/-- What is written behind a dash in the column `c`. -/
structure ItemText (c : Nat) (text : List Char) (new : List Token) : Prop where
  allowed : AllAllowed text
  spaced : ∃ value, text = ' ' :: value
  passes : PassesItem c text new

/-- Lines that are written in the column `c`. -/
structure LinesText (c : Nat) (text : List Char) (new : List Token) : Prop where
  allowed : AllAllowed text
  continues : Continues c text new

theorem PassesScalar.fieldText (h : PassesScalar c text new) : FieldText c (' ' :: text) new where
  allowed := List.forall_mem_cons.2 ⟨rfl, h.isAllowed⟩
  spacing _ := rfl
  passes := (h.passes false).space h.ne_nil h.settled

theorem PassesScalar.itemText (h : PassesScalar c text new) : ItemText c (' ' :: text) new where
  allowed := List.forall_mem_cons.2 ⟨rfl, h.isAllowed⟩
  spaced := ⟨text, rfl⟩
  passes := ((h.passes true).space h.ne_nil h.settled).item

theorem passesScalar_brackets {first last : Char} {opening closing : Token}
    (hfirst : Settled [first]) (hlast : Settled [last])
    (hallowed : isAllowed first = true ∧ isAllowed last = true)
    (hopen : ∀ (s : Scanner) r, s.mark.column ≠ 0 → s.rest = first :: r →
      s.token? = s.flowStart? opening)
    (hclose : ∀ (s : Scanner) r, s.mark.column ≠ 0 → s.rest = last :: r →
      s.token? = s.flowEnd? closing) (c : Nat) :
    PassesScalar c [first, last, '\n'] [opening, closing] where
  ne_nil := by simp
  settled := settled_cons.2 (settled_cons.1 hfirst)
  isAllowed := by
    have hnewline : isAllowed '\n' = true := rfl
    simp [hallowed, hnewline]
  passes _ _ _ _ _ _ hcolumn hbelow :=
    Scanner.exists_reaches_brackets hcolumn hfirst hlast hopen hclose hbelow

theorem passesScalar_emptyList (c : Nat) :
    PassesScalar c ['[', ']', '\n'] [.flowSequenceStart, .flowSequenceEnd] := by
  refine passesScalar_brackets (settled_cons.2 (by decide)) (settled_cons.2 (by decide))
    (by decide) ?_ ?_ c
  all_goals
    intro s r hcolumn hrest
    unfold Scanner.token?
    simp [hrest, hcolumn]

theorem passesScalar_emptyRecord (c : Nat) :
    PassesScalar c ['\x7b', '\x7d', '\n'] [.flowMappingStart, .flowMappingEnd] := by
  refine passesScalar_brackets (settled_cons.2 (by decide)) (settled_cons.2 (by decide))
    (by decide) ?_ ?_ c
  all_goals
    intro s r hcolumn hrest
    unfold Scanner.token?
    simp [hrest, hcolumn]

theorem linesText_nil (c : Nat) : LinesText c [] [] := ⟨nofun, continues_nil c⟩

variable {name : List Char} {value : List Char} {tokens : List Token}

theorem LinesText.field (h : LinesText c text new) (hname : Scanner.IsFieldName name)
    (hvalue : FieldText c value tokens) :
    LinesText c (indentation c ++ (name ++ ':' :: (value ++ text)))
      (fieldTokens name tokens ++ new) where
  allowed := (allAllowed_indentation c).append
    (hname.allAllowed.append (List.forall_mem_cons.2 ⟨rfl, hvalue.allowed.append h.allowed⟩))
  continues := h.continues.field hname hvalue.spacing hvalue.passes

theorem LinesText.item (h : LinesText c text new) (hvalue : ItemText c value tokens) :
    LinesText c (indentation c ++ ('-' :: (value ++ text))) (.entry :: tokens ++ new) where
  allowed := (allAllowed_indentation c).append
    (List.forall_mem_cons.2 ⟨rfl, hvalue.allowed.append h.allowed⟩)
  continues := by
    obtain ⟨value, rfl⟩ := hvalue.spaced
    exact h.continues.item hvalue.passes

/-- A text that opens a collection in the column `k`. -/
structure CollectionText (k : Nat) (text : List Char) (new : List Token) : Prop where
  allowed : AllAllowed text
  ne_nil : text ≠ []
  settled : Settled text
  opens : Opens k text new

theorem LinesText.record (h : LinesText c text new) (hname : Scanner.IsFieldName name)
    (hvalue : FieldText c value tokens) :
    CollectionText c (name ++ ':' :: (value ++ text))
      (.blockMappingStart :: (fieldTokens name tokens ++ new) ++ [.blockEnd]) where
  allowed := hname.allAllowed.append
    (List.forall_mem_cons.2 ⟨rfl, hvalue.allowed.append h.allowed⟩)
  ne_nil := by simp
  settled := hname.settled _
  opens := opens_record hname hvalue.spacing hvalue.passes h.continues

theorem LinesText.list (h : LinesText c text new) (hvalue : ItemText c value tokens) :
    CollectionText c ('-' :: (value ++ text))
      (.blockSequenceStart :: (.entry :: tokens ++ new) ++ [.blockEnd]) where
  allowed := List.forall_mem_cons.2 ⟨rfl, hvalue.allowed.append h.allowed⟩
  ne_nil := by simp
  settled := settled_cons.2 (by decide)
  opens := by
    obtain ⟨value, rfl⟩ := hvalue.spaced
    exact opens_list hvalue.passes h.continues

theorem CollectionText.fieldText (h : CollectionText (c + 2) text new) :
    FieldText c ('\n' :: (indentation (c + 2) ++ text)) new where
  allowed := List.forall_mem_cons.2 ⟨rfl, (allAllowed_indentation _).append h.allowed⟩
  spacing _ := rfl
  passes := h.opens.passes h.ne_nil h.settled

theorem CollectionText.itemText (h : CollectionText (c + 2) text new) :
    ItemText c (' ' :: text) new where
  allowed := List.forall_mem_cons.2 ⟨rfl, h.allowed⟩
  spaced := ⟨text, rfl⟩
  passes := h.opens.passesItem h.ne_nil h.settled

theorem LinesText.fieldText (h : LinesText c text new) : FieldText c ('\n' :: text) new where
  allowed := List.forall_mem_cons.2 ⟨rfl, h.allowed⟩
  spacing _ := rfl
  passes := h.continues.passes

/-- A value that is neither a list nor a record is written as a scalar. -/
theorem exists_atom (c : Nat) (d : Data) (hpaths : ∀ p ∈ d.paths, p.text?.isSome)
    (hlist : ∀ items, d ≠ .list items) (hrecord : ∀ fields, d ≠ .record fields) :
    ∃ text, atom (c + 2) d = some text ∧
      ∀ belowKey, PassesScalar c text.toList (valueTokens belowKey d) := by
  match d with
  | .null => exact ⟨_, rfl, fun _ => passesScalar_null c⟩
  | .bool true => exact ⟨_, rfl, fun _ => passesScalar_bool c true⟩
  | .bool false => exact ⟨_, rfl, fun _ => passesScalar_bool c false⟩
  | .int n => exact ⟨_, rfl, fun _ => passesScalar_int c n⟩
  | .text s => exact ⟨_, rfl, fun _ => passesScalar_scalar s c⟩
  | .path p =>
      obtain ⟨s, hs⟩ := Option.isSome_iff_exists.1 (hpaths p (by simp [Data.paths]))
      refine ⟨scalar (c + 2) s, by rw [atom, hs]; rfl, fun belowKey => ?_⟩
      rw [valueTokens, hs]
      exact passesScalar_scalar s c
  | .list items => exact absurd rfl (hlist items)
  | .record fields => exact absurd rfl (hrecord fields)

theorem exists_atomField (c : Nat) (d : Data) (hpaths : ∀ p ∈ d.paths, p.text?.isSome)
    (hlist : ∀ items, d ≠ .list items) (hrecord : ∀ fields, d ≠ .record fields) :
    ∃ text, Chunks.complete? [some " ", atom (c + 2) d] = some text ∧
      FieldText c text.toList (valueTokens true d) := by
  obtain ⟨text, htext, hscalar⟩ := exists_atom c d hpaths hlist hrecord
  rw [htext]
  refine ⟨_, Chunks.complete?_cons (Chunks.complete?_singleton text), ?_⟩
  rw [String.toList_append]
  exact (hscalar true).fieldText

theorem exists_atomItem (c : Nat) (d : Data) (hpaths : ∀ p ∈ d.paths, p.text?.isSome)
    (hlist : ∀ items, d ≠ .list items) (hrecord : ∀ fields, d ≠ .record fields) :
    ∃ text, Chunks.complete? [some " ", atom (c + 2) d] = some text ∧
      ItemText c text.toList (valueTokens false d) := by
  obtain ⟨text, htext, hscalar⟩ := exists_atom c d hpaths hlist hrecord
  rw [htext]
  refine ⟨_, Chunks.complete?_cons (Chunks.complete?_singleton text), ?_⟩
  rw [String.toList_append]
  exact (hscalar false).itemText

mutual

theorem exists_fieldValue (c : Nat) (d : Data) (hpaths : ∀ p ∈ d.paths, p.text?.isSome)
    (hnames : ∀ s ∈ d.names, Scanner.IsFieldName s.toList) :
    ∃ text, (fieldValue c d).complete? = some text ∧
      FieldText c text.toList (valueTokens true d) := by
  match d with
  | .null => exact exists_atomField c .null hpaths nofun nofun
  | .bool b => exact exists_atomField c (.bool b) hpaths nofun nofun
  | .int n => exact exists_atomField c (.int n) hpaths nofun nofun
  | .text s => exact exists_atomField c (.text s) hpaths nofun nofun
  | .path p => exact exists_atomField c (.path p) hpaths nofun nofun
  | .list [] => exact ⟨_, Chunks.complete?_singleton _, (passesScalar_emptyList c).fieldText⟩
  | .list (x :: xs) =>
      obtain ⟨text, htext, hlines⟩ := exists_listItems c (x :: xs) hpaths hnames
      refine ⟨_, Chunks.complete?_cons htext, ?_⟩
      rw [String.toList_append]
      exact hlines.fieldText
  | .record [] => exact ⟨_, Chunks.complete?_singleton _, (passesScalar_emptyRecord c).fieldText⟩
  | .record ((name, x) :: fields) =>
      obtain ⟨hpaths, hpaths'⟩ := List.forall_mem_append.1 hpaths
      obtain ⟨hnames, hnames'⟩ := List.forall_mem_append.1 hnames
      obtain ⟨hname, hnames⟩ := List.forall_mem_cons.1 hnames
      obtain ⟨text, htext, hvalue⟩ := exists_fieldValue (c + 2) x hpaths hnames
      obtain ⟨text', htext', hlines⟩ := exists_recordFields (c + 2) fields hpaths' hnames'
      refine ⟨_, Chunks.complete?_cons
        (Chunks.complete?_append (Chunks.complete?_cons htext) htext'), ?_⟩
      have htokens := (hlines.record hname hvalue).fieldText
      simpa [valueTokens, recordTokens, margin] using htokens

theorem exists_itemValue (c : Nat) (d : Data) (hpaths : ∀ p ∈ d.paths, p.text?.isSome)
    (hnames : ∀ s ∈ d.names, Scanner.IsFieldName s.toList) :
    ∃ text, (itemValue c d).complete? = some text ∧
      ItemText c text.toList (valueTokens false d) := by
  match d with
  | .null => exact exists_atomItem c .null hpaths nofun nofun
  | .bool b => exact exists_atomItem c (.bool b) hpaths nofun nofun
  | .int n => exact exists_atomItem c (.int n) hpaths nofun nofun
  | .text s => exact exists_atomItem c (.text s) hpaths nofun nofun
  | .path p => exact exists_atomItem c (.path p) hpaths nofun nofun
  | .list [] => exact ⟨_, Chunks.complete?_singleton _, (passesScalar_emptyList c).itemText⟩
  | .list (x :: xs) =>
      obtain ⟨hpaths, hpaths'⟩ := List.forall_mem_append.1 hpaths
      obtain ⟨hnames, hnames'⟩ := List.forall_mem_append.1 hnames
      obtain ⟨text, htext, hitem⟩ := exists_itemValue (c + 2) x hpaths hnames
      obtain ⟨text', htext', hlines⟩ := exists_listItems (c + 2) xs hpaths' hnames'
      refine ⟨_, Chunks.complete?_append (Chunks.complete?_cons htext) htext', ?_⟩
      have htokens := (hlines.list hitem).itemText
      simpa [valueTokens, listTokens] using htokens
  | .record [] => exact ⟨_, Chunks.complete?_singleton _, (passesScalar_emptyRecord c).itemText⟩
  | .record ((name, x) :: fields) =>
      obtain ⟨hpaths, hpaths'⟩ := List.forall_mem_append.1 hpaths
      obtain ⟨hnames, hnames'⟩ := List.forall_mem_append.1 hnames
      obtain ⟨hname, hnames⟩ := List.forall_mem_cons.1 hnames
      obtain ⟨text, htext, hvalue⟩ := exists_fieldValue (c + 2) x hpaths hnames
      obtain ⟨text', htext', hlines⟩ := exists_recordFields (c + 2) fields hpaths' hnames'
      refine ⟨_, Chunks.complete?_append (Chunks.complete?_cons htext) htext', ?_⟩
      have htokens := (hlines.record hname hvalue).itemText
      simpa [valueTokens, recordTokens] using htokens

theorem exists_listItems (c : Nat) (items : List Data)
    (hpaths : ∀ p ∈ Data.pathsOfItems items, p.text?.isSome)
    (hnames : ∀ s ∈ Data.namesOfItems items, Scanner.IsFieldName s.toList) :
    ∃ text, (listItems c items).complete? = some text ∧
      LinesText c text.toList (listTokens items) := by
  match items with
  | [] => exact ⟨_, Chunks.complete?_nil, linesText_nil c⟩
  | x :: xs =>
      obtain ⟨hpaths, hpaths'⟩ := List.forall_mem_append.1 hpaths
      obtain ⟨hnames, hnames'⟩ := List.forall_mem_append.1 hnames
      obtain ⟨text, htext, hitem⟩ := exists_itemValue c x hpaths hnames
      obtain ⟨text', htext', hlines⟩ := exists_listItems c xs hpaths' hnames'
      refine ⟨_, Chunks.complete?_append (Chunks.complete?_cons htext) htext', ?_⟩
      have htokens := hlines.item hitem
      simpa [margin, listTokens] using htokens

theorem exists_recordFields (c : Nat) (fields : List (String × Data))
    (hpaths : ∀ p ∈ Data.pathsOfFields fields, p.text?.isSome)
    (hnames : ∀ s ∈ Data.namesOfFields fields, Scanner.IsFieldName s.toList) :
    ∃ text, (recordFields c fields).complete? = some text ∧
      LinesText c text.toList (recordTokens fields) := by
  match fields with
  | [] => exact ⟨_, Chunks.complete?_nil, linesText_nil c⟩
  | (name, x) :: fields =>
      obtain ⟨hpaths, hpaths'⟩ := List.forall_mem_append.1 hpaths
      obtain ⟨hnames, hnames'⟩ := List.forall_mem_append.1 hnames
      obtain ⟨hname, hnames⟩ := List.forall_mem_cons.1 hnames
      obtain ⟨text, htext, hvalue⟩ := exists_fieldValue c x hpaths hnames
      obtain ⟨text', htext', hlines⟩ := exists_recordFields c fields hpaths' hnames'
      refine ⟨_, Chunks.complete?_append (Chunks.complete?_cons htext) htext', ?_⟩
      have htokens := hlines.field hname hvalue
      simpa [margin, recordTokens] using htokens

end

/-- A record is written as a document, whose tokens are those of the record. -/
theorem exists_text (field : String × Data) (fields : List (String × Data))
    (hpaths : ∀ p ∈ (Data.record (field :: fields)).paths, p.text?.isSome)
    (hnames : ∀ s ∈ (Data.record (field :: fields)).names, Scanner.IsFieldName s.toList) :
    ∃ text, text? (.record (field :: fields)) = some text ∧
      tokens? text.toList = some (valueTokens false (.record (field :: fields))) := by
  obtain ⟨name, x⟩ := field
  obtain ⟨hpaths, hpaths'⟩ := List.forall_mem_append.1 hpaths
  obtain ⟨hnames, hnames'⟩ := List.forall_mem_append.1 hnames
  obtain ⟨hname, hnames⟩ := List.forall_mem_cons.1 hnames
  obtain ⟨text, htext, hvalue⟩ := exists_fieldValue 0 x hpaths hnames
  obtain ⟨text', htext', hlines⟩ := exists_recordFields 0 fields hpaths' hnames'
  have hrecord := hlines.record hname hvalue
  refine ⟨_, Chunks.complete?_append (Chunks.complete?_cons htext) htext', ?_⟩
  have hwhole : (margin 0 ++ name ++ ":" ++ text ++ text').toList =
      name.toList ++ ':' :: (text.toList ++ text'.toList) := by simp [margin, indentation]
  rw [hwhole, tokens?, if_pos (List.all_eq_true.2 hrecord.allowed),
    hrecord.opens.scan? (Nat.lt_succ_self _)]
  simp [valueTokens, recordTokens]

variable {p : Path}

mutual

theorem none_mem_fieldValue (hp : p.text? = none) (c : Nat) (d : Data) (h : p ∈ d.paths) :
    none ∈ fieldValue c d := by
  match d with
  | .path q =>
      have hq : p = q := by simpa [Data.paths] using h
      subst hq
      simp [fieldValue, atom, hp]
  | .list (x :: xs) => simp [fieldValue, none_mem_listItems hp c (x :: xs) h]
  | .record (field :: fields) =>
      simp [fieldValue, none_mem_recordFields hp (c + 2) (field :: fields) h]

theorem none_mem_itemValue (hp : p.text? = none) (c : Nat) (d : Data) (h : p ∈ d.paths) :
    none ∈ itemValue c d := by
  match d with
  | .path q =>
      have hq : p = q := by simpa [Data.paths] using h
      subst hq
      simp [itemValue, atom, hp]
  | .list (x :: xs) =>
      rw [Data.paths, Data.pathsOfItems] at h
      rcases List.mem_append.1 h with hx | hxs
      · simp [itemValue, none_mem_itemValue hp (c + 2) x hx]
      · simp [itemValue, none_mem_listItems hp (c + 2) xs hxs]
  | .record ((name, x) :: fields) =>
      rw [Data.paths, Data.pathsOfFields] at h
      rcases List.mem_append.1 h with hx | hfields
      · simp [itemValue, none_mem_fieldValue hp (c + 2) x hx]
      · simp [itemValue, none_mem_recordFields hp (c + 2) fields hfields]

theorem none_mem_listItems (hp : p.text? = none) (c : Nat) (items : List Data)
    (h : p ∈ Data.pathsOfItems items) : none ∈ listItems c items := by
  match items with
  | x :: xs =>
      rw [Data.pathsOfItems] at h
      rcases List.mem_append.1 h with hx | hxs
      · simp [listItems, none_mem_itemValue hp c x hx]
      · simp [listItems, none_mem_listItems hp c xs hxs]

theorem none_mem_recordFields (hp : p.text? = none) (c : Nat) (fields : List (String × Data))
    (h : p ∈ Data.pathsOfFields fields) : none ∈ recordFields c fields := by
  match fields with
  | (name, x) :: fields =>
      rw [Data.pathsOfFields] at h
      rcases List.mem_append.1 h with hx | hfields
      · simp [recordFields, none_mem_fieldValue hp c x hx]
      · simp [recordFields, none_mem_recordFields hp c fields hfields]

end

/-- The paths alone decide whether a record is written. -/
theorem text?_isSome_iff (field : String × Data) (fields : List (String × Data))
    (hnames : ∀ s ∈ (Data.record (field :: fields)).names, Scanner.IsFieldName s.toList) :
    (text? (.record (field :: fields))).isSome ↔
      ∀ p ∈ (Data.record (field :: fields)).paths, p.text?.isSome := by
  constructor
  · intro h p hp
    rw [Option.isSome_iff_ne_none]
    intro hnone
    have hmissing : none ∈ document (.record (field :: fields)) :=
      none_mem_recordFields hnone 0 (field :: fields) hp
    rw [text?, Chunks.complete?_of_none_mem hmissing] at h
    cases h
  · intro h
    obtain ⟨text, htext, -⟩ := exists_text field fields h hnames
    rw [htext]
    rfl

end Yaml

end Conformance

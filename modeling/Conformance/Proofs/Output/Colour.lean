import Conformance.Proofs.Output.Json
import Conformance.Proofs.Output.Table
import Mathlib.Data.List.Find

/-!
# Colour and its removal

`strip` removes the colour sequences in one pass from left to right. It does not
distribute over texts that are put together: a sequence may begin in one and end
in the next, and what is left around a removed sequence may spell another one,
which stays. It does distribute at a character that no sequence holds
(`strip_append_cons`), and the table sets its sequences between such characters:
whatever identifiers and reports hold, none of it can run together with a sequence
that colour adds. `StripAlike` texts are stripped alike in front of anything, and
the table with colour is put together from texts alike to those of the table
without. A text without the character that sequences start with is `Plain`; apart
from the texts of the outcomes, all that is printed without colour is.
-/

namespace Conformance

namespace Output

/-- The character that sequences start with. -/
def esc : Char := '\x1b'

/-- The sequences that colour adds. -/
def sequences : List (List Char) :=
  [[esc, '[', '3', '1', 'm'], [esc, '[', '3', '2', 'm'], [esc, '[', '3', '3', 'm'],
    [esc, '[', '0', 'm']]

/-- Removes the sequences in one pass. Of a sequence that was met, some characters are still to be
left out. -/
def stripFrom : Nat → List Char → List Char
  | _, [] => []
  | left + 1, _ :: cs => stripFrom left cs
  | 0, c :: cs =>
    match sequences.find? fun seq => seq.isPrefixOf (c :: cs) with
    | some seq => stripFrom (seq.length - 1) cs
    | none => c :: stripFrom 0 cs

def strip (cs : List Char) : List Char := stripFrom 0 cs

-- what is left around a sequence is not looked at again
example : strip "a\x1b[3\x1b[31m1mb".toList = "a\x1b[31mb".toList := by decide

section Strip

variable {a b cs x y : List Char} {c : Char}

@[simp] theorem strip_nil : strip [] = [] := rfl

theorem strip_cons_of_ne (h : c ≠ esc) (cs : List Char) : strip (c :: cs) = c :: strip cs := by
  have hnone : sequences.find? (fun seq => seq.isPrefixOf (c :: cs)) = none := by
    simp [sequences, Ne.symm h]
  rw [strip, stripFrom, hnone]
  rfl

theorem strip_append_of_notMem (h : esc ∉ a) (b : List Char) : strip (a ++ b) = a ++ strip b := by
  induction a with
  | nil => rfl
  | cons c a ih =>
      rw [List.mem_cons, not_or] at h
      rw [List.cons_append, strip_cons_of_ne (Ne.symm h.1), ih h.2, List.cons_append]

theorem strip_of_notMem (h : esc ∉ cs) : strip cs = cs := by
  simpa using strip_append_of_notMem h []

theorem strip_sequence_append {seq : List Char} (h : seq ∈ sequences) (cs : List Char) :
    strip (seq ++ cs) = strip cs := by
  simp only [sequences, List.mem_cons, List.not_mem_nil, or_false] at h
  rcases h with rfl | rfl | rfl | rfl <;> rfl

/-- No sequence holds the character. -/
def IsNeutral (c : Char) : Prop := ∀ seq ∈ sequences, c ∉ seq

instance (c : Char) : Decidable (IsNeutral c) :=
  inferInstanceAs (Decidable (∀ seq ∈ sequences, c ∉ seq))

theorem isPrefixOf_append_cons {seq : List Char} (h : c ∉ seq) (a b : List Char) :
    seq.isPrefixOf (a ++ c :: b) = seq.isPrefixOf a := by
  induction seq generalizing a with
  | nil => simp
  | cons x seq ih =>
      rw [List.mem_cons, not_or] at h
      cases a with
      | nil => simp [List.isPrefixOf, Ne.symm h.1]
      | cons y a => simp [List.isPrefixOf, ih h.2]

/-- A sequence that starts before the character ends before it. -/
theorem stripFrom_append_cons (hc : IsNeutral c) (b : List Char) {n : Nat} (hn : n ≤ a.length) :
    stripFrom n (a ++ c :: b) = stripFrom n a ++ c :: strip b := by
  induction a generalizing n with
  | nil =>
      obtain rfl : n = 0 := by simpa using hn
      refine strip_cons_of_ne ?_ b
      rintro rfl
      exact absurd hc (by decide)
  | cons x a ih =>
      cases n with
      | succ n => exact ih (Nat.le_of_succ_le_succ hn)
      | zero =>
          have hfind : sequences.find? (fun seq => seq.isPrefixOf (x :: (a ++ c :: b))) =
              sequences.find? fun seq => seq.isPrefixOf (x :: a) :=
            List.find?_congr fun seq hseq => isPrefixOf_append_cons (hc seq hseq) (x :: a) b
          rw [List.cons_append, stripFrom, stripFrom, hfind]
          cases hseq : sequences.find? fun seq => seq.isPrefixOf (x :: a) with
          | none => exact congrArg (x :: ·) (ih (Nat.zero_le _))
          | some seq =>
              -- the sequence holds no `c`, so what is to be left out of it lies in `a`
              have hprefix : seq <+: x :: a := by simpa using List.find?_some hseq
              have hlength := hprefix.length_le
              rw [List.length_cons] at hlength
              exact ih (by omega)

/-- Nothing joins across a character that no sequence holds. -/
theorem strip_append_cons (hc : IsNeutral c) (a b : List Char) :
    strip (a ++ c :: b) = strip a ++ c :: strip b :=
  stripFrom_append_cons hc b (Nat.zero_le _)

/-- Texts that are stripped alike, whatever follows them. -/
def StripAlike (x y : List Char) : Prop := ∀ rest, strip (x ++ rest) = strip (y ++ rest)

theorem StripAlike.refl (x : List Char) : StripAlike x x := fun _ => rfl

theorem StripAlike.trans {z : List Char} (h : StripAlike x y) (h' : StripAlike y z) :
    StripAlike x z := fun rest => (h rest).trans (h' rest)

theorem StripAlike.append_right (h : StripAlike x y) (z : List Char) :
    StripAlike (x ++ z) (y ++ z) := by
  intro rest
  rw [List.append_assoc, List.append_assoc, h]

theorem StripAlike.append_left (h : StripAlike x y) (ha : esc ∉ a) :
    StripAlike (a ++ x) (a ++ y) := by
  intro rest
  rw [List.append_assoc, List.append_assoc, strip_append_of_notMem ha, strip_append_of_notMem ha, h]

theorem StripAlike.after (h : StripAlike x y) (hc : IsNeutral c) (a : List Char) :
    StripAlike (a ++ c :: x) (a ++ c :: y) := by
  intro rest
  rw [List.append_assoc, List.append_assoc, List.cons_append, List.cons_append,
    strip_append_cons hc, strip_append_cons hc, h]

end Strip

section Plain

variable {s t : String}

def Plain (s : String) : Prop := esc ∉ s.toList

instance (s : String) : Decidable (Plain s) := inferInstanceAs (Decidable (esc ∉ s.toList))

theorem Plain.strip_eq (h : Plain s) : strip s.toList = s.toList := strip_of_notMem h

@[simp] theorem plain_append : Plain (s ++ t) ↔ Plain s ∧ Plain t := by
  simp [Plain]

theorem plain_join {texts : List String} (h : ∀ text ∈ texts, Plain text) :
    Plain (String.join texts) := by
  induction texts with
  | nil => decide
  | cons text texts ih =>
      rw [List.forall_mem_cons] at h
      rw [String.join_cons, plain_append]
      exact ⟨h.1, ih h.2⟩

theorem plain_of_isDigit (h : ∀ c ∈ s.toList, Decimal.isDigit c = true ∨ c = '.') : Plain s := by
  intro hesc
  have hchar := h esc hesc
  revert hchar
  decide

@[simp] theorem plain_natText (n : Nat) : Plain (Decimal.natText n) := by
  apply plain_of_isDigit
  intro c hc
  rw [Decimal.natText, String.toList_ofList] at hc
  exact .inl (Decimal.isDigit_of_mem_toDigits hc)

theorem plain_of_inline (h : Json.Inline s.toList) : Plain s := by
  intro hesc
  exact absurd (h esc hesc) (by decide)

theorem plain_replicate {c : Char} (h : c ≠ esc) (n : Nat) :
    Plain (String.ofList (List.replicate n c)) := by
  intro hesc
  rw [String.toList_ofList] at hesc
  exact h (List.eq_of_mem_replicate hesc).symm

@[simp] theorem plain_padRight (width : Nat) : Plain (padRight width s) ↔ Plain s := by
  simp [Plain, padRight, esc]

@[simp] theorem plain_padLeft (width : Nat) : Plain (padLeft width s) ↔ Plain s := by
  simp [Plain, padLeft, esc]

@[simp] theorem plain_sectionRule : Plain sectionRule :=
  plain_append.2 ⟨plain_replicate (by decide) 66, by decide⟩

@[simp] theorem plain_titleRule : Plain titleRule :=
  plain_append.2 ⟨plain_replicate (by decide) 66, by decide⟩

theorem plain_label (status : Status) : Plain (status.symbol ++ " " ++ status.label) := by
  cases status <;> decide

end Plain

section Coloured

theorem sequence_mem (c : Colour) : c.sequence.toList ∈ sequences := by
  cases c <;> decide

theorem reset_mem : reset.toList ∈ sequences := by decide

/-- Colour around a text is all that is removed. -/
theorem stripAlike_coloured (colour : Bool) (c : Colour) {text : String} (h : Plain text) :
    StripAlike (coloured colour c text).toList text.toList := by
  cases colour with
  | false => exact .refl _
  | true =>
      intro rest
      rw [coloured, if_pos rfl, String.toList_append, String.toList_append, List.append_assoc,
        List.append_assoc, strip_sequence_append (sequence_mem c), strip_append_of_notMem h,
        strip_sequence_append reset_mem, strip_append_of_notMem h]

theorem count_esc_coloured (colour : Bool) (c : Colour) (text : String) :
    (coloured colour c text).toList.count esc =
      text.toList.count esc + if colour then 2 else 0 := by
  cases colour with
  | false => rfl
  | true =>
      have hsequence : c.sequence.toList.count esc = 1 := by cases c <;> decide
      have hreset : reset.toList.count esc = 1 := by decide
      rw [coloured, if_pos rfl, String.toList_append, String.toList_append, List.count_append,
        List.count_append, hsequence, hreset, if_pos rfl]
      omega

/-- What follows the label in a row, up to the line break. -/
def rowBody (o : Outcome) : String :=
  " " ++ padRight 48 o.fixture.id ++ " [" ++ padLeft 6 (Decimal.natText o.durationMs.toNat) ++ "ms]"

theorem tableRow_eq (colour : Bool) (o : Outcome) :
    tableRow colour o = " " ++ statusLabel colour o.status ++ rowBody o ++ "\n" := by
  simp [tableRow, rowBody, String.append_assoc]

/-- An identifier may hold the start of a sequence, which ends at the line break at the latest. -/
theorem stripAlike_tableRow (o : Outcome) {x y : List Char} (h : StripAlike x y) :
    StripAlike ((tableRow true o).toList ++ x) ((tableRow false o).toList ++ y) := by
  -- the label stands between blanks, the rest of the row is the same on both sides
  have hlabel : StripAlike (tableRow true o).toList (tableRow false o).toList := by
    have hcoloured := stripAlike_coloured true (statusColour o.status) (plain_label o.status)
    simp only [tableRow_eq, String.toList_append]
    exact ((hcoloured.append_left (by decide)).append_right _).append_right _
  have hbreak : IsNeutral '\n' := by decide
  refine (hlabel.append_right x).trans ?_
  rw [tableRow_eq, String.toList_append, List.append_assoc, List.append_assoc]
  exact h.after hbreak _

theorem stripAlike_rows (outcomes : List Outcome) {x y : List Char} (h : StripAlike x y) :
    StripAlike ((String.join (outcomes.map (tableRow true))).toList ++ x)
      ((String.join (outcomes.map (tableRow false))).toList ++ y) := by
  induction outcomes with
  | nil => exact h
  | cons o outcomes ih =>
      simp only [List.map_cons, String.join_cons, String.toList_append, List.append_assoc]
      exact stripAlike_tableRow o ih

def totalsStart (s : Summary) : String :=
  sectionRule ++ " Total: " ++ Decimal.natText s.total.toNat ++ " | Pass: " ++
    Decimal.natText s.passed.toNat ++ " | Fail: "

def totalsEnd (s : Summary) (rate : String) : String :=
  " | Skip: " ++ Decimal.natText s.skipped.toNat ++ "\n " ++ s.rateLine rate ++ "\n"

theorem tableTotals_eq (colour : Bool) (s : Summary) (rate : String) :
    tableTotals colour s rate = totalsStart s ++
      coloured (colour && s.failed != 0) .red (Decimal.natText s.failed.toNat) ++
        totalsEnd s rate := by
  simp [tableTotals, Summary.countsLine, totalsStart, totalsEnd, ← String.toList_inj]

theorem plain_totalsStart (s : Summary) : Plain (totalsStart s) := by
  simp only [totalsStart, plain_append, plain_natText, plain_sectionRule, true_and, and_true]
  decide

theorem stripAlike_totals (s : Summary) (rate : String) :
    StripAlike (tableTotals true s rate).toList (tableTotals false s rate).toList := by
  have hcount := stripAlike_coloured (true && s.failed != 0) .red (plain_natText s.failed.toNat)
  simp only [tableTotals_eq, String.toList_append]
  exact (hcount.append_left (plain_totalsStart s)).append_right _

theorem stripAlike_table (s : Summary) (rate : String) :
    StripAlike (tableHead true s ++ tableTotals true s rate ++ tableFailures s).toList
      (tableHead false s ++ tableTotals false s rate ++ tableFailures s).toList := by
  have htitle : Plain ("\n" ++ titleRule ++ " Conformance Results\n" ++ titleRule) := by
    simp only [plain_append, plain_titleRule, and_true]
    decide
  have hrows := stripAlike_rows s.outcomes ((stripAlike_totals s rate).append_right
    (tableFailures s).toList)
  have hhead := hrows.append_left htitle
  simp only [tableHead, String.toList_append, List.append_assoc] at hhead ⊢
  exact hhead

theorem count_esc_rows (outcomes : List Outcome) :
    (String.join (outcomes.map (tableRow true))).toList.count esc =
      (String.join (outcomes.map (tableRow false))).toList.count esc + 2 * outcomes.length := by
  induction outcomes with
  | nil => rfl
  | cons o outcomes ih =>
      simp only [List.map_cons, String.join_cons, tableRow_eq, statusLabel, String.toList_append,
        List.count_append, List.length_cons, ih, count_esc_coloured]
      simp only [if_true, Bool.false_eq_true, if_false]
      omega

theorem count_esc_table (s : Summary) (rate : String) :
    (tableHead true s ++ tableTotals true s rate ++ tableFailures s).toList.count esc =
      (tableHead false s ++ tableTotals false s rate ++ tableFailures s).toList.count esc +
        2 * (s.outcomes.length + if s.failed = 0 then 0 else 1) := by
  have hcount : (if (s.failed != 0) = true then 2 else 0) = 2 * if s.failed = 0 then 0 else 1 := by
    by_cases hfailed : s.failed = 0 <;> simp [hfailed]
  simp only [tableHead, tableTotals_eq, String.toList_append, List.count_append,
    count_esc_coloured, count_esc_rows, Bool.true_and, Bool.false_and, Bool.false_eq_true, if_false,
    hcount]
  omega

end Coloured

section Texts

/-- The texts of an outcome: its identifier, its message and its output. -/
def texts (o : Outcome) : List String :=
  o.fixture.id :: (o.message.toList ++ o.capturedOutput.toList)

variable {o : Outcome} {s : Summary} {rate : String}

theorem plain_getD {text : Option String} (h : ∀ t ∈ text.toList, Plain t) :
    Plain (text.getD "") := by
  cases text with
  | none => decide
  | some t => exact h t (by simp)

theorem forall_mem_texts {p : String → Prop} :
    (∀ text ∈ texts o, p text) ↔ p o.fixture.id ∧ (∀ text ∈ o.message.toList, p text) ∧
      ∀ text ∈ o.capturedOutput.toList, p text := by
  rw [texts, List.forall_mem_cons, List.forall_mem_append]

theorem plain_tableRow (h : Plain o.fixture.id) : Plain (tableRow false o) := by
  have hlabel : Plain (statusLabel false o.status) := plain_label o.status
  simp only [tableRow_eq, rowBody, plain_append, plain_padRight, plain_padLeft, plain_natText,
    hlabel, h, and_true]
  decide

theorem plain_endLine {report : String} (h : Plain report) : Plain (endLine report) := by
  rw [endLine]
  split
  · exact h
  · exact plain_append.2 ⟨h, by decide⟩

theorem plain_of_failureReport? {report : String} (hreport : o.failureReport? = some report)
    (h : ∀ text ∈ texts o, Plain text) : Plain report := by
  obtain ⟨-, hmessage, houtput⟩ := forall_mem_texts.1 h
  rw [Outcome.failureReport?, Option.ite_none_right_eq_some] at hreport
  obtain ⟨-, hreport⟩ := hreport
  cases hcaptured : o.capturedOutput with
  | none =>
      simp only [hcaptured, Option.some.injEq] at hreport
      rw [← hreport]
      exact plain_getD hmessage
  | some output =>
      simp only [hcaptured, Option.some.injEq] at hreport
      rw [← hreport, plain_append, plain_append]
      exact ⟨⟨plain_getD hmessage, by decide⟩, houtput output (by simp [hcaptured])⟩

theorem plain_failureBlock (h : ∀ text ∈ texts o, Plain text) : Plain (failureBlock o) := by
  rw [failureBlock]
  split
  next report hreport =>
      have hplain := plain_endLine (plain_of_failureReport? hreport h)
      simp only [plain_append, plain_sectionRule, hplain, and_true]
      decide
  next => decide

theorem plain_table (h : ∀ o ∈ s.outcomes, ∀ text ∈ texts o, Plain text) (hrate : Plain rate) :
    Plain (tableHead false s ++ tableTotals false s rate ++ tableFailures s) := by
  have hrows : Plain (String.join (s.outcomes.map (tableRow false))) := by
    refine plain_join (List.forall_mem_map.2 fun o ho => ?_)
    exact plain_tableRow (forall_mem_texts.1 (h o ho)).1
  have hblocks : Plain (tableFailures s) := by
    refine plain_join (List.forall_mem_map.2 fun o ho => ?_)
    exact plain_failureBlock (h o (List.mem_of_mem_filter ho))
  have hcount : Plain (coloured (false && s.failed != 0) .red (Decimal.natText s.failed.toNat)) :=
    plain_natText _
  simp only [tableHead, tableTotals_eq, totalsEnd, Summary.rateLine, plain_append, plain_titleRule,
    plain_totalsStart, plain_natText, hrows, hblocks, hcount, hrate, true_and, and_true]
  decide

theorem plain_passRateText (h : s.passRateText = .ok rate) : Plain rate :=
  plain_of_isDigit fun _ hc => Summary.isDigit_or_eq_point_of_mem h hc

theorem plain_brief {text : String} (h : brief s = .ok text) : Plain text := by
  rw [brief] at h
  cases hrate : s.passRateText with
  | error fault => simp [hrate, Except.map] at h
  | ok rate =>
      have hplain := plain_passRateText hrate
      simp only [hrate, Except.map, Except.ok.injEq] at h
      rw [← h]
      simp only [plain_append, plain_natText, hplain, true_and, and_true]
      decide

end Texts

section Csv

theorem esc_notMem_field {f : List Char} (h : esc ∉ f) : esc ∉ Csv.field f := by
  have hquoted : esc ∉ f.flatMap fun c => if c = '"' then ['"', '"'] else [c] := by
    intro hmem
    obtain ⟨c, hc, hesc⟩ := List.mem_flatMap.1 hmem
    have hne : c ≠ esc := ne_of_mem_of_not_mem hc h
    split_ifs at hesc
    · revert hesc
      decide
    · exact hne (List.mem_singleton.1 hesc).symm
  rw [Csv.field]
  split
  · simpa [Csv.quoteField, esc] using hquoted
  · exact h

theorem esc_notMem_fields {fs : List (List Char)} (h : ∀ f ∈ fs, esc ∉ f) :
    esc ∉ Csv.fields fs := by
  fun_induction Csv.fields fs with
  | case1 => simp
  | case2 f => exact esc_notMem_field (h f (by simp))
  | case3 f fs _ ih =>
      rw [List.forall_mem_cons] at h
      rw [List.mem_append, List.mem_cons, not_or, not_or]
      exact ⟨esc_notMem_field h.1, by decide, ih h.2⟩

theorem plain_of_mem_row {o : Outcome} (h : ∀ text ∈ texts o, Plain text) {text : String}
    (htext : text ∈ Csv.row o) : Plain text := by
  obtain ⟨hid, hmessage, houtput⟩ := forall_mem_texts.1 h
  have hlabel := (plain_append.1 (plain_label o.status)).2
  have hcode : Plain ((o.exitCode.map fun c => Decimal.intText c.toInt).getD "") := by
    cases o.exitCode with
    | none => decide
    | some c => exact plain_of_inline (Json.inline_intText c.toInt)
  simp only [Csv.row, List.mem_cons, List.not_mem_nil, or_false] at htext
  rcases htext with rfl | rfl | rfl | rfl | rfl | rfl
  · exact hid
  · exact hlabel
  · exact plain_natText _
  · exact hcode
  · exact plain_getD hmessage
  · exact plain_getD houtput

theorem plain_csvText {outcomes : List Outcome}
    (h : ∀ o ∈ outcomes, ∀ text ∈ texts o, Plain text) (header : Bool) :
    Plain (Csv.text header outcomes) := by
  have hrows : ∀ row ∈ Csv.rows header outcomes, ∀ text ∈ row, Plain text := by
    rw [Csv.rows, List.forall_mem_append, List.forall_mem_map]
    refine ⟨?_, fun o ho text => plain_of_mem_row (h o ho)⟩
    cases header <;> decide
  intro hmem
  rw [Csv.text, String.toList_ofList] at hmem
  obtain ⟨row, hrow, hesc⟩ := List.mem_flatMap.1 hmem
  rw [Csv.record, List.mem_append] at hesc
  rcases hesc with hfields | hbreak
  · exact esc_notMem_fields (List.forall_mem_map.2 (hrows row hrow)) hfields
  · revert hbreak
    decide

end Csv

section Json

/-- Chunks that are plain as far as they can be written. -/
def PlainChunks (cs : Chunks) : Prop := ∀ s, some s ∈ cs → Plain s

variable {cs cs' : Chunks} {chunk : Option String}

@[simp] theorem plainChunks_nil : PlainChunks [] := nofun

@[simp] theorem plainChunks_cons :
    PlainChunks (chunk :: cs) ↔ (∀ s ∈ chunk, Plain s) ∧ PlainChunks cs := by
  simp only [PlainChunks, List.mem_cons, or_imp, forall_and, Option.mem_def, eq_comm]

@[simp] theorem plainChunks_append :
    PlainChunks (cs ++ cs') ↔ PlainChunks cs ∧ PlainChunks cs' := by
  simp only [PlainChunks, List.mem_append, or_imp, forall_and]

theorem some_mem_of_mapM {parts : List String} (h : cs.mapM id = some parts) {part : String}
    (hpart : part ∈ parts) : some part ∈ cs := by
  induction cs generalizing parts with
  | nil =>
      cases h
      exact absurd hpart List.not_mem_nil
  | cons chunk cs ih =>
      obtain ⟨s, rfl, rest, hrest, rfl⟩ : ∃ s, chunk = some s ∧
          ∃ rest, cs.mapM id = some rest ∧ s :: rest = parts := by
        simpa [List.mapM_cons, Option.bind_eq_some_iff] using h
      rcases List.mem_cons.1 hpart with rfl | hpart
      · exact List.mem_cons_self
      · exact List.mem_cons_of_mem _ (ih hrest hpart)

theorem PlainChunks.plain_of_complete? (h : PlainChunks cs) {text : String}
    (htext : cs.complete? = some text) : Plain text := by
  rw [Chunks.complete?] at htext
  obtain ⟨parts, hparts, rfl⟩ := Option.map_eq_some_iff.1 htext
  exact plain_join fun part hpart => h part (some_mem_of_mapM hparts hpart)

@[simp] theorem plain_quote (s : String) : Plain (Json.quote s) :=
  plain_of_inline (Json.inline_quote s)

@[simp] theorem plain_newline (level : Nat) : Plain (Json.newline level) := by
  simp [Plain, Json.newline, esc]

theorem plain_atom (d : Data) : ∀ s ∈ Json.atom d, Plain s := by
  intro s hs
  match d with
  | .null | .bool true | .bool false =>
      cases hs
      decide
  | .int n =>
      cases hs
      exact plain_of_inline (Json.inline_intText n)
  | .text s =>
      cases hs
      exact plain_quote s
  | .path p =>
      obtain ⟨t, -, rfl⟩ := Option.map_eq_some_iff.1 hs
      exact plain_quote t

mutual

/-- Values printed with one item a line hold no controls but line breaks. -/
theorem plainChunks_pretty (level : Nat) (d : Data) : PlainChunks (Json.pretty level d) := by
  match d with
  | .null | .bool _ | .int _ | .text _ | .path _ =>
      rw [Json.pretty, plainChunks_cons]
      exact ⟨plain_atom _, plainChunks_nil⟩
  | .list [] => simp +decide [Json.pretty]
  | .list (x :: xs) =>
      have hitems := plainChunks_prettyItems (level + 1) (x :: xs)
      simp +decide [Json.pretty, hitems]
  | .record [] => simp +decide [Json.pretty]
  | .record (field :: fields) =>
      have hfields := plainChunks_prettyFields (level + 1) (field :: fields)
      simp +decide [Json.pretty, hfields]

theorem plainChunks_prettyItems (level : Nat) (items : List Data) :
    PlainChunks (Json.prettyItems level items) := by
  match items with
  | [] => exact plainChunks_nil
  | [x] =>
      have hx := plainChunks_pretty level x
      simp [Json.prettyItems, hx]
  | x :: y :: xs =>
      have hx := plainChunks_pretty level x
      have hxs := plainChunks_prettyItems level (y :: xs)
      simp +decide [Json.prettyItems, hx, hxs]

theorem plainChunks_prettyFields (level : Nat) (fields : List (String × Data)) :
    PlainChunks (Json.prettyFields level fields) := by
  match fields with
  | [] => exact plainChunks_nil
  | [(k, x)] =>
      have hx := plainChunks_pretty level x
      simp +decide [Json.prettyFields, hx]
  | (k, x) :: field :: fields =>
      have hx := plainChunks_pretty level x
      have hfields := plainChunks_prettyFields level (field :: fields)
      simp +decide [Json.prettyFields, hx, hfields]

end

theorem plain_prettyText (d : Data) : Plain ((Json.prettyText? d).getD "") := by
  cases htext : Json.prettyText? d with
  | none => decide
  | some text => exact (plainChunks_pretty 0 d).plain_of_complete? htext

theorem plain_compactText (d : Data) : Plain ((Json.compactText? d).getD "") := by
  by_cases h : ∀ p ∈ d.paths, p.text?.isSome
  · obtain ⟨text, htext, -, hinline⟩ := Json.exists_compact d h
    rw [Json.compactText?, htext]
    exact plain_of_inline hinline
  · simp only [not_forall, Bool.not_eq_true, Option.isSome_eq_false_iff,
      Option.isNone_iff_eq_none] at h
    obtain ⟨p, hp, hnone⟩ := h
    rw [Json.compactText?, Chunks.complete?_of_none_mem (Json.none_mem_compact hnone d hp)]
    decide

end Json

section Colour

variable {s : Summary} {rate : String}

theorem render_table (h : s.passRateText = .ok rate) (colour : Bool) :
    render .table colour s =
      .ok (tableHead colour s ++ tableTotals colour s rate ++ tableFailures s) := by
  rw [render, table, h]
  rfl

theorem exists_render (h : s.passRateText = .ok rate) (format : OutputFormat) (colour : Bool) :
    ∃ text, render format colour s = .ok text := by
  cases format with
  | table => exact ⟨_, render_table h colour⟩
  | json | jsonPretty | csv => exact ⟨_, rfl⟩
  | summary =>
      rw [render, brief, h]
      exact ⟨_, rfl⟩

theorem render_eq_of_ne_table {format : OutputFormat} (h : format ≠ .table)
    (colour colour' : Bool) : render format colour s = render format colour' s := by
  cases format with
  | table => exact absurd rfl h
  | json | jsonPretty | csv | summary => rfl

/-- Only the texts of the outcomes can bring the character that sequences start with. -/
theorem plain_render {format : OutputFormat} {text : String} (hrate : s.passRateText = .ok rate)
    (h : ∀ o ∈ s.outcomes, ∀ text ∈ texts o, Plain text)
    (hrender : render format false s = .ok text) : Plain text := by
  cases format with
  | table =>
      rw [render_table hrate] at hrender
      cases hrender
      exact plain_table h (plain_passRateText hrate)
  | json =>
      cases hrender
      exact plain_compactText s.data
  | jsonPretty =>
      cases hrender
      exact plain_prettyText s.data
  | csv =>
      cases hrender
      exact plain_csvText h true
  | summary => exact plain_brief hrender

theorem strip_render {format : OutputFormat} {text text' : String}
    (hrate : s.passRateText = .ok rate) (htext : render format true s = .ok text)
    (htext' : render format false s = .ok text') : strip text.toList = strip text'.toList := by
  by_cases hformat : format = .table
  · subst hformat
    rw [render_table hrate] at htext htext'
    cases htext
    cases htext'
    simpa using stripAlike_table s rate []
  · rw [render_eq_of_ne_table hformat true false, htext'] at htext
    cases htext
    rfl

/-- A run is printed with colour and without, and the two texts are the same once the colour
sequences are removed, whatever sequences the texts of the outcomes hold. If these hold none and no
start of one, this is the text without colour. Only the table has colour: two sequences for each row
and two for a count of failures above zero. -/
theorem colour_only_adds_sequences (format : OutputFormat) (s : Summary)
    (h : s.passed.toNat + s.failed.toNat < UInt64.size) :
    ∃ text plain, render format true s = .ok text ∧ render format false s = .ok plain ∧
      strip text.toList = strip plain.toList ∧
      ((∀ o ∈ s.outcomes, ∀ t ∈ texts o, esc ∉ t.toList) → strip text.toList = plain.toList) ∧
      (format = .table → text.toList.count esc =
        plain.toList.count esc + 2 * (s.outcomes.length + if s.failed = 0 then 0 else 1)) ∧
      (format ≠ .table → text = plain) := by
  obtain ⟨rate, hrate⟩ := Summary.exists_passRateText h
  obtain ⟨text, htext⟩ := exists_render hrate format true
  obtain ⟨plain, hplain⟩ := exists_render hrate format false
  have hstrip := strip_render hrate htext hplain
  refine ⟨text, plain, htext, hplain, hstrip, fun htexts => ?_, fun hformat => ?_,
    fun hformat => ?_⟩
  · rw [hstrip, (plain_render hrate htexts hplain).strip_eq]
  · subst hformat
    rw [render_table hrate] at htext hplain
    cases htext
    cases hplain
    exact count_esc_table s rate
  · rw [render_eq_of_ne_table hformat true false, hplain] at htext
    cases htext
    rfl

/-- Two failures in the table: one with starts of sequences at the end of its identifier and in its
output, and one without any. -/
theorem colour_only_adds_sequences_fragments :
    let f : Fixture := ⟨.ofText "/s/a", "a\x1b[3"⟩
    let g : Fixture := ⟨.ofText "/s/b", "b"⟩
    let s : Summary := ⟨1, 0, 0, 1, 3, [.failed f 3 (some 1) "1m\x1b[3\x1b[31m1m\x1b[0"]⟩
    let s' : Summary := ⟨1, 0, 0, 1, 3, [.failed g 3 (some 1) "[31m"]⟩
    (∃ text plain, render .table true s = .ok text ∧ render .table false s = .ok plain ∧
      strip text.toList = strip plain.toList ∧
      text.toList.count esc = plain.toList.count esc + 4) ∧
    ∃ text plain, render .table true s' = .ok text ∧ render .table false s' = .ok plain ∧
      strip text.toList = plain.toList := by
  intro f g s s'
  obtain ⟨text, plain, htext, hplain, hstrip, -, hcount, -⟩ :=
    colour_only_adds_sequences .table s (by decide)
  obtain ⟨text', plain', htext', hplain', -, hplainText, -⟩ :=
    colour_only_adds_sequences .table s' (by decide)
  exact ⟨⟨text, plain, htext, hplain, hstrip, hcount rfl⟩, text', plain', htext', hplain',
    hplainText (by decide)⟩

end Colour

end Output

end Conformance

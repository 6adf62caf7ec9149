import Conformance.Csv
import Conformance.Proofs.Summary.Counts
import Mathlib.Data.List.Forall2

/-!
# Comma-separated reports read back

`Reading.step?` reads comma-separated text one character at a time. A record
ends in a line feed, a carriage return or both, a field may stand between
quotes, and two quotes in a quoted field are one. A quote inside a bare field
and text behind a closing quote are refused.

What a reader has read is kept in `Reading`: the records behind it, the fields
of the record it is in, and the characters of the field it is in. A written
field moves its characters into the reading and nothing else (`Reads`), so
written fields become a record, and written records become the records of the
report.
-/

namespace Conformance.Csv

/-- Where a reader stands. -/
inductive Place where
  /-- In front of a record. -/
  | fresh
  /-- In front of a record, behind a carriage return. -/
  | returned
  /-- In front of a field, behind a comma. -/
  | opened
  | bare
  | quoted
  /-- Behind a quote in a quoted field, which is the first of two or ends the field. -/
  | closed
deriving DecidableEq

/-- What was read up to some place. -/
structure Reading where
  place : Place
  records : List (List (List Char))
  fields : List (List Char)
  field : List Char

namespace Reading

def start : Reading := ⟨.fresh, [], [], []⟩

def endField (r : Reading) : Reading := ⟨.opened, r.records, r.fields ++ [r.field], []⟩

def endRecord (r : Reading) (place : Place) : Reading :=
  ⟨place, r.records ++ [r.fields ++ [r.field]], [], []⟩

def push (r : Reading) (place : Place) (c : Char) : Reading :=
  ⟨place, r.records, r.fields, r.field ++ [c]⟩

/-- Reads a character that ends a field. -/
def separate? (r : Reading) (c : Char) : Option Reading :=
  if c = ',' then some r.endField
  else if c = '\n' then some (r.endRecord .fresh)
  else if c = '\r' then some (r.endRecord .returned)
  else none

def bareStep? (r : Reading) (c : Char) : Option Reading :=
  if c = '"' then none
  else match r.separate? c with
    | some r => some r
    | none => some (r.push .bare c)

def openStep? (r : Reading) (c : Char) : Option Reading :=
  if c = '"' then some { r with place := .quoted } else r.bareStep? c

def step? (r : Reading) (c : Char) : Option Reading :=
  match r.place with
  | .fresh => r.openStep? c
  | .opened => r.openStep? c
  | .returned => if c = '\n' then some { r with place := .fresh } else r.openStep? c
  | .bare => r.bareStep? c
  | .quoted => if c = '"' then some { r with place := .closed } else some (r.push .quoted c)
  | .closed => if c = '"' then some (r.push .quoted '"') else r.separate? c

/-- The records at the end of the text, where a last record needs no line end. -/
def finish? (r : Reading) : Option (List (List (List Char))) :=
  match r.place with
  | .fresh => some r.records
  | .returned => some r.records
  | .quoted => none
  | _ => some (r.endRecord .fresh).records

end Reading

def records? (s : String) : Option (List (List String)) :=
  ((s.toList.foldlM Reading.step? Reading.start).bind Reading.finish?).map
    (List.map (List.map String.ofList))

namespace Reading

/-- The text is read as a field, and what comes next may end it. -/
structure Reads (cs f : List Char) (r r' : Reading) : Prop where
  run : cs.foldlM step? r = some r'
  separates : ∀ c, c = ',' ∨ c = '\n' → r'.step? c = r'.separate? c
  records_eq : r'.records = r.records
  fields_eq : r'.fields = r.fields
  field_eq : r'.field = f

theorem separate?_of_not_isSpecial (r : Reading) {c : Char} (h : isSpecial c = false) :
    r.separate? c = none := by
  simp only [isSpecial, Bool.or_eq_false_iff, beq_eq_false_iff_ne] at h
  obtain ⟨⟨⟨hcomma, -⟩, hreturn⟩, hfeed⟩ := h
  rw [separate?, if_neg hcomma, if_neg hfeed, if_neg hreturn]

theorem bareStep?_of_not_isSpecial (r : Reading) {c : Char} (h : isSpecial c = false) :
    r.bareStep? c = some (r.push .bare c) := by
  have hquote : c ≠ '"' := by
    rintro rfl
    exact absurd h (by decide)
  rw [bareStep?, if_neg hquote, separate?_of_not_isSpecial r h]

theorem bareStep?_of_separates (r : Reading) {c : Char} (h : c = ',' ∨ c = '\n') :
    r.bareStep? c = r.separate? c := by
  rcases h with rfl | rfl <;> rfl

theorem openStep?_of_separates (r : Reading) {c : Char} (h : c = ',' ∨ c = '\n') :
    r.openStep? c = r.separate? c := by
  rcases h with rfl | rfl <;> rfl

theorem foldlM_bare {cs : List Char} (h : ∀ c ∈ cs, isSpecial c = false) {r : Reading}
    (hr : r.place = .bare) :
    cs.foldlM step? r = some ⟨.bare, r.records, r.fields, r.field ++ cs⟩ := by
  induction cs generalizing r with
  | nil =>
      obtain ⟨place, records, fields, field⟩ := r
      cases hr
      simp
  | cons c cs ih =>
      obtain ⟨hc, hcs⟩ := List.forall_mem_cons.1 h
      have hstep : r.step? c = some (r.push .bare c) := by
        rw [step?, hr]
        exact bareStep?_of_not_isSpecial r hc
      simp only [List.foldlM_cons, hstep, Option.bind_eq_bind, Option.bind_some]
      rw [ih hcs rfl]
      simp [push]

/-- A doubled quote leads back into the quoted field with one quote more. -/
theorem foldlM_quoted (cs : List Char) {r : Reading} (hr : r.place = .quoted) :
    (cs.flatMap fun c => if c = '"' then ['"', '"'] else [c]).foldlM step? r =
      some ⟨.quoted, r.records, r.fields, r.field ++ cs⟩ := by
  induction cs generalizing r with
  | nil =>
      obtain ⟨place, records, fields, field⟩ := r
      cases hr
      simp
  | cons c cs ih =>
      have hstep : (if c = '"' then ['"', '"'] else [c]).foldlM step? r =
          some (r.push .quoted c) := by
        by_cases hc : c = '"'
        · subst hc
          simp [step?, hr, push]
        · simp [step?, hr, hc]
      rw [List.flatMap_cons, List.foldlM_append, hstep, Option.bind_eq_bind, Option.bind_some,
        ih rfl]
      simp [push]

variable {r : Reading}

theorem step?_of_start (hr : r.place = .fresh ∨ r.place = .opened) (c : Char) :
    r.step? c = r.openStep? c := by
  rcases hr with hr | hr <;> rw [step?, hr]

theorem reads_quoteField (f : List Char) (hr : r.place = .fresh ∨ r.place = .opened)
    (hfield : r.field = []) : ∃ r', Reads (quoteField f) f r r' := by
  refine ⟨⟨.closed, r.records, r.fields, f⟩, ?_, ?_, rfl, rfl, rfl⟩
  · have hopen : r.step? '"' = some { r with place := .quoted } := by
      rw [step?_of_start hr]
      rfl
    simp only [quoteField, List.cons_append, List.foldlM_cons, List.foldlM_append, hopen,
      Option.bind_eq_bind, Option.bind_some, foldlM_quoted, hfield, List.nil_append]
    rfl
  · rintro c (rfl | rfl) <;> rfl

theorem reads_bare {f : List Char} (h : ∀ c ∈ f, isSpecial c = false)
    (hr : r.place = .fresh ∨ r.place = .opened) (hfield : r.field = []) :
    ∃ r', Reads f f r r' := by
  cases f with
  | nil =>
      refine ⟨r, rfl, ?_, rfl, rfl, hfield⟩
      intro c hc
      rw [step?_of_start hr, openStep?_of_separates r hc]
  | cons c cs =>
      obtain ⟨hc, hcs⟩ := List.forall_mem_cons.1 h
      have hquote : c ≠ '"' := by
        rintro rfl
        exact absurd hc (by decide)
      have hstep : r.step? c = some (r.push .bare c) := by
        rw [step?_of_start hr, openStep?, if_neg hquote, bareStep?_of_not_isSpecial r hc]
      refine ⟨⟨.bare, r.records, r.fields, c :: cs⟩, ?_, ?_, rfl, rfl, rfl⟩
      · rw [List.foldlM_cons, hstep, Option.bind_eq_bind, Option.bind_some, foldlM_bare hcs rfl]
        simp [push, hfield]
      · intro d hd
        exact bareStep?_of_separates _ hd

/-- A written field is read as it was, quoted or not. -/
theorem reads_field (f : List Char) (hr : r.place = .fresh ∨ r.place = .opened)
    (hfield : r.field = []) : ∃ r', Reads (Csv.field f) f r r' := by
  unfold Csv.field
  split
  next => exact reads_quoteField f hr hfield
  next h =>
      rw [Bool.not_eq_true, List.any_eq_false] at h
      exact reads_bare (fun c hc => Bool.eq_false_iff.2 (h c hc)) hr hfield

theorem foldlM_field_comma (f : List Char) (hr : r.place = .fresh ∨ r.place = .opened)
    (hfield : r.field = []) :
    (Csv.field f ++ [',']).foldlM step? r = some ⟨.opened, r.records, r.fields ++ [f], []⟩ := by
  obtain ⟨r', hrun, hseparates, hrecords, hfields, hf⟩ := reads_field f hr hfield
  rw [List.foldlM_append, hrun]
  simp only [Option.bind_eq_bind, Option.bind_some, List.foldlM_cons, List.foldlM_nil,
    hseparates ',' (.inl rfl)]
  simp [separate?, endField, hrecords, hfields, hf]

theorem foldlM_field_feed (f : List Char) (hr : r.place = .fresh ∨ r.place = .opened)
    (hfield : r.field = []) :
    (Csv.field f ++ ['\n']).foldlM step? r =
      some ⟨.fresh, r.records ++ [r.fields ++ [f]], [], []⟩ := by
  obtain ⟨r', hrun, hseparates, hrecords, hfields, hf⟩ := reads_field f hr hfield
  rw [List.foldlM_append, hrun]
  simp only [Option.bind_eq_bind, Option.bind_some, List.foldlM_cons, List.foldlM_nil,
    hseparates '\n' (.inr rfl)]
  simp [separate?, endRecord, hrecords, hfields, hf]

theorem foldlM_fields {fs : List (List Char)} (hfs : fs ≠ [])
    (hr : r.place = .fresh ∨ r.place = .opened) (hfield : r.field = []) :
    (Csv.fields fs ++ ['\n']).foldlM step? r =
      some ⟨.fresh, r.records ++ [r.fields ++ fs], [], []⟩ := by
  induction fs generalizing r with
  | nil => exact absurd rfl hfs
  | cons f fs ih =>
      cases fs with
      | nil => exact foldlM_field_feed f hr hfield
      | cons g fs =>
          have hsplit : Csv.fields (f :: g :: fs) ++ ['\n'] =
              (Csv.field f ++ [',']) ++ (Csv.fields (g :: fs) ++ ['\n']) := by
            simp [Csv.fields]
          rw [hsplit, List.foldlM_append, foldlM_field_comma f hr hfield, Option.bind_eq_bind,
            Option.bind_some, ih (by simp) (.inr rfl) rfl]
          simp

theorem foldlM_records {rows : List (List String)} (h : ∀ row ∈ rows, row ≠ [])
    (done : List (List (List Char))) :
    (rows.flatMap record).foldlM step? ⟨.fresh, done, [], []⟩ =
      some ⟨.fresh, done ++ rows.map (List.map String.toList), [], []⟩ := by
  induction rows generalizing done with
  | nil => simp
  | cons row rows ih =>
      obtain ⟨hrow, hrows⟩ := List.forall_mem_cons.1 h
      have hfields : row.map String.toList ≠ [] := by simpa using hrow
      rw [List.flatMap_cons, List.foldlM_append, record, foldlM_fields hfields (.inl rfl) rfl,
        Option.bind_eq_bind, Option.bind_some, ih hrows]
      simp

end Reading

theorem records?_flatMap_record {rows : List (List String)} (h : ∀ row ∈ rows, row ≠ []) :
    records? (String.ofList (rows.flatMap record)) = some rows := by
  simp only [records?, String.toList_ofList, Reading.start, Reading.foldlM_records h,
    Option.bind_some, Reading.finish?, List.nil_append, Option.map_some, List.map_map]
  simp [Function.comp_def]

theorem row_ne_nil (o : Outcome) : row o ≠ [] := by simp [row]

theorem records?_text (header : Bool) (outcomes : List Outcome) :
    records? (text header outcomes) = some (rows header outcomes) := by
  refine records?_flatMap_record ?_
  intro row hrow
  rcases List.mem_append.1 hrow with hcolumns | houtcome
  · cases header with
    | false => simp at hcolumns
    | true =>
        rw [if_pos rfl, List.mem_singleton] at hcolumns
        rw [hcolumns]
        simp [columns]
  · obtain ⟨o, -, rfl⟩ := List.mem_map.1 houtcome
    exact row_ne_nil o

/-- The six fields of a record are those of an outcome. -/
structure Lists (o : Outcome) (fields : List String) : Prop where
  length_eq : fields.length = 6
  id : fields[0]? = some o.fixture.id
  status : fields[1]? = some (match o.status with
    | .passed => "PASS"
    | .skipped => "SKIP"
    | .failed => "FAIL")
  duration : fields[2]? = some (toString o.durationMs.toNat)
  exitCode : fields[3]? = some (match o.exitCode with
    | some code => toString code.toInt
    | none => "")
  message : fields[4]? = some (o.message.getD "")
  output : fields[5]? = some (o.capturedOutput.getD "")

theorem intText_eq_toString (n : Int) : Decimal.intText n = toString n := by
  cases n with
  | ofNat n => rfl
  | negSucc n => rfl

theorem lists_row (o : Outcome) : Lists o (row o) where
  length_eq := rfl
  id := rfl
  status := by cases o with | mk f s => cases s <;> rfl
  duration := rfl
  exitCode := by
    cases hcode : o.exitCode with
    | none => simp [row, hcode]
    | some code => simp [row, hcode, intText_eq_toString]
  message := rfl
  output := rfl

theorem forall₂_lists_rows (outcomes : List Outcome) :
    List.Forall₂ Lists outcomes (outcomes.map row) := by
  induction outcomes with
  | nil => exact .nil
  | cons o outcomes ih => exact .cons (lists_row o) ih

/-- The word `FAIL` stands in the records of the failed outcomes only. -/
theorem countP_fail_rows (outcomes : List Outcome) :
    (outcomes.map row).countP (fun fields => fields[1]? = some "FAIL") =
      Summary.countOf .failed outcomes := by
  have hlabel (o : Outcome) : (row o)[1]? = some "FAIL" ↔ o.status = .failed := by
    rw [(lists_row o).status]
    cases o.status <;> simp
  simp only [List.countP_map, Summary.countOf, Function.comp_def, hlabel]

/-- Nothing is lost or merged in a comma-separated report: a reader finds the header if there is
one, then one record of six fields for each outcome, in order and as it was. So there are as many
records that say `FAIL` as the summary of the outcomes counts. -/
theorem report_reads_back (header : Bool) (outcomes : List Outcome) :
    ∃ listed : List (List String),
      records? (text header outcomes) =
        some ((if header then
          [["fixture", "status", "duration_ms", "exit_code", "message", "captured_output"]]
          else []) ++ listed) ∧
      List.Forall₂ Lists outcomes listed ∧
      (outcomes.length < UInt64.size → Summary.DurationsFit outcomes →
        ∃ summary, Summary.ofOutcomes outcomes = .ok summary ∧
          summary.failed.toNat = listed.countP fun fields => fields[1]? = some "FAIL") := by
  refine ⟨outcomes.map row, records?_text header outcomes, forall₂_lists_rows outcomes, ?_⟩
  intro hlength hfit
  obtain ⟨duration, hsummary, -⟩ := Summary.ofOutcomes_of_fit hfit
  refine ⟨_, hsummary, ?_⟩
  rw [countP_fail_rows]
  exact Summary.toNat_ofNat_countOf hlength

/-- An identifier with a comma and quotes, a message over two lines that looks like a failed row,
and an output that is empty. -/
theorem report_reads_back_special_text :
    let o : Outcome := ⟨⟨.ofText "/s/a,b", "a,\"b\""⟩, .skipped, 7, some (-1),
      some "x,FAIL\r\ny,FAIL,,,,\n", some "", none⟩
    [o].length < UInt64.size ∧ Summary.DurationsFit [o] ∧
      (∃ fields, records? (text false [o]) = some [fields] ∧ Lists o fields) ∧
      ∃ summary, Summary.ofOutcomes [o] = .ok summary ∧ summary.failed = 0 := by
  intro o
  have hlength : [o].length < UInt64.size := by decide
  have hfit : Summary.DurationsFit [o] := by simp [Summary.DurationsFit, o, UInt64.size]
  obtain ⟨listed, hread, hlisted, hcount⟩ := report_reads_back false [o]
  obtain ⟨summary, hsummary, hfailed⟩ := hcount hlength hfit
  cases hlisted with
  | @cons _ fields _ _ hfields hrest =>
      cases hrest
      refine ⟨hlength, hfit, ⟨fields, hread, hfields⟩, summary, hsummary, ?_⟩
      have hnone : fields[1]? ≠ some "FAIL" := by
        rw [hfields.status]
        decide
      rw [← UInt64.toNat_inj, hfailed]
      simp [hnone]

end Conformance.Csv

import Conformance.Proofs.Text.Utf8
import Conformance.Proofs.Time.Rfc3339
import Conformance.Report

/-!
# Records read back

`View.Shows` says that a format shows report data for what it is. From nothing
else it follows that every record of a report is read back from its data, so
that each format has to prove these laws and no more. What a record asks of its
content is that its paths have texts and that its instants are in the calendar.
-/

namespace Conformance

/-- What a look finds in the value of report data is what the data says. -/
structure View.Shows {α : Type} (v : View α) (value : Data → α) : Prop where
  text : ∀ s, v.text? (value (.text s)) = some s
  path : ∀ p, v.text? (value (.path p)) = p.text?
  bool : ∀ b, v.bool? (value (.bool b)) = some b
  word : ∀ n, v.word? (value (.word n)) = some n
  int32 : ∀ n : Int32, v.int32? (value (.int n.toInt)) = some n
  null : v.isNull? (value .null) = some true
  text_not_null : ∀ s, v.isNull? (value (.text s)) = some false
  int_not_null : ∀ n, v.isNull? (value (.int n)) = some false
  list : ∀ items, v.list? (value (.list items)) = some (items.map value)
  variant : ∀ s, v.variant? (value (.text s)) = some s
  record : ∀ names defaulted fields, v.fields? names defaulted (value (.record fields)) =
    some (fields.map fun f => (f.1, value f.2))

mutual

def Data.paths : Data → List Path
  | .path p => [p]
  | .list items => Data.pathsOfItems items
  | .record fields => Data.pathsOfFields fields
  | .null => []
  | .bool _ => []
  | .int _ => []
  | .text _ => []

def Data.pathsOfItems : List Data → List Path
  | [] => []
  | x :: xs => x.paths ++ Data.pathsOfItems xs

def Data.pathsOfFields : List (String × Data) → List Path
  | [] => []
  | (_, x) :: fields => x.paths ++ Data.pathsOfFields fields

end

theorem Data.paths_int (n : Int) : (Data.int n).paths = [] := by
  rw [Data.paths]

theorem Data.paths_text (s : String) : (Data.text s).paths = [] := by
  rw [Data.paths]

theorem Data.paths_ofOption {β : Type} {data : β → Data} (h : ∀ b, (data b).paths = [])
    (b : Option β) : (Data.ofOption data b).paths = [] := by
  cases b with
  | none => rfl
  | some b => exact h b

variable {α β : Type} {v : View α} {value : Data → α}

namespace Fields

@[simp] theorem occurrence_nil (name : String) : occurrence name ([] : Fields α) = .never := by
  rw [occurrence]

@[simp] theorem occurrence_cons_of_ne {k name : String} (h : ¬ k = name) (a : α) (fs : Fields α) :
    occurrence name ((k, a) :: fs) = occurrence name fs := by
  rw [occurrence, if_neg h]

@[simp] theorem occurrence_cons_self {name : String} {fs : Fields α}
    (h : occurrence name fs = .never) (a : α) : occurrence name ((name, a) :: fs) = .once a := by
  rw [occurrence, if_pos rfl, h]

section Occurrence

variable {fs : Fields α} {k : String} {a b : α}

/-- The fields of a name decide how often it occurs. -/
theorem occurrence_eq (k : String) (fs : Fields α) :
    occurrence k fs = match fs.filter (·.1 = k) with
      | [] => .never
      | [f] => .once f.2
      | _ :: _ :: _ => .repeatedly := by
  induction fs with
  | nil => rfl
  | cons f fs ih =>
      obtain ⟨k', a⟩ := f
      by_cases h : k' = k
      · rw [occurrence, if_pos h, ih, List.filter_cons_of_pos (by simp [h])]
        generalize fs.filter (·.1 = k) = found
        rcases found with _ | ⟨f, _ | ⟨g, found⟩⟩ <;> rfl
      · rw [occurrence, if_neg h, ih, List.filter_cons_of_neg (by simp [h])]

theorem occurrence_eq_never_iff : occurrence k fs = .never ↔ ∀ f ∈ fs, f.1 ≠ k := by
  rw [occurrence_eq]
  have hnil := List.filter_eq_nil_iff (p := fun f : String × α => decide (f.1 = k)) (l := fs)
  split
  next heq => simpa [heq] using hnil
  next heq => simpa [heq] using hnil
  next heq => simpa [heq] using hnil

theorem occurrence_eq_repeatedly_iff :
    occurrence k fs = .repeatedly ↔ 2 ≤ fs.countP (·.1 = k) := by
  rw [occurrence_eq, List.countP_eq_length_filter]
  split
  next heq => simp [heq]
  next heq => simp [heq]
  next heq => simp [heq]

theorem filter_of_occurrence_eq_once (h : occurrence k fs = .once a) :
    fs.filter (·.1 = k) = [(k, a)] := by
  rw [occurrence_eq] at h
  split at h
  next => cases h
  next f heq =>
      cases h
      have hf : f ∈ fs.filter (·.1 = k) := heq ▸ List.mem_singleton_self f
      have hk : f.1 = k := by simpa using (List.mem_filter.1 hf).2
      rw [heq, ← hk]
  next => cases h

theorem mem_iff_of_occurrence_eq_once (h : occurrence k fs = .once a) : (k, b) ∈ fs ↔ b = a := by
  have hfilter := filter_of_occurrence_eq_once h
  have hmem : (k, b) ∈ fs.filter (·.1 = k) ↔ (k, b) ∈ fs := by simp
  rw [← hmem, hfilter, List.mem_singleton, Prod.mk.injEq]
  simp

/-- A field whose name occurs no second time occurs once. -/
theorem occurrence_of_mem (h : (k, a) ∈ fs) (hcount : fs.countP (·.1 = k) ≤ 1) :
    occurrence k fs = .once a := by
  cases hoccurrence : occurrence k fs with
  | never => exact absurd rfl (occurrence_eq_never_iff.1 hoccurrence _ h)
  | once b => rw [(mem_iff_of_occurrence_eq_once hoccurrence).1 h]
  | repeatedly =>
      have htwice := occurrence_eq_repeatedly_iff.1 hoccurrence
      omega

theorem occurrence_of_nodup (hnodup : (fs.map (·.1)).Nodup) (h : (k, a) ∈ fs) :
    occurrence k fs = .once a := by
  have hcount : fs.countP (·.1 = k) = (fs.map (·.1)).count k := by
    rw [List.count_eq_countP, List.countP_map]
    exact List.countP_congr fun f _ => by simp
  refine occurrence_of_mem h ?_
  rw [hcount, hnodup.count]
  split <;> decide

end Occurrence

end Fields

def View.orNull? (v : View α) (read : α → Option β) (a : α) : Option (Option β) :=
  match v.isNull? a with
  | some true => some none
  | some false => (read a).map some
  | none => none

theorem Fields.optional_eq (fs : Fields α) (name : String) (read : α → Option β) :
    fs.optional v name read = fs.withDefault name none (v.orNull? read) := rfl

theorem View.Shows.orNull?_ofOption (h : v.Shows value) {read : α → Option β} {data : β → Data}
    (hread : ∀ b, v.isNull? (value (data b)) = some false ∧ read (value (data b)) = some b)
    (b : Option β) : v.orNull? read (value (.ofOption data b)) = some b := by
  cases b with
  | none => simp [View.orNull?, Data.ofOption, h.null]
  | some b => simp [View.orNull?, Data.ofOption, hread b]

theorem mapM_eq_some_self {l : List β} {f : β → Option β} (h : ∀ b ∈ l, f b = some b) :
    l.mapM f = some l := by
  induction l with
  | nil => rfl
  | cons b l ih =>
      obtain ⟨hb, hl⟩ := List.forall_mem_cons.1 h
      simp [List.mapM_cons, hb, ih hl]

theorem Path.ofText_of_text? {p : Path} {s : String} (h : p.text? = some s) : ofText s = p := by
  rw [ofText, Utf8.encode_of_decode? h]

theorem Status.ofName?_name (s : Status) : ofName? s.name = some s := by
  cases s <;> decide

theorem FailureKind.ofName?_name (k : FailureKind) : ofName? k.name = some k := by
  cases k <;> decide

namespace Fixture

theorem read?_data (h : v.Shows value) {f : Fixture} (hf : f.path.text?.isSome) :
    read? v (value f.data) = some f := by
  obtain ⟨s, hs⟩ := Option.isSome_iff_exists.1 hf
  have hpath := Path.ofText_of_text? hs
  simp [read?, data, h.record, Fields.required, h.text, h.path, hs, hpath]

end Fixture

namespace Outcome

theorem orNull?_text (h : v.Shows value) (s : Option String) :
    v.orNull? v.text? (value (.ofOption .text s)) = some s :=
  h.orNull?_ofOption (fun s => ⟨h.text_not_null s, h.text s⟩) s

theorem orNull?_failure (h : v.Shows value) (k : Option FailureKind) :
    v.orNull? (fun a => (v.variant? a).bind FailureKind.ofName?)
      (value (.ofOption (fun k => .text k.name) k)) = some k :=
  h.orNull?_ofOption (fun k => ⟨h.text_not_null _, by simp [h.variant, FailureKind.ofName?_name]⟩) k

theorem read?_data (h : v.Shows value) {o : Outcome} (ho : o.fixture.path.text?.isSome) :
    read? v (value o.data) = some o := by
  have hfixture := Fixture.read?_data h ho
  have hcode := h.orNull?_ofOption (fun c => ⟨h.int_not_null _, h.int32 c⟩) o.exitCode
  simp [read?, data, h.record, Fields.required, Fields.optional_eq, Fields.withDefault,
    hfixture, h.variant, Status.ofName?_name, h.word, hcode, orNull?_text h, orNull?_failure h]

end Outcome

namespace Summary

theorem read?_data (h : v.Shows value) {s : Summary}
    (hs : ∀ o ∈ s.outcomes, o.fixture.path.text?.isSome) : read? v (value s.data) = some s := by
  have houtcomes : s.outcomes.mapM (Outcome.read? v ∘ value ∘ Outcome.data) = some s.outcomes :=
    mapM_eq_some_self fun o ho => Outcome.read?_data h (hs o ho)
  simp [read?, data, h.record, Fields.required, h.word, h.list, houtcomes]

end Summary

namespace RunSettings

theorem read?_data (h : v.Shows value) {c : RunSettings} (hroot : c.suiteRoot.text?.isSome)
    (hbinary : c.compilerBinary.text?.isSome) : read? v (value c.data) = some c := by
  obtain ⟨suiteRoot, compilerBinary, parallel, concurrency, filters⟩ := c
  obtain ⟨root, hroot⟩ := Option.isSome_iff_exists.1 hroot
  obtain ⟨binary, hbinary⟩ := Option.isSome_iff_exists.1 hbinary
  have hrootPath := Path.ofText_of_text? hroot
  have hbinaryPath := Path.ofText_of_text? hbinary
  -- no patterns are left out, and what is left out is read as no patterns
  cases filters with
  | nil =>
      simp [read?, data, h.record, Fields.required, Fields.withDefault, h.path,
        h.bool, h.word, hroot, hbinary, hrootPath, hbinaryPath]
  | cons s filters =>
      have hfilters : filters.mapM (v.text? ∘ value ∘ .text) = some filters :=
        mapM_eq_some_self fun s _ => h.text s
      simp [read?, data, h.record, Fields.required, Fields.withDefault, h.path,
        h.bool, h.word, h.list, hroot, hbinary, hrootPath, hbinaryPath, h.text, hfilters]

end RunSettings

namespace RunEnvironment

theorem read?_data (h : v.Shows value) (e : RunEnvironment) : read? v (value e.data) = some e := by
  simp [read?, data, h.record, Fields.required, h.text]

end RunEnvironment

namespace StoredRun

def paths (r : StoredRun) : List Path :=
  r.settings.suiteRoot :: r.settings.compilerBinary :: r.summary.outcomes.map (·.fixture.path)

theorem read?_data (h : v.Shows value) {r : StoredRun} (hpaths : ∀ p ∈ r.paths, p.text?.isSome)
    (hstarted : r.startedAt.isValid = true) (hcompleted : r.completedAt.isValid = true) :
    read? v (value r.data) = some r := by
  have hsettings := RunSettings.read?_data h (c := r.settings) (hpaths _ (by simp [paths]))
    (hpaths _ (by simp [paths]))
  have hsummary := Summary.read?_data h (s := r.summary) fun o ho =>
    hpaths _ (by simp only [paths, List.mem_cons, List.mem_map]; exact .inr (.inr ⟨o, ho, rfl⟩))
  simp [read?, data, h.record, Fields.required, h.text,
    Instant.read?_rfc3339 hstarted, Instant.read?_rfc3339 hcompleted, hsettings,
    RunEnvironment.read?_data h, hsummary]

theorem paths_outcomes (outcomes : List Outcome) :
    Data.pathsOfItems (outcomes.map Outcome.data) = outcomes.map (·.fixture.path) := by
  induction outcomes with
  | nil => rfl
  | cons o outcomes ih =>
      have hcode := Data.paths_ofOption (fun c : Int32 => Data.paths_int c.toInt) o.exitCode
      have hmessage := Data.paths_ofOption Data.paths_text o.message
      have houtput := Data.paths_ofOption Data.paths_text o.capturedOutput
      have hfailure := Data.paths_ofOption (fun k => Data.paths_text k.name) o.failure
      have ho : o.data.paths = [o.fixture.path] := by
        simp [Outcome.data, Fixture.data, Data.paths, Data.pathsOfFields, Data.word, hcode,
          hmessage, houtput, hfailure]
      rw [List.map_cons, Data.pathsOfItems, ih, ho, List.map_cons, List.singleton_append]

theorem paths_filters (filters : List String) :
    Data.pathsOfItems (filters.map .text) = [] := by
  induction filters with
  | nil => rfl
  | cons s filters ih => rw [List.map_cons, Data.pathsOfItems, ih, Data.paths, List.append_nil]

theorem paths_data (r : StoredRun) : r.data.paths = r.paths := by
  have hsettings : r.settings.data.paths = [r.settings.suiteRoot, r.settings.compilerBinary] := by
    rw [RunSettings.data]
    split <;> simp [Data.paths, Data.pathsOfFields, Data.word, paths_filters]
  have henvironment : r.environment.data.paths = [] := by
    simp [RunEnvironment.data, Data.paths, Data.pathsOfFields]
  have hsummary : r.summary.data.paths = r.summary.outcomes.map (·.fixture.path) := by
    simp [Summary.data, Data.paths, Data.pathsOfFields, Data.word, paths_outcomes]
  simp [data, Data.paths, Data.pathsOfFields, hsettings, henvironment, hsummary, paths]

end StoredRun

end Conformance

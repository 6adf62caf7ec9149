import Conformance.Proofs.Json.Exactness
import Conformance.Proofs.Json.Retelling
import Conformance.Proofs.Output.Json
import Mathlib

/-!
# Runs told in other layouts

A run may be written in its JSON encoding in more ways than the printer does.
`decoding_ignores_layout` collects them: any text of any value that `Retells` the
value of the run, with the escapes and blanks that `Writes` allows, is decoded as
the run, and a text of a value that is `Spoilt` is not decoded at all. Both go
record by record: the fields of a record are named once (`told`), and its reader
is indifferent to how they are told and refuses them spoilt because the readers
of the fields are and do.
-/

namespace Conformance

open Json

variable {omissible : List String}

namespace Fixture

def told (f : Fixture) : Fields Json :=
  [("path", ofData (.path f.path)), ("id", ofData (.text f.id))]

theorem ofData_data (f : Fixture) : ofData f.data = .object (ofNamed f.told) := rfl

variable (f : Fixture)

theorem indifferent_read? : Indifferent (read? view) (ofData f.data) := by
  intro y h
  rw [ofData_data] at h ⊢
  obtain ⟨fs, hfs, hretold⟩ := h.exists_fields (show fieldNames.Nodup by decide)
  have hfields : view.fields? fieldNames 0 y = some fs := hfs
  have hself : view.fields? fieldNames 0 (.object (ofNamed f.told)) = some f.told :=
    members_ofNamed _
  have hpath := hretold.required_leaf view.text? (k := "path") (.head _) rfl
  have hid := hretold.required_leaf view.text? (k := "id") (.tail _ (.head _)) rfl
  simp only [read?, hfields, hself, hpath, hid, Option.bind_eq_bind, Option.bind_some]

theorem refuses_read? : Refuses omissible (read? view) (ofData f.data) := by
  intro y h
  rw [ofData_data] at h
  cases hfs : view.fields? fieldNames 0 y with
  | none => simp only [read?, hfs, Option.bind_eq_bind, Option.bind_none]
  | some fs =>
      obtain ⟨g, hg, hunusable⟩ := h.exists_unusable (show fieldNames.Nodup by decide) hfs
      simp only [told, List.mem_cons, List.not_mem_nil, or_false] at hg
      rcases hg with rfl | rfl
      · have hpath := hunusable.required_leaf view.text? rfl
        simp [read?, hfs, hpath]
      · have hid := hunusable.required_leaf view.text? rfl
        simp [read?, hfs, hid]

end Fixture

theorem isLeaf_ofData_ofOption {α : Type} (data : α → Data)
    (h : ∀ a, (ofData (data a)).isLeaf = true) (a : Option α) :
    ofData (.ofOption data a) = .null ∨ (ofData (.ofOption data a)).isLeaf = true := by
  cases a with
  | none => exact .inl rfl
  | some a => exact .inr (h a)

namespace Outcome

def told (o : Outcome) (durationMs exitCode : Json) : Fields Json :=
  [("fixture", ofData o.fixture.data), ("status", ofData (.text o.status.name)),
    ("duration_ms", durationMs), ("exit_code", exitCode),
    ("message", ofData (.ofOption .text o.message)),
    ("captured_output", ofData (.ofOption .text o.capturedOutput)),
    ("failure", ofData (.ofOption (fun k => .text k.name) o.failure))]

theorem ofData_data (o : Outcome) : ofData o.data = .object (ofNamed (o.told
    (ofData (.word o.durationMs)) (ofData (.ofOption (fun c => .int c.toInt) o.exitCode)))) :=
  rfl

/-- The fields that may be left out. -/
def omissibleFields : List String := ["exit_code", "message", "captured_output", "failure"]

section

variable {o : Outcome} {durationMs exitCode : Json} (hduration : durationMs.isLeaf = true)
  (hcode : exitCode = .null ∨ exitCode.isLeaf = true)

include hduration hcode

theorem indifferent_read? :
    Indifferent (read? view) (.object (ofNamed (o.told durationMs exitCode))) := by
  intro y h
  obtain ⟨fs, hfs, hretold⟩ := h.exists_fields (show fieldNames.Nodup by decide)
  have hfields : view.fields? fieldNames 0 y = some fs := hfs
  have hself : view.fields? fieldNames 0 (.object (ofNamed (o.told durationMs exitCode))) =
      some (o.told durationMs exitCode) := members_ofNamed _
  have hfixture := hretold.required (k := "fixture") (.head _) nofun o.fixture.indifferent_read?
  have hstatus := hretold.required_leaf (fun a => (view.variant? a).bind Status.ofName?)
    (k := "status") (.tail _ (.head _)) rfl
  have hduration' := hretold.required_leaf view.word? (k := "duration_ms") (by simp [told])
    hduration
  have hcode' := hretold.optional view.int32? (k := "exit_code") (by simp [told]) hcode
  have hmessage := hretold.optional view.text? (k := "message") (by simp [told])
    (isLeaf_ofData_ofOption .text (fun _ => rfl) o.message)
  have houtput := hretold.optional view.text? (k := "captured_output") (by simp [told])
    (isLeaf_ofData_ofOption .text (fun _ => rfl) o.capturedOutput)
  have hfailure := hretold.optional (fun a => (view.variant? a).bind FailureKind.ofName?)
    (k := "failure") (by simp [told])
    (isLeaf_ofData_ofOption (fun k => .text k.name) (fun _ => rfl) o.failure)
  simp only [read?, hfields, hself, hfixture, hstatus, hduration', hcode', hmessage, houtput,
    hfailure, Option.bind_eq_bind, Option.bind_some]

theorem refuses_read? :
    Refuses omissibleFields (read? view) (.object (ofNamed (o.told durationMs exitCode))) := by
  intro y h
  cases hfs : view.fields? fieldNames 0 y with
  | none => simp only [read?, hfs, Option.bind_eq_bind, Option.bind_none]
  | some fs =>
      obtain ⟨g, hg, hunusable⟩ := h.exists_unusable (show fieldNames.Nodup by decide) hfs
      simp only [told, List.mem_cons, List.not_mem_nil, or_false] at hg
      rcases hg with rfl | rfl | rfl | rfl | rfl | rfl | rfl
      · have hnone := hunusable.required o.fixture.refuses_read?
        simp [read?, hfs, hnone]
      · have hnone := hunusable.required_leaf (fun a => (view.variant? a).bind Status.ofName?) rfl
        simp [read?, hfs, hnone]
      · have hnone := hunusable.required_leaf view.word? hduration
        simp [read?, hfs, hnone]
      · have hnone := hunusable.optional view.int32? (by decide) hcode
        simp [read?, hfs, hnone]
      · have hnone := hunusable.optional view.text? (by decide)
          (isLeaf_ofData_ofOption .text (fun _ => rfl) o.message)
        simp [read?, hfs, hnone]
      · have hnone := hunusable.optional view.text? (by decide)
          (isLeaf_ofData_ofOption .text (fun _ => rfl) o.capturedOutput)
        simp [read?, hfs, hnone]
      · have hnone := hunusable.optional (fun a => (view.variant? a).bind FailureKind.ofName?)
          (by decide) (isLeaf_ofData_ofOption (fun k => .text k.name) (fun _ => rfl) o.failure)
        simp [read?, hfs, hnone]

end

end Outcome

namespace Summary

def told (total passed skipped failed totalDurationMs : Json) (outcomes : List Json) :
    Fields Json :=
  [("total", total), ("passed", passed), ("skipped", skipped), ("failed", failed),
    ("total_duration_ms", totalDurationMs), ("outcomes", .array outcomes)]

theorem ofData_data (s : Summary) : ofData s.data = .object (ofNamed
    (told (ofData (.word s.total)) (ofData (.word s.passed)) (ofData (.word s.skipped))
      (ofData (.word s.failed)) (ofData (.word s.totalDurationMs))
      (s.outcomes.map fun o => ofData o.data))) := by
  have houtcomes :
      ofItems (s.outcomes.map Outcome.data) = s.outcomes.map fun o => ofData o.data := by
    rw [ofItems_eq_map, List.map_map]
    rfl
  rw [told, ← houtcomes]
  rfl

section

variable {total passed skipped failed totalDurationMs : Json} {outcomes : List Json}
  (htotal : total.isLeaf = true) (hpassed : passed.isLeaf = true) (hskipped : skipped.isLeaf = true)
  (hfailed : failed.isLeaf = true) (hduration : totalDurationMs.isLeaf = true)

include htotal hpassed hskipped hfailed hduration

theorem indifferent_read? (houtcomes : ∀ x ∈ outcomes, Indifferent (Outcome.read? view) x) :
    Indifferent (read? view)
      (.object (ofNamed (told total passed skipped failed totalDurationMs outcomes))) := by
  intro y h
  obtain ⟨fs, hfs, hretold⟩ := h.exists_fields (show fieldNames.Nodup by decide)
  have hfields : view.fields? fieldNames 0 y = some fs := hfs
  have hself : view.fields? fieldNames 0
      (.object (ofNamed (told total passed skipped failed totalDurationMs outcomes))) =
        some (told total passed skipped failed totalDurationMs outcomes) := members_ofNamed _
  have htotal' := hretold.required_leaf view.word? (k := "total") (by simp [told]) htotal
  have hpassed' := hretold.required_leaf view.word? (k := "passed") (by simp [told]) hpassed
  have hskipped' := hretold.required_leaf view.word? (k := "skipped") (by simp [told]) hskipped
  have hfailed' := hretold.required_leaf view.word? (k := "failed") (by simp [told]) hfailed
  have hduration' := hretold.required_leaf view.word? (k := "total_duration_ms") (by simp [told])
    hduration
  have houtcomes' := hretold.required (k := "outcomes") (by simp [told]) (by simp)
    (indifferent_list houtcomes)
  simp only [read?, hfields, hself, htotal', hpassed', hskipped', hfailed', hduration', houtcomes',
    Option.bind_eq_bind, Option.bind_some]

theorem refuses_read? (houtcomes : ∀ x ∈ outcomes, Refuses omissible (Outcome.read? view) x) :
    Refuses omissible (read? view)
      (.object (ofNamed (told total passed skipped failed totalDurationMs outcomes))) := by
  intro y h
  cases hfs : view.fields? fieldNames 0 y with
  | none => simp only [read?, hfs, Option.bind_eq_bind, Option.bind_none]
  | some fs =>
      obtain ⟨g, hg, hunusable⟩ := h.exists_unusable (show fieldNames.Nodup by decide) hfs
      simp only [told, List.mem_cons, List.not_mem_nil, or_false] at hg
      rcases hg with rfl | rfl | rfl | rfl | rfl | rfl
      · have hnone := hunusable.required_leaf view.word? htotal
        simp [read?, hfs, hnone]
      · have hnone := hunusable.required_leaf view.word? hpassed
        simp [read?, hfs, hnone]
      · have hnone := hunusable.required_leaf view.word? hskipped
        simp [read?, hfs, hnone]
      · have hnone := hunusable.required_leaf view.word? hfailed
        simp [read?, hfs, hnone]
      · have hnone := hunusable.required_leaf view.word? hduration
        simp [read?, hfs, hnone]
      · have hnone := hunusable.required (refuses_list houtcomes)
        simp [read?, hfs, hnone]

end

theorem indifferent_outcomes (s : Summary) :
    ∀ x ∈ s.outcomes.map fun o => ofData o.data, Indifferent (Outcome.read? view) x := by
  intro x hx
  obtain ⟨o, -, rfl⟩ := List.mem_map.1 hx
  rw [Outcome.ofData_data]
  exact Outcome.indifferent_read? rfl
    (isLeaf_ofData_ofOption (fun c => .int c.toInt) (fun _ => rfl) o.exitCode)

theorem indifferent_read?_data (s : Summary) : Indifferent (read? view) (ofData s.data) := by
  rw [ofData_data]
  exact indifferent_read? rfl rfl rfl rfl rfl s.indifferent_outcomes

theorem refuses_read?_data (s : Summary) :
    Refuses Outcome.omissibleFields (read? view) (ofData s.data) := by
  rw [ofData_data]
  refine refuses_read? rfl rfl rfl rfl rfl fun x hx => ?_
  obtain ⟨o, -, rfl⟩ := List.mem_map.1 hx
  rw [Outcome.ofData_data]
  exact Outcome.refuses_read? rfl
    (isLeaf_ofData_ofOption (fun c => .int c.toInt) (fun _ => rfl) o.exitCode)

/-- A run is decoded from its encodings and from every other text that tells the same, and from no
text that repeats a known field or leaves out one that must be there. -/
theorem decoding_ignores_layout {s : Summary} (h : s.PathsHaveTexts) :
    (∀ colour format, format = .json ∨ format = .jsonPretty →
      ∃ text, Output.render format colour s = .ok text ∧ Writes text (ofData s.data)) ∧
    (∀ x text, Retells (ofData s.data) x → Writes text x → ofJson? text = some s) ∧
    ∀ x text, Spoilt Outcome.omissibleFields (ofData s.data) x → Writes text x →
      ofJson? text = none := by
  refine ⟨fun colour format hformat => ?_, fun x text hx htext => ?_, fun x text hx htext => ?_⟩
  · obtain ⟨text, hrender, hspells, -⟩ := Output.exists_render_spells h colour hformat
    exact ⟨text, hrender, hspells.writes⟩
  · rw [ofJson?, htext.read?, Option.bind_some, s.indifferent_read?_data x hx,
      read?_data view_shows h]
  · rw [ofJson?, htext.read?, Option.bind_some, s.refuses_read?_data x hx]

section Sample

/-- A fixture that passed. -/
def sampleOutcome : Outcome := ⟨⟨.ofText "/s/a", "a"⟩, .passed, 5, some 0, none, none, none⟩

/-- A run of one fixture. -/
def sample : Summary := ⟨1, 1, 0, 0, 5, [sampleOutcome]⟩

/-- The outcome told without its nulls, with the bare list of a fixture and a member of its
own. -/
def retoldOutcome : Json :=
  .object [
    (some "n", .array [.number ⟨false, ['1'], false⟩, .object [(none, .number (spelling 0))]]),
    (some "status", .string (some "passed")),
    (some "fixture", .array [.string (some "/s/a"), .string (some "a")]),
    (some "duration_ms", .number (spelling 5)), (some "exit_code", .number (spelling 0))]

/-- The outcome told with one field twice. -/
def spoiltOutcome : Json :=
  .object [(some "fixture", .array [.string (some "/s/a"), .string (some "a")]),
    (some "status", .string (some "passed")), (some "duration_ms", .number (spelling 5)),
    (some "message", .null), (some "message", .null)]

theorem text?_sampleOutcome : sampleOutcome.fixture.path.text? = some "/s/a" := by
  rw [sampleOutcome, Path.text?, Path.ofText, Utf8.decode?_encode]

theorem retells_sampleFixture : Retells (ofData sampleOutcome.fixture.data)
    (.array [.string (some "/s/a"), .string (some "a")]) := by
  have hpath : ofData (.path sampleOutcome.fixture.path) = .string (some "/s/a") :=
    congrArg _ text?_sampleOutcome
  rw [Fixture.ofData_data, Fixture.told, hpath]
  exact .bare rfl (by simp [ofNamed, ofData, sampleOutcome, Retells.string])

theorem retells_sampleOutcome : Retells (ofData sampleOutcome.data) retoldOutcome := by
  rw [Outcome.ofData_data, retoldOutcome]
  refine .object (by simp) (by decide) ?_ ?_
  · simp [Outcome.told, ofNamed, sampleOutcome, Data.ofOption, ofData]
  · have hstatus : Retells (ofData (.text sampleOutcome.status.name)) (.string (some "passed")) :=
      .string _
    have hduration : Retells (ofData (.word sampleOutcome.durationMs)) (.number (spelling 5)) :=
      .number _
    have hcode : Retells (ofData (.ofOption (fun c : Int32 => .int c.toInt) sampleOutcome.exitCode))
        (.number (spelling 0)) := .number _
    simp [Outcome.told, ofNamed, retells_sampleFixture, hstatus, hduration, hcode]

theorem spoilt_sampleOutcome :
    Spoilt Outcome.omissibleFields (ofData sampleOutcome.data) spoiltOutcome := by
  rw [Outcome.ofData_data, spoiltOutcome]
  refine .repeated (f := (some "message", .null)) ?_ (by decide)
  simp [Outcome.told, ofNamed, sampleOutcome, Data.ofOption, ofData]

/-- The run read from a text in another order, with escapes, blanks, a member of its own and a bare
list, and not read from one that has a field twice under names that are spelled differently. -/
theorem decoding_ignores_layout_sample :
    sample.PathsHaveTexts ∧
      ofJson? "\x7b\"outcomes\":[\x7b\"n\":[1e3,\x7b\"\\ud800\":0\x7d],\"status\":\"p\\u0061ssed\",
        \"fixture\":[\"\\/s/a\",\"a\"],\"duration_ms\":5,\"exit_code\":0\x7d],\"failed\":0,
        \"skipped\":0,\"passed\":1,\"total_duration_ms\":5,\"total\":1\x7d" = some sample ∧
      ofJson? "[1,1,0,0,5,[\x7b\"fixture\":[\"/s/a\",\"a\"],\"status\":\"passed\",\"duration_ms\":5,
        \"message\":null,\"m\\u0065ssage\":null\x7d]]" = none := by
  have hs : sample.PathsHaveTexts := by
    simp [PathsHaveTexts, sample, text?_sampleOutcome]
  obtain ⟨-, htold, hspoilt⟩ := decoding_ignores_layout hs
  refine ⟨hs, htold (.object [(some "outcomes", .array [retoldOutcome]),
      (some "failed", .number (spelling 0)), (some "skipped", .number (spelling 0)),
      (some "passed", .number (spelling 1)), (some "total_duration_ms", .number (spelling 5)),
      (some "total", .number (spelling 1))]) _ ?_ (read?_eq_some_iff.1 (by cbv)),
    hspoilt (.array [.number (spelling 1), .number (spelling 1), .number (spelling 0),
      .number (spelling 0), .number (spelling 5), .array [spoiltOutcome]]) _ ?_
      (read?_eq_some_iff.1 (by cbv))⟩
  · rw [ofData_data]
    refine .object (by simp) (by decide) (by simp [told, ofNamed]) ?_
    have hzero : Retells (ofData (.word 0)) (.number (spelling 0)) := .number _
    have hone : Retells (ofData (.word 1)) (.number (spelling 1)) := .number _
    have hfive : Retells (ofData (.word 5)) (.number (spelling 5)) := .number _
    have houtcomes : Retells (.array [ofData sampleOutcome.data]) (.array [retoldOutcome]) :=
      .array rfl (by simpa using retells_sampleOutcome)
    simp [told, ofNamed, sample, hzero, hone, hfive, houtcomes]
  · rw [ofData_data]
    exact .bareField (i := 5) rfl rfl (.item (i := 0) rfl rfl spoilt_sampleOutcome)

end Sample

end Summary

end Conformance

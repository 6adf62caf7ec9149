import Conformance.Output.Format
import Conformance.Proofs.Json.Layout
import Conformance.Proofs.Program.Plan
import Conformance.Proofs.Runner.Sequence
import Mathlib.Logic.Basic

/-!
# Runs printed as JSON

A run is printed as JSON only if all its paths have texts. Then the text in
either layout is decoded as the run that was printed, and the compact one stands
on one line (`exists_compact`); a single path without text leaves nothing of the
whole run (`none_mem_compact`, `none_mem_pretty`). So the paths alone decide
whether what is printed can be read (`render_json_decodes_iff`), and a suite with
one file name that spells no text passes with an empty report.
-/

namespace Conformance

namespace Json

/-- Characters that stand on one line: no controls. -/
def Inline (cs : List Char) : Prop := ∀ c ∈ cs, 0x20 ≤ c.toNat

section Inline

variable {c : Char} {cs cs' : List Char}

@[simp] theorem inline_nil : Inline [] := nofun

@[simp] theorem inline_cons : Inline (c :: cs) ↔ 0x20 ≤ c.toNat ∧ Inline cs :=
  List.forall_mem_cons

@[simp] theorem inline_append : Inline (cs ++ cs') ↔ Inline cs ∧ Inline cs' :=
  List.forall_mem_append

theorem Inline.newline_notMem (h : Inline cs) : '\n' ∉ cs ∧ '\r' ∉ cs :=
  ⟨fun hmem => absurd (h _ hmem) (by decide), fun hmem => absurd (h _ hmem) (by decide)⟩

theorem le_toNat_digitChar {n : Nat} (h : n < 16) : 0x20 ≤ (Nat.digitChar n).toNat := by
  revert n
  decide

theorem inline_escape (c : Char) : Inline (escape c) := by
  rcases escape_cases c with ⟨e, he, hescape⟩ | ⟨hc, hescape⟩ | ⟨hc, -, -, hescape⟩
  · have hshort : ∀ p ∈ shortEscapes, 0x20 ≤ p.1.toNat := by decide
    rw [hescape]
    simp [hshort _ he]
  · have hhigh := le_toNat_digitChar (n := c.toNat / 16) (by omega)
    have hlow := le_toNat_digitChar (n := c.toNat % 16) (by omega)
    rw [hescape]
    simp [hhigh, hlow]
  · rw [hescape]
    simpa using hc

theorem inline_quote (s : String) : Inline (quote s).toList := by
  have hescaped : Inline (s.toList.flatMap escape) := by
    intro c hc
    obtain ⟨x, -, hx⟩ := List.mem_flatMap.1 hc
    exact inline_escape x c hx
  rw [toList_quote]
  simp [hescaped]

theorem inline_intText (n : Int) : Inline (Decimal.intText n).toList := by
  intro c hc
  rcases isNumeral_of_mem_intText hc with rfl | hdigit
  · decide
  · simp only [Decimal.isDigit, Bool.and_eq_true, decide_eq_true_eq] at hdigit
    have hle : '0'.toNat ≤ c.toNat := hdigit.1
    exact Nat.le_trans (by decide) hle

end Inline

mutual

theorem exists_compact (d : Data) (h : ∀ p ∈ d.paths, p.text?.isSome) :
    ∃ text, (compact d).complete? = some text ∧ Spells (ofData d) text.toList ∧
      Inline text.toList := by
  match d with
  | .null => exact ⟨_, Chunks.complete?_singleton _, Spells.null, by simp⟩
  | .bool true => exact ⟨_, Chunks.complete?_singleton _, Spells.true, by simp⟩
  | .bool false => exact ⟨_, Chunks.complete?_singleton _, Spells.false, by simp⟩
  | .int n => exact ⟨_, Chunks.complete?_singleton _, spells_intText n, inline_intText n⟩
  | .text s =>
    exact ⟨_, Chunks.complete?_singleton _, Spells.string (stringText_quote s), inline_quote s⟩
  | .path p =>
      obtain ⟨s, hs⟩ := Option.isSome_iff_exists.1 (h p (by simp [Data.paths]))
      refine ⟨quote s, ?_, ?_, inline_quote s⟩
      · rw [compact, atom, hs]
        exact Chunks.complete?_singleton _
      · rw [ofData, hs]
        exact .string (stringText_quote s)
  | .list [] => exact ⟨_, rfl, spells_array_nil blanks_nil, by simp⟩
  | .list (x :: xs) =>
      obtain ⟨text, htext, hbody, hinline⟩ := exists_compactItems (x :: xs) (by simp) h
      refine ⟨_, Chunks.complete?_cons (Chunks.complete?_append htext
        (Chunks.complete?_singleton _)), ?_, ?_⟩
      · simpa [ofData] using hbody.array
      · simp [hinline]
  | .record [] => exact ⟨_, rfl, spells_object_nil blanks_nil, by simp⟩
  | .record (field :: fields) =>
      obtain ⟨text, htext, hbody, hinline⟩ := exists_compactFields (field :: fields) (by simp) h
      refine ⟨_, Chunks.complete?_cons (Chunks.complete?_append htext
        (Chunks.complete?_singleton _)), ?_, ?_⟩
      · simpa [ofData] using hbody.object
      · simp [hinline]

theorem exists_compactItems (items : List Data) (hne : items ≠ [])
    (h : ∀ p ∈ Data.pathsOfItems items, p.text?.isSome) :
    ∃ text, (compactItems items).complete? = some text ∧
      SpellsItems (ofItems items) text.toList ∧ Inline text.toList := by
  match items with
  | [] => exact absurd rfl hne
  | [x] =>
      obtain ⟨text, htext, hspells, hinline⟩ :=
        exists_compact x fun p hp => h p (List.mem_append_left _ hp)
      refine ⟨text, by rw [compactItems, htext], ?_, hinline⟩
      simpa [ofItems] using hspells.items blanks_nil blanks_nil
  | x :: y :: xs =>
      obtain ⟨text, htext, hspells, hinline⟩ :=
        exists_compact x fun p hp => h p (List.mem_append_left _ hp)
      obtain ⟨text', htext', hbody, hinline'⟩ := exists_compactItems (y :: xs) (by simp)
        fun p hp => h p (List.mem_append_right _ hp)
      refine ⟨_, Chunks.complete?_append htext (Chunks.complete?_cons htext'), ?_, ?_⟩
      · simpa [ofItems] using hbody.cons hspells blanks_nil blanks_nil
      · simp [hinline, hinline']

theorem exists_compactFields (fields : List (String × Data)) (hne : fields ≠ [])
    (h : ∀ p ∈ Data.pathsOfFields fields, p.text?.isSome) :
    ∃ text, (compactFields fields).complete? = some text ∧
      SpellsMembers (ofFields fields) text.toList ∧ Inline text.toList := by
  match fields with
  | [] => exact absurd rfl hne
  | [(k, x)] =>
      obtain ⟨text, htext, hspells, hinline⟩ :=
        exists_compact x fun p hp => h p (List.mem_append_left _ hp)
      refine ⟨_, Chunks.complete?_cons htext, ?_, ?_⟩
      · simpa [ofFields] using
          hspells.members (stringText_quote k) blanks_nil blanks_nil blanks_nil blanks_nil
      · simp [inline_quote, hinline]
  | (k, x) :: field :: fields =>
      obtain ⟨text, htext, hspells, hinline⟩ :=
        exists_compact x fun p hp => h p (List.mem_append_left _ hp)
      obtain ⟨text', htext', hbody, hinline'⟩ := exists_compactFields (field :: fields) (by simp)
        fun p hp => h p (List.mem_append_right _ hp)
      refine ⟨_, Chunks.complete?_append (Chunks.complete?_cons htext)
        (Chunks.complete?_cons htext'), ?_, ?_⟩
      · simpa [ofFields] using hbody.cons hspells (stringText_quote k) blanks_nil blanks_nil
          blanks_nil blanks_nil
      · simp [inline_quote, hinline, hinline']

end

variable {p : Path}

mutual

theorem none_mem_compact (hp : p.text? = none) (d : Data) (h : p ∈ d.paths) :
    none ∈ compact d := by
  match d with
  | .path q =>
      have hq : p = q := by simpa [Data.paths] using h
      subst hq
      simp [compact, atom, hp]
  | .list items => simp [compact, none_mem_compactItems hp items h]
  | .record fields => simp [compact, none_mem_compactFields hp fields h]

theorem none_mem_compactItems (hp : p.text? = none) (items : List Data)
    (h : p ∈ Data.pathsOfItems items) : none ∈ compactItems items := by
  match items with
  | [x] => exact none_mem_compact hp x (by simpa [Data.pathsOfItems] using h)
  | x :: y :: xs =>
      rw [Data.pathsOfItems] at h
      rcases List.mem_append.1 h with hx | hxs
      · simp [compactItems, none_mem_compact hp x hx]
      · simp [compactItems, none_mem_compactItems hp (y :: xs) hxs]

theorem none_mem_compactFields (hp : p.text? = none) (fields : List (String × Data))
    (h : p ∈ Data.pathsOfFields fields) : none ∈ compactFields fields := by
  match fields with
  | [(k, x)] =>
      have hx : p ∈ x.paths := by simpa [Data.pathsOfFields] using h
      simp [compactFields, none_mem_compact hp x hx]
  | (k, x) :: field :: fields =>
      rw [Data.pathsOfFields] at h
      rcases List.mem_append.1 h with hx | hxs
      · simp [compactFields, none_mem_compact hp x hx]
      · simp [compactFields, none_mem_compactFields hp (field :: fields) hxs]

end

end Json

namespace Summary

/-- The run that a JSON text spells. -/
def ofJson? (text : String) : Option Summary := (Json.read? text).bind (read? Json.view)

theorem ofJson?_empty : ofJson? "" = none := by decide

theorem paths_data (s : Summary) : s.data.paths = s.outcomes.map (·.fixture.path) := by
  simp [data, Data.paths, Data.pathsOfFields, Data.word, StoredRun.paths_outcomes]

def PathsHaveTexts (s : Summary) : Prop := ∀ o ∈ s.outcomes, o.fixture.path.text?.isSome

variable {s : Summary}

theorem ofJson?_of_writes (h : s.PathsHaveTexts) {text : String}
    (htext : Json.Writes text (Json.ofData s.data)) : ofJson? text = some s := by
  rw [ofJson?, htext.read?, Option.bind_some, read?_data Json.view_shows h]

theorem exists_path_of_not_pathsHaveTexts (h : ¬ s.PathsHaveTexts) :
    ∃ p ∈ s.data.paths, p.text? = none := by
  simp only [PathsHaveTexts, not_forall, Bool.not_eq_true, Option.isSome_eq_false_iff,
    Option.isNone_iff_eq_none] at h
  obtain ⟨o, ho, hnone⟩ := h
  refine ⟨o.fixture.path, ?_, hnone⟩
  rw [paths_data]
  exact List.mem_map.2 ⟨o, ho, rfl⟩

end Summary

namespace Output

open Summary

variable {s : Summary}

/-- A run whose paths have texts is printed as a text of its value, on one line in the compact
layout. -/
theorem exists_render_spells (h : s.PathsHaveTexts) (colour : Bool) {format : OutputFormat}
    (hformat : format = .json ∨ format = .jsonPretty) :
    ∃ text, render format colour s = .ok text ∧ Json.Spells (Json.ofData s.data) text.toList ∧
      (format = .json → Json.Inline text.toList) := by
  have hpaths : ∀ p ∈ s.data.paths, p.text?.isSome := by
    simpa [paths_data, PathsHaveTexts] using h
  rcases hformat with rfl | rfl
  · obtain ⟨text, htext, hspells, hinline⟩ := Json.exists_compact s.data hpaths
    refine ⟨text, ?_, hspells, fun _ => hinline⟩
    rw [render, Json.compactText?, htext, Option.getD_some]
  · obtain ⟨text, htext, hspells⟩ := Json.exists_pretty 0 s.data hpaths
    refine ⟨text, ?_, hspells, fun hjson => by cases hjson⟩
    rw [render, Json.prettyText?, htext, Option.getD_some]

theorem exists_render_json (h : s.PathsHaveTexts) (colour : Bool) {format : OutputFormat}
    (hformat : format = .json ∨ format = .jsonPretty) :
    ∃ text, render format colour s = .ok text ∧ ofJson? text = some s ∧
      (format = .json → '\n' ∉ text.toList ∧ '\r' ∉ text.toList) := by
  obtain ⟨text, hrender, hspells, hinline⟩ := exists_render_spells h colour hformat
  exact ⟨text, hrender, ofJson?_of_writes h hspells.writes,
    fun hjson => (hinline hjson).newline_notMem⟩

theorem render_json_of_not_pathsHaveTexts (h : ¬ s.PathsHaveTexts) (colour : Bool)
    {format : OutputFormat} (hformat : format = .json ∨ format = .jsonPretty) :
    render format colour s = .ok "" := by
  obtain ⟨p, hmem, hnone⟩ := exists_path_of_not_pathsHaveTexts h
  rcases hformat with rfl | rfl
  · have hcompact := Chunks.complete?_of_none_mem (Json.none_mem_compact hnone s.data hmem)
    rw [render, Json.compactText?, hcompact, Option.getD_none]
  · have hpretty := Chunks.complete?_of_none_mem (Json.none_mem_pretty hnone 0 s.data hmem)
    rw [render, Json.prettyText?, hpretty, Option.getD_none]

/-- What is printed as JSON, in either layout, is decoded as the run that was printed exactly if the
paths of all its fixtures have texts; it is empty exactly if one has none. The compact layout stands
on one line. -/
theorem render_json_decodes_iff (s : Summary) (colour : Bool) {format : OutputFormat}
    (hformat : format = .json ∨ format = .jsonPretty) :
    ∃ text, render format colour s = .ok text ∧
      (ofJson? text = some s ↔ s.PathsHaveTexts) ∧ (text = "" ↔ ¬ s.PathsHaveTexts) ∧
      (format = .json → '\n' ∉ text.toList ∧ '\r' ∉ text.toList) := by
  by_cases h : s.PathsHaveTexts
  · obtain ⟨text, hrender, hdecoded, hline⟩ := exists_render_json h colour hformat
    refine ⟨text, hrender, iff_of_true hdecoded h, iff_of_false ?_ (not_not.2 h), hline⟩
    rintro rfl
    rw [ofJson?_empty] at hdecoded
    cases hdecoded
  · refine ⟨"", render_json_of_not_pathsHaveTexts h colour hformat, iff_of_false ?_ h,
      iff_of_true rfl h, by simp⟩
    rw [ofJson?_empty]
    nofun

/-- Two outcomes with line breaks, quotes and other controls in their texts, on one line. -/
theorem render_json_decodes_iff_controls :
    let o : Outcome := ⟨⟨.ofText "/s/é.flang", "é.flang"⟩, .failed, 5, some 1,
      some "\n\r\"\\", some "\x00\u2028\n", some .nonZeroExit⟩
    let s : Summary := ⟨2, 0, 0, 2, 10, [o, { o with exitCode := none }]⟩
    ∃ text, render .json true s = .ok text ∧ ofJson? text = some s ∧ text ≠ "" ∧
      '\n' ∉ text.toList := by
  intro o s
  have hpaths : s.PathsHaveTexts := by
    simp [PathsHaveTexts, s, o, Path.text?, Path.ofText, Utf8.decode?_encode]
  have hformat : OutputFormat.json = .json ∨ OutputFormat.json = .jsonPretty := .inl rfl
  obtain ⟨text, hrender, hdecodes, hempty, hline⟩ := render_json_decodes_iff s true hformat
  exact ⟨text, hrender, hdecodes.2 hpaths, fun h => hempty.1 h hpaths, (hline rfl).1⟩

/-- The suite `/s` with one fixture, whose name starts with a byte that spells no text. -/
def strayWorld : World where
  files := ⟨[([115], .directory [(255 :: Utf8.encode ".flang", .file [] false)])]⟩
  cwd := some []
  environment := ⟨[]⟩

def strayFixture : Fixture :=
  .ofPath ⟨[47, 115, 47, 255] ++ Utf8.encode ".flang"⟩ ⟨[47, 115]⟩

theorem collect_strayWorld :
    (Discovery.collect strayWorld ⟨[47, 115]⟩ "flang").1 = [strayFixture] := by
  have hfind (followLast : Bool) : strayWorld.find followLast ⟨[47, 115]⟩ =
      .ok ([[115]], .directory [(255 :: Utf8.encode ".flang", .file [] false)]) := by
    cases followLast <;> rfl
  have hwalk : Discovery.walk strayWorld ⟨[47, 115]⟩ =
      [.directory ⟨[47, 115]⟩, .file strayFixture.path] := by
    rw [Discovery.walk, hfind, hfind]
    simp only [Discovery.inOrder, List.mergeSort_singleton, Discovery.visit]
    decide +kernel
  simp only [Discovery.collect, hwalk]
  decide +kernel

/-- The compiler accepts the only fixture of the suite, and nothing is printed for the run. -/
theorem render_json_blank_for_stray_name :
    let compiler := Compiler.ofFunction fun _ => .ofReply (.exited (some 0) "")
    ∃ fixtures summary log,
      (Discovery.discover strayWorld ⟨[47, 115]⟩ "flang").1 = .ok fixtures ∧
        (Runner.runAll compiler () 0 fixtures).1 = .ok (summary, log) ∧
        summary.outcomes = [.passed strayFixture 0] ∧ summary.exitCode = 0 ∧
        render .json false summary = .ok "" ∧ render .jsonPretty false summary = .ok "" ∧
        ofJson? "" = none := by
  intro compiler
  have hskipped : strayFixture.isSkipped = false := by decide +kernel
  have hjudge : Runner.judge strayFixture (compiler () strayFixture.path).1 =
      .ok (.passed strayFixture 0) := by
    rw [Runner.judge, hskipped]
    rfl
  obtain ⟨log, hfixture⟩ := Runner.runFixture_of_judge hjudge
  obtain ⟨each, hruns⟩ : ∃ each, Runner.runEach compiler () [strayFixture] =
      (.ok ([.passed strayFixture 0], each), ()) := by
    simp only [Runner.runEach, hfixture, Prod.mk.injEq, and_true]
    exact ⟨_, rfl⟩
  have hsummary : (Runner.runAll compiler () 0 [strayFixture]).1.map (·.1) =
      .ok ⟨1, 1, 0, 0, 0, [.passed strayFixture 0]⟩ := Runner.runAll_of_runEach 0 hruns
  obtain ⟨told, hrun⟩ := Runner.exists_of_map_fst_eq_ok hsummary
  have hfound : (Discovery.collect strayWorld ⟨[47, 115]⟩ "flang").1 ≠ [] := by
    simp [collect_strayWorld]
  obtain ⟨events, hdiscover⟩ := Discovery.discover_of_ne_nil hfound
  have hpaths : ¬ PathsHaveTexts ⟨1, 1, 0, 0, 0, [.passed strayFixture 0]⟩ := by
    have hnone : strayFixture.path.text? = none := by decide +kernel
    simp [PathsHaveTexts, Outcome.passed, hnone]
  refine ⟨[strayFixture], ⟨1, 1, 0, 0, 0, [.passed strayFixture 0]⟩, told, ?_, hrun, rfl,
    by decide, render_json_of_not_pathsHaveTexts hpaths false (.inl rfl),
    render_json_of_not_pathsHaveTexts hpaths false (.inr rfl), ofJson?_empty⟩
  rw [hdiscover, collect_strayWorld]

end Output

end Conformance

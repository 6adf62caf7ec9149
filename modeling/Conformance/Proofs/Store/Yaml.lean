import Conformance.Proofs.Store.RoundTrip
import Conformance.Proofs.Yaml.Values

/-!
# Reports stored as YAML

The names of the fields in a report are those of its records (`names_data`), all
of which can be written as they are. A stored run whose paths have texts is then
printed as YAML and read as the node of its data, and since YAML shows report
data for what it is (`view_shows`), the run is decoded from its text
(`exists_content_yaml`). What is saved in a regular file with an extension of
YAML is loaded again (`load_save_yaml`).
-/

namespace Conformance

theorem Data.names_int (n : Int) : (Data.int n).names = [] := by
  rw [Data.names]

theorem Data.names_text (s : String) : (Data.text s).names = [] := by
  rw [Data.names]

theorem Data.names_ofOption {β : Type} {data : β → Data} (h : ∀ b, (data b).names = [])
    (b : Option β) : (Data.ofOption data b).names = [] := by
  cases b with
  | none => rfl
  | some b => exact h b

theorem Data.namesOfItems_subset {items : List Data} {names : List String}
    (h : ∀ x ∈ items, x.names ⊆ names) : Data.namesOfItems items ⊆ names := by
  induction items with
  | nil => exact List.nil_subset names
  | cons x xs ih =>
      obtain ⟨hx, hxs⟩ := List.forall_mem_cons.1 h
      exact List.append_subset.2 ⟨hx, ih hxs⟩

namespace StoredRun

def recordNames : List String :=
  fieldNames ++ RunSettings.fieldNames ++ RunEnvironment.fieldNames ++ Summary.fieldNames ++
    Outcome.fieldNames ++ Fixture.fieldNames

theorem names_outcome (o : Outcome) : o.data.names ⊆ recordNames := by
  have hcode := Data.names_ofOption (fun c : Int32 => Data.names_int c.toInt) o.exitCode
  have hmessage := Data.names_ofOption Data.names_text o.message
  have houtput := Data.names_ofOption Data.names_text o.capturedOutput
  have hfailure := Data.names_ofOption (fun k => Data.names_text k.name) o.failure
  have hnames : o.data.names = "fixture" :: Fixture.fieldNames ++ Outcome.fieldNames.drop 1 := by
    simp [Outcome.data, Fixture.data, Data.names, Data.namesOfFields, Data.word, hcode, hmessage,
      houtput, hfailure, Fixture.fieldNames, Outcome.fieldNames]
  rw [hnames]
  decide

theorem names_summary (s : Summary) : s.data.names ⊆ recordNames := by
  have houtcomes : Data.namesOfItems (s.outcomes.map Outcome.data) ⊆ recordNames := by
    refine Data.namesOfItems_subset fun x hx => ?_
    obtain ⟨o, -, rfl⟩ := List.mem_map.1 hx
    exact names_outcome o
  have hnames : s.data.names =
      Summary.fieldNames ++ Data.namesOfItems (s.outcomes.map Outcome.data) := by
    simp [Summary.data, Data.names, Data.namesOfFields, Data.word, Summary.fieldNames]
  rw [hnames, List.append_subset]
  exact ⟨by decide, houtcomes⟩

theorem names_settings (c : RunSettings) : c.data.names ⊆ recordNames := by
  have hfilters : Data.namesOfItems (c.filters.map .text) ⊆ [] := by
    refine Data.namesOfItems_subset fun x hx => ?_
    obtain ⟨s, -, rfl⟩ := List.mem_map.1 hx
    rw [Data.names_text]
    exact List.nil_subset []
  have hnames : c.data.names ⊆ RunSettings.fieldNames := by
    rw [RunSettings.data]
    split <;> simp [Data.names, Data.namesOfFields, Data.word, RunSettings.fieldNames,
      List.subset_nil.1 hfilters]
  exact List.Subset.trans hnames (by decide)

theorem names_environment (e : RunEnvironment) : e.data.names ⊆ recordNames := by
  have hnames : e.data.names = RunEnvironment.fieldNames := by
    simp [RunEnvironment.data, Data.names, Data.namesOfFields, RunEnvironment.fieldNames]
  rw [hnames]
  decide

theorem names_data (r : StoredRun) : r.data.names ⊆ recordNames := by
  have hnames : r.data.names = ["id", "started_at", "completed_at", "config"] ++
      r.settings.data.names ++ ["environment"] ++ r.environment.data.names ++ ["summary"] ++
      r.summary.data.names := by
    simp [data, Data.names, Data.namesOfFields]
  rw [hnames]
  simp only [List.append_subset]
  exact ⟨⟨⟨⟨⟨by decide, names_settings _⟩, by decide⟩, names_environment _⟩, by decide⟩,
    names_summary _⟩

theorem isFieldName_of_mem_recordNames :
    ∀ s ∈ recordNames, Yaml.Scanner.IsFieldName s.toList := by
  have hnames : ∀ s ∈ recordNames, s.toList ≠ [] ∧
      s.toList.all (· ∈ Yaml.Scanner.nameChars) = true ∧
      s.toList.length ≤ Yaml.maxKeyLength := by decide +kernel
  intro s hs
  obtain ⟨hne, hchars, hlength⟩ := hnames s hs
  exact ⟨hne, List.all_iff_forall_prop.1 hchars, hlength⟩

theorem isFieldName_of_mem_names (r : StoredRun) :
    ∀ s ∈ r.data.names, Yaml.Scanner.IsFieldName s.toList :=
  fun s hs => isFieldName_of_mem_recordNames s (r.names_data hs)

end StoredRun

namespace ReportFormat

/-- An extension of YAML files, in whatever case its letters are, gives the format. -/
theorem ofPath_yaml {p : Path} {extension : String}
    (hextension : p.extension? = some (Utf8.encode extension))
    (hyaml : extension.map Char.toLower = "yaml" ∨ extension.map Char.toLower = "yml") :
    ofPath p = .yaml := by
  simp only [ofPath, hextension, Option.bind_some, Utf8.decode?_encode, ofExtension]
  rcases hyaml with hyaml | hyaml
  · rw [hyaml]
    rfl
  · rw [hyaml]
    rfl

end ReportFormat

namespace Store

theorem exists_content_yaml {r : StoredRun} (hpaths : ∀ q ∈ r.paths, q.text?.isSome)
    (hstarted : r.startedAt.isValid = true) (hcompleted : r.completedAt.isValid = true) :
    ∃ text, content r .yaml = (text, none) ∧
      ∀ p, decode p (Utf8.encode text) .yaml = .ok r := by
  have hread := StoredRun.read?_data (Yaml.view_shows {}) hpaths hstarted hcompleted
  rw [← r.paths_data] at hpaths
  have hnames := r.isFieldName_of_mem_names
  obtain ⟨f, fields, hdata⟩ : ∃ f fields, r.data = .record (f :: fields) := ⟨_, _, rfl⟩
  rw [hdata] at hread hpaths hnames
  obtain ⟨text, htext, hdocument⟩ := Yaml.exists_text_read? f fields hpaths hnames
  refine ⟨text, by simp only [content, hdata, htext], ?_⟩
  intro p
  simp only [decode, Utf8.decode?_encode, Option.bind_some, hdocument, hread]

/-- A run is decoded from the text that is written for it. Where the text goes to a regular file,
which takes all of it, the run is loaded from there. -/
theorem load_save_yaml {r : StoredRun} {p : Path} {extension : String}
    (hextension : p.extension? = some (Utf8.encode extension))
    (hyaml : extension.map Char.toLower = "yaml" ∨ extension.map Char.toLower = "yml")
    (hpaths : ∀ q ∈ r.paths, q.text?.isSome) (hstarted : r.startedAt.isValid = true)
    (hcompleted : r.completedAt.isValid = true) :
    ∃ text, content r (.ofPath p) = (text, none) ∧
      decode p (Utf8.encode text) (.ofPath p) = .ok r ∧
      ∀ w loc, w.openForWriting p = .ok loc → w.Takes loc (Utf8.encode text) →
        ∃ w', save w r p = (.ok .yaml, [savedEvent r p], w') ∧
          ((∀ e, w.files.get? loc = some e → e.isFile = true) →
            openFile w' p = .ok (Utf8.encode text) ∧ (load w' p).1 = .ok r) := by
  have hformat := ReportFormat.ofPath_yaml hextension hyaml
  obtain ⟨text, htext, hdecode⟩ := exists_content_yaml hpaths hstarted hcompleted
  rw [← hformat] at htext hdecode
  refine ⟨text, htext, hdecode p, ?_⟩
  intro w loc hopen htakes
  have hsave := save_eq hopen htext htakes
  rw [hformat] at hsave
  refine ⟨_, hsave, ?_⟩
  intro hfile
  have hread := openFile_setContent hopen hfile (Utf8.encode text)
  exact ⟨hread, load_eq hread (hdecode p)⟩

/-- Texts that are empty, that spell null, a truth value or a number, that start or end with blanks
or line breaks, that have several lines, and that hold control characters or one outside the basic
plane; absent values beside present ones; and an extension in mixed case. -/
theorem load_save_yaml_special_text :
    let o : Outcome := ⟨⟨.ofText "/s/é: \"#", "- a"⟩, .failed, 18446744073709551615,
      some (-2147483648), some "\x1b[0m𝄞\u2028", some "  a\n\n b \n\n", some .nonZeroExit⟩
    let r : StoredRun := ⟨"", ⟨-62198755201, 1000000000⟩, ⟨1483228799, 1500000000⟩,
      ⟨.ofText "/s", .ofText "~", true, 0, ["", "null", "true", "-1", "0x1F", " a", "a ", "a\r"]⟩,
      ⟨"NULL", "1e3", ".inf"⟩,
      ⟨3, 0, 0, 3, 7, [o, { o with exitCode := none, message := none, capturedOutput := some "\n" },
        { o with message := some "a\nb", capturedOutput := none, failure := none }]⟩⟩
    let w : World :=
      { files := ⟨[([100], .directory [])]⟩, cwd := some [[100]], environment := ⟨[]⟩ }
    let p : Path := .ofText "r.YmL"
    ∃ text w', content r .yaml = (text, none) ∧ save w r p = (.ok .yaml, [savedEvent r p], w') ∧
      openFile w' p = .ok (Utf8.encode text) ∧ (load w' p).1 = .ok r := by
  intro o r w p
  have hextension : p.extension? = some (Utf8.encode "YmL") := by decide
  have hyaml : "YmL".map Char.toLower = "yml" :=
    String.toList_inj.1 (by rw [String.toList_map]; rfl)
  have hpaths : ∀ q ∈ r.paths, q.text?.isSome := by
    simp [StoredRun.paths, r, o, Path.text?, Path.ofText, Utf8.decode?_encode]
  have hopen : w.openForWriting p = .ok [[100], [114, 46, 89, 109, 76]] := rfl
  have hnone : w.files.get? [[100], [114, 46, 89, 109, 76]] = none := rfl
  obtain ⟨text, htext, -, hstore⟩ :=
    load_save_yaml hextension (.inr hyaml) hpaths (by decide) (by decide)
  obtain ⟨w', hsave, hfile⟩ := hstore w _ hopen (World.takes_of_eq_none rfl)
  obtain ⟨hread, hload⟩ := hfile (by simp [hnone])
  exact ⟨text, w', ReportFormat.ofPath_yaml hextension (.inr hyaml) ▸ htext, hsave, hread, hload⟩

end Store

end Conformance

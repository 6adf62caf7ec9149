import Conformance.Proofs.Store.Yaml

/-!
# What storing a report does to its file

A report has a complete text in a format (`text?`) if it is stored as records or
if all its paths have texts (`text?_isSome_iff`). A file that cannot be opened
leaves everything as it was. One that is opened is emptied, whether the report can
be written or not. It ends up with the complete text if there is one and the file
takes it; else with what came before the first path without text, of JSON what is
printed up to there and of YAML nothing, and with no more than the file takes
(`save_effect`). Nothing else changes, and a device keeps nothing (`Received`).
-/

namespace Conformance

namespace Store

def text? (r : StoredRun) : ReportFormat → Option String
  | .json => Json.prettyText? r.data
  | .yaml => Yaml.text? r.data
  | .csv => some (Csv.text true r.summary.outcomes)

variable {w : World} {r : StoredRun} {p : Path} {loc : Location} {format : ReportFormat}
  {text : String}

theorem yamlText?_isSome_iff (r : StoredRun) :
    (Yaml.text? r.data).isSome ↔ ∀ q ∈ r.data.paths, q.text?.isSome := by
  obtain ⟨f, fields, hdata⟩ : ∃ f fields, r.data = .record (f :: fields) := ⟨_, _, rfl⟩
  have hnames := r.isFieldName_of_mem_names
  rw [hdata] at hnames ⊢
  exact Yaml.text?_isSome_iff f fields hnames

/-- Records show any path; the other formats need texts. -/
theorem text?_isSome_iff (r : StoredRun) (format : ReportFormat) :
    (text? r format).isSome ↔ format = .csv ∨ ∀ q ∈ r.paths, q.text?.isSome := by
  rw [← r.paths_data]
  cases format with
  | json => simp [text?, Json.prettyText?_isSome_iff]
  | yaml => simp [text?, yamlText?_isSome_iff]
  | csv => simp [text?]

theorem content_of_text? (h : text? r format = some text) : content r format = (text, none) := by
  cases format with
  | json =>
      rw [text?, Json.prettyText?] at h
      simp only [content, h]
  | yaml =>
      rw [text?] at h
      simp only [content, h]
  | csv =>
      cases h
      rfl

theorem content_json_of_eq_none (h : text? r .json = none) :
    content r .json = ((Json.pretty 0 r.data).started, some .jsonNotWritten) := by
  rw [text?, Json.prettyText?] at h
  simp only [content, h]

theorem content_yaml_of_eq_none (h : text? r .yaml = none) :
    content r .yaml = ("", some .yamlNotWritten) := by
  rw [text?] at h
  simp only [content, h]

/-- The file that a path puts at a location holds the content, and nothing else has changed; if it
is a device, nothing has changed at all. -/
structure Received (w w' : World) (p : Path) (loc : Location) (content : Bytes) : Prop where
  cwd_eq : w'.cwd = w.cwd
  environment_eq : w'.environment = w.environment
  files : (w.files.get? loc = some .device ∧ w'.files = w.files) ∨
    (FileSystem.Written w.files w'.files loc content ∧ w'.contentOf p = .ok content)

theorem received_setContent (hopen : w.openForWriting p = .ok loc) (content : Bytes) :
    Received w (w.setContent loc content) p loc content where
  cwd_eq := w.setContent_cwd loc content
  environment_eq := by
    rw [World.setContent]
    split <;> rfl
  files := by
    by_cases hdevice : w.files.get? loc = some .device
    · refine .inl ⟨hdevice, ?_⟩
      simp only [World.setContent, hdevice]
    · have hfile : ∀ e, w.files.get? loc = some e → e.isFile = true := by
        intro e he
        refine (World.isFile_or_eq_device_of_openForWriting hopen he).resolve_right ?_
        rintro rfl
        exact hdevice he
      obtain ⟨-, executable, -, hfind⟩ := World.openForWriting_setContent hopen hfile content
      refine .inr ⟨World.written_setContent hopen hfile content, ?_⟩
      simp only [World.contentOf, hfind]

/-- What becomes of a report and of its target. -/
inductive Saves (w : World) (r : StoredRun) (p : Path) :
    Except StoreError ReportFormat → World → Prop where
  | refused {e : FileError} (h : w.openForWriting p = .error e) :
      Saves w r p (.error (.notCreated p e)) w
  | complete {loc : Location} {text : String} {w' : World} (h : w.openForWriting p = .ok loc)
      (htext : text? r (.ofPath p) = some text) (htakes : w.Takes loc (Utf8.encode text))
      (hw' : Received w w' p loc (Utf8.encode text)) : Saves w r p (.ok (.ofPath p)) w'
  /-- The target refuses a part that does not wait in the buffer. -/
  | notTaken {loc : Location} {limit : Limit} {text : String} {w' : World}
      (h : w.openForWriting p = .ok loc) (htext : (content r (.ofPath p)).1 = text)
      (hlimit : w.limit? loc = some limit)
      (hroom : limit.room < handedOver limit (.ofPath p) (Utf8.encode text).length)
      (hw' : Received w w' p loc ((Utf8.encode text).take limit.room)) :
      Saves w r p (.error (.notTaken (.ofPath p) limit.error)) w'
  /-- The target takes all but a part that waits in the buffer for the end. -/
  | notFlushed {loc : Location} {limit : Limit} {text : String} {w' : World}
      (h : w.openForWriting p = .ok loc) (htext : text? r (.ofPath p) = some text)
      (hlimit : w.limit? loc = some limit)
      (hhanded : handedOver limit (.ofPath p) (Utf8.encode text).length ≤ limit.room)
      (hroom : limit.room < (Utf8.encode text).length)
      (hw' : Received w w' p loc ((Utf8.encode text).take limit.room)) :
      Saves w r p (.error (.notFlushed limit.error)) w'
  | json {loc : Location} {w' : World} (h : w.openForWriting p = .ok loc)
      (hformat : ReportFormat.ofPath p = .json) (hpath : ∃ q ∈ r.paths, q.text? = none)
      (hw' : Received w w' p loc (w.accepted loc (Utf8.encode (Json.pretty 0 r.data).started))) :
      Saves w r p (.error .jsonNotWritten) w'
  | yaml {loc : Location} {w' : World} (h : w.openForWriting p = .ok loc)
      (hformat : ReportFormat.ofPath p = .yaml) (hpath : ∃ q ∈ r.paths, q.text? = none)
      (hw' : Received w w' p loc []) : Saves w r p (.error .yamlNotWritten) w'

theorem save_of_error {e : FileError} (hopen : w.openForWriting p = .error e) :
    save w r p = (.error (.notCreated p e), [], w) := by
  simp only [save, hopen]

theorem save_of_refusal {error? : Option StoreError} {e : StoreError}
    (hopen : w.openForWriting p = .ok loc) (htext : content r (.ofPath p) = (text, error?))
    (he : refusal? (w.limit? loc) (.ofPath p) (Utf8.encode text).length error? = some e) :
    save w r p = (.error e, [], w.setContent loc (w.accepted loc (Utf8.encode text))) := by
  simp only [save, hopen, htext, he]

theorem saves_of_notTaken {error? : Option StoreError} {limit : Limit}
    (hopen : w.openForWriting p = .ok loc) (htext : content r (.ofPath p) = (text, error?))
    (hlimit : w.limit? loc = some limit)
    (hroom : limit.room < handedOver limit (.ofPath p) (Utf8.encode text).length) :
    Saves w r p (save w r p).1 (save w r p).2.2 := by
  have he : refusal? (w.limit? loc) (.ofPath p) (Utf8.encode text).length error? =
      some (.notTaken (.ofPath p) limit.error) := by
    rw [hlimit]
    exact if_pos hroom
  have hreceived := received_setContent hopen (w.accepted loc (Utf8.encode text))
  rw [save_of_refusal hopen htext he]
  rw [World.accepted_eq_take hlimit] at hreceived ⊢
  exact .notTaken hopen (by rw [htext]) hlimit hroom hreceived

/-- A report that has a complete text is stored if its target takes the text. -/
theorem saves_of_text? (hopen : w.openForWriting p = .ok loc)
    (htext : text? r (.ofPath p) = some text) : Saves w r p (save w r p).1 (save w r p).2.2 := by
  have hcontent := content_of_text? htext
  rcases w.room_cases loc fun _ => (Utf8.encode text).length with htakes | ⟨limit, hlimit, hroom⟩
  · rw [save_eq hopen hcontent htakes]
    exact .complete hopen htext htakes (received_setContent hopen _)
  · rcases Nat.lt_or_ge limit.room (handedOver limit (.ofPath p) (Utf8.encode text).length) with
      hshort | hhanded
    · exact saves_of_notTaken hopen hcontent hlimit hshort
    · have he : refusal? (w.limit? loc) (.ofPath p) (Utf8.encode text).length none =
          some (.notFlushed limit.error) := by
        rw [hlimit]
        simp only [refusal?, if_neg (Nat.not_lt.2 hhanded), Option.isNone_none, Bool.true_and,
          decide_eq_true hroom, if_true]
      have hreceived := received_setContent hopen (w.accepted loc (Utf8.encode text))
      rw [save_of_refusal hopen hcontent he]
      rw [World.accepted_eq_take hlimit] at hreceived ⊢
      exact .notFlushed hopen htext hlimit hhanded hroom hreceived

/-- An error of the report itself is told unless its target refuses a part that comes before. -/
theorem refusal?_of_error {limit? : Option Limit} {length : Nat} (e : StoreError)
    (h : ∀ limit, limit? = some limit → handedOver limit format length ≤ limit.room) :
    refusal? limit? format length (some e) = some e := by
  cases limit? with
  | none => rfl
  | some limit => simp [refusal?, Nat.not_lt.2 (h limit rfl)]

theorem exists_path_of_text?_eq_none (h : text? r format = none) :
    format ≠ .csv ∧ ∃ q ∈ r.paths, q.text? = none := by
  have hsome : ¬ (text? r format).isSome := by simp [h]
  rw [text?_isSome_iff, not_or] at hsome
  simpa using hsome

theorem saves_json (hopen : w.openForWriting p = .ok loc)
    (hformat : ReportFormat.ofPath p = .json) (htext : text? r .json = none) :
    Saves w r p (save w r p).1 (save w r p).2.2 := by
  have hcontent := content_json_of_eq_none htext
  rw [← hformat] at hcontent
  rcases w.room_cases loc fun limit => handedOver limit (.ofPath p)
      (Utf8.encode (Json.pretty 0 r.data).started).length with hhanded | ⟨limit, hlimit, hroom⟩
  · rw [save_of_refusal hopen hcontent (refusal?_of_error _ hhanded)]
    exact .json hopen hformat (exists_path_of_text?_eq_none htext).2 (received_setContent hopen _)
  · exact saves_of_notTaken hopen hcontent hlimit hroom

theorem saves_yaml (hopen : w.openForWriting p = .ok loc)
    (hformat : ReportFormat.ofPath p = .yaml) (htext : text? r .yaml = none) :
    Saves w r p (save w r p).1 (save w r p).2.2 := by
  have hcontent := content_yaml_of_eq_none htext
  rw [← hformat] at hcontent
  have hnothing : w.Takes loc (Utf8.encode "") := fun limit _ => Nat.zero_le limit.room
  rw [save_of_refusal hopen hcontent (refusal?_of_takes hnothing _ _), hnothing.accepted_eq]
  exact .yaml hopen hformat (exists_path_of_text?_eq_none htext).2 (received_setContent hopen [])

theorem saves_save (w : World) (r : StoredRun) (p : Path) :
    Saves w r p (save w r p).1 (save w r p).2.2 := by
  cases hopen : w.openForWriting p with
  | error e =>
      rw [save_of_error hopen]
      exact .refused hopen
  | ok loc =>
      cases htext : text? r (.ofPath p) with
      | some text => exact saves_of_text? hopen htext
      | none =>
          cases hformat : ReportFormat.ofPath p with
          | json => exact saves_json hopen hformat (hformat ▸ htext)
          | yaml => exact saves_yaml hopen hformat (hformat ▸ htext)
          | csv => exact absurd hformat (exists_path_of_text?_eq_none htext).1

/-- A report is stored exactly if its target can be opened, it has a complete text, and the target
takes all of it; then the target holds that text, in the format of the path. A report has a complete
text exactly if it is stored as records or all its paths have texts. If the target cannot be opened,
nothing changes. If it is opened and the report has no complete text, the target is left with the
JSON in front of the first path without text, or with nothing of YAML. A target that does not take
all that is written is left with what it took. -/
theorem save_effect (w : World) (r : StoredRun) (p : Path) :
    Saves w r p (save w r p).1 (save w r p).2.2 ∧
      ((save w r p).1 = .ok (.ofPath p) ↔ ∃ loc text, w.openForWriting p = .ok loc ∧
        text? r (.ofPath p) = some text ∧ w.Takes loc (Utf8.encode text)) ∧
      ((∃ text, text? r (.ofPath p) = some text) ↔
        ReportFormat.ofPath p = .csv ∨ ∀ q ∈ r.paths, q.text?.isSome) := by
  have hsaves := saves_save w r p
  refine ⟨hsaves, ⟨fun hok => ?_, ?_⟩, ?_⟩
  · rw [hok] at hsaves
    cases hsaves with
    | complete hopen htext htakes _ => exact ⟨_, _, hopen, htext, htakes⟩
  · rintro ⟨loc, text, hopen, htext, htakes⟩
    rw [save_eq hopen (content_of_text? htext) htakes]
  · rw [← text?_isSome_iff, Option.isSome_iff_exists]

/-- In `r.yaml` there is an old report. A run with the fixture `/s/\xff` cannot be stored there, and
the old report is gone all the same. -/
theorem save_error_empties_target :
    let o : Outcome := ⟨⟨⟨[47, 115, 47, 255]⟩, ""⟩, .passed, 0, some 0, none, none, none⟩
    let r : StoredRun := ⟨"", ⟨0, 0⟩, ⟨0, 0⟩, ⟨.ofText "/s", .ofText "cc", false, 1, []⟩,
      ⟨"os", "arch", "0.1.0"⟩, ⟨1, 1, 0, 0, 0, [o]⟩⟩
    let p : Path := .ofText "r.yaml"
    let w : World :=
      { files := ⟨[([100], .directory [(p.bytes, .file [111, 108, 100] false)])]⟩
        cwd := some [[100]]
        environment := ⟨[]⟩ }
    (save w r p).1 = .error .yamlNotWritten ∧ w.contentOf p = .ok [111, 108, 100] ∧
      (save w r p).2.2.contentOf p = .ok [] := by
  intro o r p w
  have hopen : w.openForWriting p = .ok [[100], p.bytes] := rfl
  have hextension : p.extension? = some (Utf8.encode "yaml") := by decide
  have hyaml : "yaml".map Char.toLower = "yaml" :=
    String.toList_inj.1 (by rw [String.toList_map]; rfl)
  have hformat := ReportFormat.ofPath_yaml hextension (.inl hyaml)
  have htext : text? r .yaml = none := by
    rw [← Option.not_isSome_iff_eq_none, text?_isSome_iff]
    rintro (hcsv | hpaths)
    · cases hcsv
    · cases hpaths o.fixture.path (by simp [StoredRun.paths, r])
  rw [save_of_refusal hopen (hformat ▸ content_yaml_of_eq_none htext) rfl]
  exact ⟨rfl, rfl, rfl⟩

end Store

end Conformance

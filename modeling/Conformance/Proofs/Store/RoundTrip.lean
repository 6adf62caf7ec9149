import Conformance.Discovery
import Conformance.Proofs.FileSystem.Writing
import Conformance.Proofs.Json.Layout
import Conformance.Proofs.Report.Records
import Conformance.Store

/-!
# Reports stored as JSON

A stored run whose paths have texts is printed as JSON; the bytes of the text
are read as the value that was printed (`readJson?_encode`), since a printed
text holds no zero character and the reader of bytes finds a character that
stands for stray bytes and nothing else (`freshFrom_notMem`). JSON shows report
data for what it is (`view_shows`), and so the run is decoded from its text
(`exists_content_json`). What is saved in a regular file is what is opened there
(`openFile_setContent`), so it is loaded as well (`load_save_json`).
-/

namespace Conformance

namespace Store

variable {text : List Char}

theorem charOfNat_cases (n : Nat) : (Char.ofNat n).toNat = n ∨ Char.ofNat n = '\x00' := by
  by_cases hn : n.isValidChar
  · exact .inl (Utf8.toNat_charOfNat hn)
  · exact .inr (by rw [Char.ofNat, dif_neg hn]; rfl)

/-- The search ends at a character that the text does not hold. -/
theorem freshFrom_notMem (hnul : '\x00' ∉ text) {fuel n : Nat}
    (hfuel : text.countP (fun c => n ≤ c.toNat) ≤ fuel) : freshFrom text fuel n ∉ text := by
  induction fuel generalizing n with
  | zero =>
      rw [freshFrom]
      intro hmem
      rcases charOfNat_cases n with hn | hn
      · have hnot := List.countP_eq_zero.1 (Nat.le_zero.1 hfuel) _ hmem
        simp [hn] at hnot
      · exact hnul (hn ▸ hmem)
  | succ fuel ih =>
      rw [freshFrom]
      split
      next hmem =>
          rw [List.contains_iff_mem] at hmem
          have hn := (charOfNat_cases n).resolve_right fun hn => hnul (hn ▸ hmem)
          -- one character fewer is left to be met from the next number on
          have hlt : text.countP (fun c => n + 1 ≤ c.toNat) <
              text.countP (fun c => n ≤ c.toNat) := by
            refine Discovery.countP_lt_countP ?_ hmem (by simp [hn]) (by simp [hn])
            intro c _ hc
            simp only [decide_eq_true_eq] at hc ⊢
            omega
          exact ih (by omega)
      next hmem => rwa [List.contains_iff_mem] at hmem

theorem readJson?_encode {s : String} {x : Json} (h : Json.Reads s.toList x) :
    readJson? (Utf8.encode s) = some x := by
  have hfresh : freshFrom s.toList s.toList.length 0xE000 ∉ s.toList :=
    freshFrom_notMem h.clean List.countP_le_length
  have hshown : (s.toList.map Utf8.Piece.char).map Utf8.Piece.shown = s.toList := by
    rw [List.map_map]
    exact List.map_id _
  have hread (stray : Char) : (s.toList.map Utf8.Piece.char).map (fun p => p.char?.getD stray) =
      s.toList := by
    rw [List.map_map]
    exact List.map_id _
  simp only [readJson?, Utf8.pieces_encode, hshown, hread]
  refine h.readWith? fun c hc => ?_
  rw [beq_eq_false_iff_ne]
  rintro rfl
  exact hfresh hc

theorem exists_content_json {r : StoredRun} (hpaths : ∀ q ∈ r.paths, q.text?.isSome)
    (hstarted : r.startedAt.isValid = true) (hcompleted : r.completedAt.isValid = true) :
    ∃ text, content r .json = (text, none) ∧
      ∀ p, decode p (Utf8.encode text) .json = .ok r := by
  rw [← r.paths_data] at hpaths
  obtain ⟨text, hprinted, hspells⟩ := Json.exists_pretty 0 r.data hpaths
  rw [r.paths_data] at hpaths
  refine ⟨text, by simp only [content, hprinted], ?_⟩
  intro p
  have hread := StoredRun.read?_data Json.view_shows hpaths hstarted hcompleted
  simp only [decode, readJson?_encode hspells.reads, Option.bind_some, hread]

theorem handedOver_le (limit : Limit) (format : ReportFormat) (length : Nat) :
    handedOver limit format length ≤ length := by
  cases format with
  | json =>
      simp only [handedOver]
      split <;> omega
  | yaml =>
      simp only [handedOver]
      split <;> omega
  | csv => exact Nat.le_refl length

section Files

variable {w : World} {r : StoredRun} {p : Path} {loc : Location} {text : String}

theorem refusal?_of_takes {content : Bytes} (h : w.Takes loc content) (format : ReportFormat)
    (error? : Option StoreError) :
    refusal? (w.limit? loc) format content.length error? = error? := by
  cases hlimit : w.limit? loc with
  | none => rfl
  | some limit =>
      have hroom := h limit hlimit
      have hhanded := Nat.le_trans (handedOver_le limit format content.length) hroom
      simp [refusal?, Nat.not_lt.2 hhanded, Nat.not_lt.2 hroom]

theorem save_eq (hopen : w.openForWriting p = .ok loc)
    (htext : content r (.ofPath p) = (text, none)) (htakes : w.Takes loc (Utf8.encode text)) :
    save w r p =
      (.ok (.ofPath p), [savedEvent r p], w.setContent loc (Utf8.encode text)) := by
  simp only [save, hopen, htext, htakes.accepted_eq, refusal?_of_takes htakes]

theorem openFile_setContent (hopen : w.openForWriting p = .ok loc)
    (hfile : ∀ e, w.files.get? loc = some e → e.isFile = true) (content : Bytes) :
    openFile (w.setContent loc content) p = .ok content := by
  obtain ⟨-, executable, -, hfind⟩ := World.openForWriting_setContent hopen hfile content
  simp only [openFile, hfind]

theorem load_eq {bs : Bytes} (hopen : openFile w p = .ok bs)
    (hdecode : decode p bs (.ofPath p) = .ok r) : (load w p).1 = .ok r := by
  simp only [load, hopen, hdecode]

end Files

/-- A run is decoded from the text that is written for it. Where the text goes to a regular file,
which takes all of it, the run is loaded from there, and the loaded run is saved as the same
text. -/
theorem load_save_json {r : StoredRun} {p : Path} (hformat : ReportFormat.ofPath p = .json)
    (hpaths : ∀ q ∈ r.paths, q.text?.isSome) (hstarted : r.startedAt.isValid = true)
    (hcompleted : r.completedAt.isValid = true) :
    ∃ text, content r (.ofPath p) = (text, none) ∧
      decode p (Utf8.encode text) (.ofPath p) = .ok r ∧
      ∀ w loc, w.openForWriting p = .ok loc → w.Takes loc (Utf8.encode text) →
        ∃ w', save w r p = (.ok .json, [savedEvent r p], w') ∧
          ((∀ e, w.files.get? loc = some e → e.isFile = true) →
            openFile w' p = .ok (Utf8.encode text) ∧ (load w' p).1 = .ok r ∧
            ∃ w'', save w' r p = (.ok .json, [savedEvent r p], w'') ∧
              openFile w'' p = .ok (Utf8.encode text)) := by
  obtain ⟨text, htext, hdecode⟩ := exists_content_json hpaths hstarted hcompleted
  rw [← hformat] at htext hdecode
  refine ⟨text, htext, hdecode p, ?_⟩
  intro w loc hopen htakes
  have hsave := save_eq hopen htext htakes
  rw [hformat] at hsave
  refine ⟨_, hsave, ?_⟩
  intro hfile
  have hread := openFile_setContent hopen hfile (Utf8.encode text)
  obtain ⟨hopen', executable, hthere, -⟩ :=
    World.openForWriting_setContent hopen hfile (Utf8.encode text)
  have hsave' := save_eq hopen' htext (htakes.setContent loc _)
  rw [hformat] at hsave'
  have hfile' : ∀ e, (w.setContent loc (Utf8.encode text)).files.get? loc = some e →
      e.isFile = true := by
    intro e he
    cases hthere.symm.trans he
    rfl
  refine ⟨hread, load_eq hread (hdecode p), _, hsave', ?_⟩
  exact openFile_setContent hopen' hfile' (Utf8.encode text)

/-- Quotes, control characters and a character outside the basic plane, a leap second before the
year 0 and one with a fraction, a present and an absent exit code, and a file without extension. -/
theorem load_save_json_special_text :
    let o : Outcome := ⟨⟨.ofText "/s/é\"\\", "a\x00\n"⟩, .failed, 18446744073709551615,
      some (-2147483648), some "\x7f𝄞\u2028", some "", some .nonZeroExit⟩
    let r : StoredRun := ⟨"id\t", ⟨-62198755201, 1000000000⟩, ⟨1483228799, 1500000000⟩,
      ⟨.ofText "/s", .ofText "cc", true, 0, ["", "\""]⟩, ⟨"os", "arch", "0.1.0"⟩,
      ⟨1, 0, 0, 1, 7, [o, { o with exitCode := none }]⟩⟩
    let w : World :=
      { files := ⟨[([100], .directory [])]⟩, cwd := some [[100]], environment := ⟨[]⟩ }
    let p : Path := ⟨[111, 117, 116]⟩
    ∃ text w', content r .json = (text, none) ∧ save w r p = (.ok .json, [savedEvent r p], w') ∧
      openFile w' p = .ok (Utf8.encode text) ∧ (load w' p).1 = .ok r := by
  intro o r w p
  have hformat : ReportFormat.ofPath p = .json := by decide
  have hpaths : ∀ q ∈ r.paths, q.text?.isSome := by
    simp [StoredRun.paths, r, o, Path.text?, Path.ofText, Utf8.decode?_encode]
  have hopen : w.openForWriting p = .ok [[100], [111, 117, 116]] := rfl
  have hnone : w.files.get? [[100], [111, 117, 116]] = none := rfl
  obtain ⟨text, htext, -, hstore⟩ :=
    load_save_json hformat hpaths (by decide) (by decide)
  obtain ⟨w', hsave, hfile⟩ := hstore w _ hopen (World.takes_of_eq_none rfl)
  obtain ⟨hread, hload, -⟩ := hfile (by simp [hnone])
  exact ⟨text, w', hformat ▸ htext, hsave, hread, hload⟩

end Store

end Conformance

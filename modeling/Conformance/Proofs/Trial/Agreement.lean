import Conformance.Proofs.Trial.Accounting
import Mathlib.Data.List.Infix

/-!
# Trials against a run in order

If nothing else is asked for, the trials of fixtures pass, fail and are ignored
as a run in order counts them (`run_of_no_options`), and the harness fails
exactly if that run does.

A filter of the harness is looked for in the listed names of trials, a pattern of
a run in order in the identifiers alone. The two select the same fixtures, and
hand the same paths to the compiler, unless the pattern can start in the kind
that stands in front of the identifier (`filter_agrees_iff`).
-/

namespace Conformance

/-- The fate of a fixture whose outcome has a status, if nothing is asked for. -/
def Status.fate : Status → Trial.Fate
  | .passed => .passed
  | .failed => .failed
  | .skipped => .ignored

theorem Status.fate_inj {s t : Status} : s.fate = t.fate ↔ s = t := by
  cases s <;> cases t <;> decide

namespace Trial

variable {respond : Path → Response} {p : String}

theorem selected_of_no_options (f : Fixture) : Selected {} f := ⟨nofun, nofun, nofun⟩

theorem map_fate_of_verdicts {seen : List Path} {fixtures : List Fixture}
    {outcomes : List Outcome}
    (h : Runner.Verdicts (Runner.turns (.recording respond) seen fixtures) outcomes) :
    fixtures.map (fun f => fate {} f (respond f.path)) = outcomes.map fun o => o.status.fate := by
  induction fixtures generalizing seen outcomes with
  | nil =>
      cases h
      rfl
  | cons f fixtures ih =>
      cases h with
      | @cons _ o _ outcomes hjudge hrest =>
          have hstatus := (Runner.judged_of_judge hjudge).status_eq
          have hanswer : (Compiler.recording respond seen f.path).1 = respond f.path := rfl
          rw [List.map_cons, List.map_cons, ih hrest, hstatus, hanswer]
          simp only [fate, forced, selected_of_no_options f, Bool.or_self, Bool.false_and,
            Bool.false_eq_true, not_true, if_false]
          split_ifs
          · rfl
          · rfl
          · rfl

theorem count_map_fate (status : Status) (outcomes : List Outcome) :
    (outcomes.map fun o => o.status.fate).count status.fate = Summary.countOf status outcomes := by
  rw [List.count, List.countP_map, Summary.countOf]
  refine List.countP_congr fun o _ => ?_
  simp [Status.fate_inj]

theorem hasFailed_tally_iff (outcomes : List Outcome) :
    (tally (outcomes.map fun o => o.status.fate)).hasFailed = true ↔
      ∃ o ∈ outcomes, o.status = .failed := by
  have hcount : (tally (outcomes.map fun o => o.status.fate)).failed =
      Summary.countOf .failed outcomes := count_map_fate .failed outcomes
  rw [Conclusion.hasFailed, decide_eq_true_eq, hcount, Summary.countOf, List.countP_pos_iff]
  simp

theorem tally_eq_withDuration {outcomes : List Outcome} (duration : UInt64)
    (h : outcomes.length < UInt64.size) :
    let c := tally (outcomes.map fun o => o.status.fate)
    let s := Summary.withDuration outcomes duration
    c.passed = s.passed.toNat ∧ c.failed = s.failed.toNat ∧ c.ignored = s.skipped.toNat ∧
      (c.hasFailed = true ↔ s.exitCode = 1) := by
  refine ⟨?_, ?_, ?_, ?_⟩
  · exact (count_map_fate .passed outcomes).trans (Summary.toNat_ofNat_countOf h).symm
  · exact (count_map_fate .failed outcomes).trans (Summary.toNat_ofNat_countOf h).symm
  · exact (count_map_fate .skipped outcomes).trans (Summary.toNat_ofNat_countOf h).symm
  · have hzero := Summary.exitCode_eq_zero_iff duration h
    rw [hasFailed_tally_iff]
    constructor
    · rintro ⟨o, ho, hfailed⟩
      exact Summary.exitCode_eq_one_of_ne_zero fun hexit => hzero.1 hexit o ho hfailed
    · intro hone
      by_contra hnone
      have hexit := hzero.2 fun o ho hfailed => hnone ⟨o, ho, hfailed⟩
      rw [hone] at hexit
      cases hexit

/-- The trials of a run for which nothing is asked end as a run in order does. -/
theorem run_of_no_options (hcalm : ∀ p message, (respond p).reply ≠ .fault message) (wallMs : Nat)
    (fixtures : List Fixture) :
    ∃ outcomes log,
      (Runner.runEach (.recording respond) [] fixtures).1 = .ok (outcomes, log) ∧
      (run {} (.recording respond) [] fixtures).1 =
        tally (outcomes.map fun o => o.status.fate) ∧
      outcomes.length = fixtures.length ∧
      (Summary.DurationsFit outcomes → ∃ duration log,
        (Runner.runAll (.recording respond) [] wallMs fixtures).1 =
          .ok (.withDuration outcomes duration, log)) := by
  have hsteady : (Compiler.recording respond).Steady := fun _ => hcalm
  obtain ⟨outcomes, log, hruns, hverdicts⟩ := Runner.runEach_of_steady (hsteady.on fixtures) []
  refine ⟨outcomes, log, by rw [hruns], ?_, ?_, ?_⟩
  · rw [run_fst, map_fate_of_verdicts hverdicts]
  · have hlength := congrArg List.length hverdicts.map_fixture
    rwa [Runner.map_fixture_turns, List.length_map] at hlength
  · intro hfit
    obtain ⟨duration, hsummary, -⟩ := Summary.ofOutcomes_of_fit hfit
    have hrun := Runner.runAll_of_runEach wallMs hruns
    rw [hsummary] at hrun
    exact ⟨duration, Runner.exists_of_map_fst_eq_ok hrun⟩

theorem stateAfter_recording (respond : Path → Response) (seen ps : List Path) :
    (Compiler.recording respond).stateAfter seen ps = seen ++ ps := by
  induction ps generalizing seen with
  | nil => exact (List.append_nil seen).symm
  | cons q ps ih =>
      rw [Compiler.stateAfter]
      exact (ih (seen ++ [q])).trans (by simp)

/-- A run in order hands over the fixtures that are not disabled. -/
theorem runAll_seen (hcalm : ∀ p message, (respond p).reply ≠ .fault message) (wallMs : Nat)
    (fixtures : List Fixture) :
    (Runner.runAll (.recording respond) [] wallMs fixtures).2 = Runner.handed fixtures := by
  have hsteady : (Compiler.recording respond).Steady := fun _ => hcalm
  obtain ⟨outcomes, log, hruns, -⟩ := Runner.runEach_of_steady (hsteady.on fixtures) []
  rw [stateAfter_recording, List.nil_append] at hruns
  simp only [Runner.runAll, hruns]

/-- A pattern that can be found at a place within the kind in front of an identifier: a part of the
kind up to its end is the start of the pattern, or the pattern is the start of such a part. -/
def StartsInKind (p : String) : Prop :=
  p.toList ≠ [] ∧ ∃ t, t ≠ [] ∧ t <:+ kindMark ∧ (p.toList <+: t ∨ t <+: p.toList)

instance (p : String) : Decidable (StartsInKind p) :=
  decidable_of_iff (p.toList ≠ [] ∧
      ∃ t ∈ kindMark.tails, t ≠ [] ∧ (p.toList <+: t ∨ t <+: p.toList)) <| by
    simp only [List.mem_tails, StartsInKind, and_left_comm]

/-- A pattern is found behind the front part of a list, or starts in it. -/
theorem infix_append_iff {α : Type} {xs front back : List α} :
    xs <:+: front ++ back ↔ xs <:+: back ∨ ∃ t, t ≠ [] ∧ t <:+ front ∧ xs <+: t ++ back := by
  induction front with
  | nil =>
      simp only [List.nil_append, List.suffix_nil]
      refine ⟨.inl, ?_⟩
      rintro (h | ⟨t, hne, rfl, -⟩)
      · exact h
      · exact absurd rfl hne
  | cons x front ih =>
      rw [List.cons_append, List.infix_cons_iff, ih]
      constructor
      · rintro (h | h | ⟨t, hne, ht, h⟩)
        · exact .inr ⟨x :: front, by simp, List.suffix_refl _, h⟩
        · exact .inl h
        · exact .inr ⟨t, hne, List.suffix_cons_iff.2 (.inr ht), h⟩
      · rintro (h | ⟨t, hne, ht, h⟩)
        · exact .inr (.inl h)
        · rcases List.suffix_cons_iff.1 ht with rfl | ht
          · exact .inl h
          · exact .inr (.inr ⟨t, hne, ht, h⟩)

/-- A pattern that does not start in the kind is found in the identifier or not at all. -/
theorem matches_iff_of_not_startsInKind (h : ¬ StartsInKind p) (f : Fixture) :
    Matches false p f ↔ Fixture.isSelected [p] f = true := by
  have hselected : Fixture.isSelected [p] f = true ↔ p.toList <:+: f.id.toList := by
    simp [Fixture.isSelected, Split.occursIn_iff]
  rw [hselected, Matches, if_neg (by simp), infix_append_iff]
  refine ⟨?_, .inl⟩
  rintro (hmatch | ⟨t, hne, ht, hprefix⟩)
  · exact hmatch
  · by_cases hempty : p.toList = []
    · rw [hempty]
      exact List.nil_infix
    · refine absurd ⟨hempty, t, hne, ht, ?_⟩ h
      exact List.prefix_or_prefix_of_prefix hprefix (List.prefix_append t _)

/-- A pattern that starts in the kind selects a trial of some fixture, in whose identifier it is not
found. -/
theorem exists_matches_of_startsInKind (h : StartsInKind p) :
    ∃ xs, p.toList <:+: kindMark ++ xs ∧ ¬ p.toList <:+: xs := by
  obtain ⟨hne, t, htne, ht, hprefix | ⟨xs, hxs⟩⟩ := h
  · refine ⟨[], ?_, by simpa using hne⟩
    rw [List.append_nil]
    exact hprefix.isInfix.trans ht.isInfix
  · refine ⟨xs, ?_, ?_⟩
    · exact infix_append_iff.2 (.inr ⟨t, htne, ht, hxs ▸ List.prefix_refl _⟩)
    · intro hmatch
      have hlength := hmatch.length_le
      rw [← hxs, List.length_append] at hlength
      exact htne (List.length_eq_zero_iff.1 (by omega))

theorem isHanded_filter_iff (p : String) (f : Fixture) :
    isHanded { filter := some p } f = true ↔ f.isSkipped = false ∧ Matches false p f := by
  have hselected : Selected { filter := some p } f ↔ Matches false p f := by
    refine ⟨fun h => h.named p rfl, fun h => ⟨?_, nofun, nofun⟩⟩
    rintro q ⟨⟩
    exact h
  simp [isHanded, hselected]

/-- A filter of the harness hands over what the same pattern of a run in order does, whatever the
fixtures are, exactly if the pattern does not start in the kind. -/
theorem filter_agrees_iff (hcalm : ∀ p message, (respond p).reply ≠ .fault message) (p : String) :
    (∀ wallMs fixtures,
      (run { filter := some p } (.recording respond) [] fixtures).2.2 =
        (Runner.runAll (.recording respond) [] wallMs (Fixture.select [p] fixtures)).2) ↔
      ¬ StartsInKind p := by
  simp only [run_seen, runAll_seen hcalm]
  constructor
  · intro hsame hstarts
    obtain ⟨xs, hmatch, hnot⟩ := exists_matches_of_startsInKind hstarts
    -- an enabled fixture with such an identifier is handed over by the harness alone
    let f : Fixture := ⟨.ofText "a", String.ofList xs⟩
    have hf : f.isSkipped = false := by
      change Fixture.isSkipped ⟨.ofText "a", ""⟩ = false
      decide +kernel
    have hhanded : isHanded { filter := some p } f = true := by
      rw [isHanded_filter_iff, Matches, if_neg (by simp), String.toList_ofList]
      exact ⟨hf, hmatch⟩
    have hselect : Fixture.select [p] [f] = [] := by
      simp [Fixture.select, Fixture.isSelected, Split.occursIn_iff, f, hnot]
    have hpaths := hsame 0 [f]
    rw [hselect] at hpaths
    simp [hhanded, Runner.handed] at hpaths
  · intro hstarts _ fixtures
    have hfilter : ∀ f ∈ fixtures, isHanded { filter := some p } f =
        (!f.isSkipped && Fixture.isSelected [p] f) := by
      intro f _
      rw [Bool.eq_iff_iff, isHanded_filter_iff, matches_iff_of_not_startsInKind hstarts]
      simp
    rw [Runner.handed, Fixture.select, List.filter_filter, List.filter_congr hfilter]

/-- The trials of fixtures against a run in order, for a compiler that answers by the path alone.

Whatever the harness is asked for, the compiler is handed exactly the fixtures that are neither
disabled nor filtered out, in order, and these alone pass or fail, by its answers; together with the
ignored and the filtered out ones, and the disabled ones that are left out if ignored trials are to
be run, they are all fixtures.

If nothing is asked for and the compiler does not give up, the counts are those of a run in order,
and the harness fails exactly if that run has the exit code one. With nothing but a filter, the
compiler is handed what a run in order over the fixtures with that pattern hands to it, unless the
pattern starts in the kind that trials are listed with. -/
theorem run_agrees_with_runner (respond : Path → Response) :
    (∀ options fixtures,
      let r := run options (.recording respond) [] fixtures
      r.2.2 = (fixtures.filter fun f => !f.isSkipped && Selected options f).map (·.path) ∧
      r.1.passed = fixtures.countP (fun f =>
        (!f.isSkipped && Selected options f) ∧ (respond f.path).reply.isAcceptance = true) ∧
      r.1.failed = fixtures.countP (fun f =>
        (!f.isSkipped && Selected options f) ∧ (respond f.path).reply.isAcceptance = false) ∧
      r.1.passed + r.1.failed + r.1.ignored + r.1.filteredOut +
        fixtures.countP (fun f => (options.ignored || options.includeIgnored) && f.isSkipped) =
          fixtures.length) ∧
    ((∀ p message, (respond p).reply ≠ .fault message) →
      (∀ wallMs fixtures, ∃ outcomes log,
        (Runner.runEach (.recording respond) [] fixtures).1 = .ok (outcomes, log) ∧
        (Summary.DurationsFit outcomes → fixtures.length < UInt64.size →
          ∃ summary log,
            (Runner.runAll (.recording respond) [] wallMs fixtures).1 = .ok (summary, log) ∧
            let c := (run {} (.recording respond) [] fixtures).1
            c.passed = summary.passed.toNat ∧ c.failed = summary.failed.toNat ∧
              c.ignored = summary.skipped.toNat ∧
              (c.hasFailed = true ↔ summary.exitCode = 1))) ∧
      ∀ p,
        (∀ wallMs fixtures,
          (run { filter := some p } (.recording respond) [] fixtures).2.2 =
            (Runner.runAll (.recording respond) [] wallMs (Fixture.select [p] fixtures)).2) ↔
          ¬ StartsInKind p) := by
  refine ⟨fun options fixtures => ?_, fun hcalm => ⟨fun wallMs fixtures => ?_, ?_⟩⟩
  · have hall := tally_add_leftOut (fixtures.map fun f => fate options f (respond f.path))
    rw [List.length_map, count_fate] at hall
    simp only [run_fst, run_seen]
    refine ⟨rfl, ?_, ?_, ?_⟩
    · refine (count_fate .passed options respond fixtures).trans (List.countP_congr fun f _ => ?_)
      simp [fate_eq_passed_iff, isHanded]
    · refine (count_fate .failed options respond fixtures).trans (List.countP_congr fun f _ => ?_)
      simp [fate_eq_failed_iff, isHanded]
    · rw [← hall]
      congr 1
      refine List.countP_congr fun f _ => ?_
      simp [fate_eq_leftOut_iff, forced]
  · obtain ⟨outcomes, log, hruns, hcounts, hlength, hrun⟩ :=
      run_of_no_options hcalm wallMs fixtures
    refine ⟨outcomes, log, hruns, fun hfit hsize => ?_⟩
    obtain ⟨duration, told, htold⟩ := hrun hfit
    refine ⟨_, told, htold, ?_⟩
    rw [hcounts]
    exact tally_eq_withDuration duration (hlength ▸ hsize)
  · exact filter_agrees_iff hcalm

/-- A disabled fixture between one that is accepted and one that is not, and a pattern that does not
start in the kind. -/
theorem run_agrees_with_runner_refused :
    let respond : Path → Response := fun p =>
      .ofReply (.exited (some (if p = .ofText "c.flang" then 1 else 0)) "")
    let fixtures : List Fixture := [⟨.ofText "a.flang", "a.flang"⟩,
      ⟨.ofText "b.skip.flang", "b.skip.flang"⟩, ⟨.ofText "c.flang", "c.flang"⟩]
    (∀ p message, (respond p).reply ≠ .fault message) ∧ ¬ StartsInKind "c." ∧
      (run { filter := some "c." } (.recording respond) [] fixtures).2.2 =
        (Runner.runAll (.recording respond) [] 0 (Fixture.select ["c."] fixtures)).2 := by
  intro respond fixtures
  have hcalm : ∀ p message, (respond p).reply ≠ .fault message := nofun
  have hstarts : ¬ StartsInKind "c." := by decide +kernel
  exact ⟨hcalm, hstarts, (((run_agrees_with_runner respond).2 hcalm).2 "c.").2 hstarts 0 fixtures⟩

/-- The filter `exec` is the kind of every trial: the harness hands over a fixture that a run in
order with the same pattern does not. -/
theorem run_filter_finds_kind :
    let respond : Path → Response := fun _ => .ofReply (.exited (some 0) "")
    let f : Fixture := ⟨.ofText "/suite/a.flang", "a.flang"⟩
    (run { filter := some "exec" } (.recording respond) [] [f]).2.2 = [f.path] ∧
      (Runner.runAll (.recording respond) [] 0 (Fixture.select ["exec"] [f])).2 = [] := by
  decide +kernel

end Trial

end Conformance

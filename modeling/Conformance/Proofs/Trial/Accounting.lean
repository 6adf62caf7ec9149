import Conformance.Proofs.Runner.Sequence
import Conformance.Trial
import Mathlib.Tactic.SplitIfs

/-!
# What becomes of every fixture in a test harness

Turned into trials, each fixture has one fate (`fate`): it is left out, filtered
out, ignored, passed or failed. A run of the trials counts the fates
(`runAll_ofFixtures`) and hands to the compiler the fixtures that passed or
failed, in order. So nothing is lost, and a disabled fixture neither passes nor
fails, whatever the harness was asked for. Patterns are looked for in the name
that a trial is listed under, which starts with its kind (`Matches`).
-/

namespace Conformance

theorem Runner.Judged.status_eq {f : Fixture} {r : Response} {o : Outcome} (h : Judged f r o) :
    o.status = if f.isSkipped then .skipped else if r.reply.isAcceptance then .passed
      else .failed := by
  cases h with
  | skipped hf => simp [hf, Outcome.skipped]
  | passed hf hr => simp [hf, hr, Outcome.passed, Reply.isAcceptance]
  | @failed code output hf hr hcode =>
      cases code <;> simp_all [Outcome.failed, Reply.isAcceptance]
  | notStarted hf hr => simp [hf, hr, Outcome.spawnError, Reply.isAcceptance]
  | lost hf hr => simp [hf, hr, Outcome.captureError, Reply.isAcceptance]

namespace Trial

/-- What stands in front of the identifier in the name that a trial is listed under. -/
def kindMark : List Char := ['[', 'e', 'x', 'e', 'c', ']', ' ']

/-- A pattern matches a fixture: it is contained in its listed name, or, if patterns match whole
names, it is that name or the identifier. -/
def Matches (exact : Bool) (p : String) (f : Fixture) : Prop :=
  if exact then p.toList = f.id.toList ∨ p.toList = kindMark ++ f.id.toList
  else p.toList <:+: kindMark ++ f.id.toList

structure Selected (options : TrialOptions) (f : Fixture) : Prop where
  named : ∀ p, options.filter = some p → Matches options.exact p f
  spared : ∀ p ∈ options.skip, ¬ Matches options.exact p f
  wanted : options.ignored = true → f.isSkipped = true

variable {options : TrialOptions} {f : Fixture} {exact : Bool} {p : String}

theorem toList_listedName (t : Trial) : t.listedName.toList = kindMark ++ t.fixture.id.toList := by
  simp [listedName, trialKind, name, kindMark]

theorem isMatched_iff {ignored : Bool} :
    isMatched exact p ⟨f, ignored⟩ = true ↔ Matches exact p f := by
  cases exact with
  | true => simp [isMatched, Matches, ← String.toList_inj, toList_listedName, name]
  | false => simp [isMatched, Matches, Split.occursIn_iff, toList_listedName]

theorem isFilteredOut_eq_false_iff :
    isFilteredOut options ⟨f, f.isSkipped⟩ = false ↔ Selected options f := by
  simp only [isFilteredOut, Bool.or_eq_false_iff, Option.any_eq_false, List.any_eq_false,
    Bool.and_eq_false_iff, Bool.not_eq_eq_eq_not, Bool.not_false, isMatched_iff]
  constructor
  · rintro ⟨⟨hnamed, hspared⟩, hwanted⟩
    refine ⟨hnamed, hspared, fun hignored => hwanted.resolve_left ?_⟩
    rw [hignored]
    nofun
  · rintro ⟨hnamed, hspared, hwanted⟩
    refine ⟨⟨hnamed, hspared⟩, ?_⟩
    cases hignored : options.ignored with
    | true => exact .inr (hwanted hignored)
    | false => exact .inl rfl

instance (options : TrialOptions) (f : Fixture) : Decidable (Selected options f) :=
  decidable_of_iff _ isFilteredOut_eq_false_iff

/-- What becomes of a fixture. -/
inductive Fate where
  /-- It is disabled, and no trial is made of it since ignored trials are to be run. -/
  | leftOut
  | filteredOut
  | ignored
  | passed
  | failed
deriving DecidableEq

/-- The fate of a fixture that is answered by `r` if it is handed to the compiler. -/
def fate (options : TrialOptions) (f : Fixture) (r : Response) : Fate :=
  if forced options && f.isSkipped then .leftOut
  else if ¬ Selected options f then .filteredOut
  else if f.isSkipped then .ignored
  else if r.reply.isAcceptance then .passed
  else .failed

def isHanded (options : TrialOptions) (f : Fixture) : Bool := !f.isSkipped && Selected options f

def tally (fates : List Fate) : Conclusion where
  filteredOut := fates.count .filteredOut
  passed := fates.count .passed
  failed := fates.count .failed
  ignored := fates.count .ignored

/-- Every fate is counted, apart from that of fixtures that are left out. -/
theorem tally_add_leftOut (fates : List Fate) :
    (tally fates).passed + (tally fates).failed + (tally fates).ignored +
      (tally fates).filteredOut + fates.count .leftOut = fates.length := by
  induction fates with
  | nil => rfl
  | cons x fates ih =>
      simp only [tally, List.count_cons, List.length_cons] at ih ⊢
      cases x <;> simp <;> omega

section Runs

variable {respond : Path → Response}

/-- The result of a fixture that is not disabled is a success exactly if the compiler accepted it. A
fault is none. -/
theorem isAcceptance_of_runFixture (respond : Path → Response) (hf : f.isSkipped = false)
    (seen : List Path) :
    match (Runner.runFixture (.recording respond) seen f).1 with
    | .ok (o, _) => o.status.isSuccess = (respond f.path).reply.isAcceptance
    | .error _ => (respond f.path).reply.isAcceptance = false := by
  have hresult : _ = Runner.judge f (respond f.path) :=
    Runner.runFixture_fst (.recording respond) seen f
  cases hrun : (Runner.runFixture (.recording respond) seen f).1 with
  | ok result =>
      rw [hrun] at hresult
      have hstatus := (Runner.judged_of_judge hresult.symm).status_eq
      rw [hf] at hstatus
      cases haccept : (respond f.path).reply.isAcceptance with
      | true => simp [hstatus, haccept, Status.isSuccess]
      | false => simp [hstatus, haccept, Status.isSuccess]
  | error e =>
      rw [hrun] at hresult
      by_contra haccept
      have hcalm : ∀ message, (respond f.path).reply ≠ .fault message := by
        intro message hfault
        rw [hfault] at haccept
        exact haccept rfl
      obtain ⟨o, ho⟩ := Runner.judge_of_not_fault (.inr hcalm)
      rw [ho] at hresult
      cases hresult

/-- A trial that is run passes or fails by the answer to its fixture. -/
theorem runAll_cons_of_isHanded (respond : Path → Response) (h : isHanded options f = true)
    (seen : List Path) (ts : List Trial) :
    let r := runAll options (.recording respond) (seen ++ [f.path]) ts
    let s := runAll options (.recording respond) seen (⟨f, f.isSkipped⟩ :: ts)
    s.1 = (if (respond f.path).reply.isAcceptance then { r.1 with passed := r.1.passed + 1 }
      else { r.1 with failed := r.1.failed + 1 }) ∧ s.2.2 = r.2.2 := by
  simp only [isHanded, Bool.and_eq_true, Bool.not_eq_true', decide_eq_true_eq] at h
  obtain ⟨hf, hselected⟩ := h
  have hkept := isFilteredOut_eq_false_iff.2 hselected
  have hsuccess := isAcceptance_of_runFixture respond hf seen
  have hstate : (Runner.runFixture (.recording respond) seen f).2 = seen ++ [f.path] := by
    rw [Runner.runFixture_snd, Runner.handed_of_not_skipped hf]
    rfl
  rw [hf] at hkept ⊢
  simp only [runAll, hkept, Bool.false_and, Bool.false_eq_true, if_false, hstate]
  cases hrun : (Runner.runFixture (.recording respond) seen f).1 with
  | ok result =>
      rw [hrun] at hsuccess
      simp only [hsuccess]
      split
      · exact ⟨rfl, rfl⟩
      · exact ⟨rfl, rfl⟩
  | error e =>
      rw [hrun] at hsuccess
      simp [hsuccess]

theorem ofFixtures_cons_of_leftOut (h : (forced options && f.isSkipped) = true)
    (fixtures : List Fixture) :
    ofFixtures options (f :: fixtures) = ofFixtures options fixtures := by
  rw [ofFixtures, List.filter_cons_of_neg (by simp [h]), ofFixtures]

theorem ofFixtures_cons_of_not_leftOut (h : (forced options && f.isSkipped) = false)
    (fixtures : List Fixture) :
    ofFixtures options (f :: fixtures) = ⟨f, f.isSkipped⟩ :: ofFixtures options fixtures := by
  rw [ofFixtures, List.filter_cons_of_pos (by simp [h]), List.map_cons, ofFixtures]

/-- A run of the trials of fixtures counts their fates, and hands over those that are run, in
order. -/
theorem runAll_ofFixtures (options : TrialOptions) (respond : Path → Response) (seen : List Path)
    (fixtures : List Fixture) :
    let r := runAll options (.recording respond) seen (ofFixtures options fixtures)
    r.1 = tally (fixtures.map fun f => fate options f (respond f.path)) ∧
      r.2.2 = seen ++ (fixtures.filter (isHanded options)).map (·.path) := by
  induction fixtures generalizing seen with
  | nil => simp [ofFixtures, runAll, tally]
  | cons f fixtures ih =>
      obtain ⟨hcounts, hseen⟩ := ih seen
      cases hleft : forced options && f.isSkipped with
      | true =>
          have hf : f.isSkipped = true := (Bool.and_eq_true_iff.1 hleft).2
          have hfate : fate options f (respond f.path) = .leftOut := by rw [fate, if_pos hleft]
          simp only [ofFixtures_cons_of_leftOut hleft, hcounts, hseen]
          simp [hfate, isHanded, hf, tally]
      | false =>
          rw [ofFixtures_cons_of_not_leftOut hleft]
          by_cases hselected : Selected options f
          · have hkept := isFilteredOut_eq_false_iff.2 hselected
            cases hf : f.isSkipped with
            | true =>
                have hforced : forced options = false := by simpa [hf] using hleft
                have hfate : fate options f (respond f.path) = .ignored := by
                  simp [fate, hforced, hselected, hf]
                rw [hf] at hkept
                simp only [runAll, hkept, hforced, hcounts, hseen]
                simp [hfate, isHanded, hf, tally]
            | false =>
                have hhanded : isHanded options f = true := by simp [isHanded, hf, hselected]
                obtain ⟨hcount, hstate⟩ :=
                  runAll_cons_of_isHanded respond hhanded seen (ofFixtures options fixtures)
                obtain ⟨hcounts, hseen⟩ := ih (seen ++ [f.path])
                rw [hf] at hcount hstate
                simp only [hcount, hstate, hcounts, hseen]
                refine ⟨?_, by simp [hhanded]⟩
                have hfate : fate options f (respond f.path) =
                    if (respond f.path).reply.isAcceptance then .passed else .failed := by
                  simp [fate, hf, hselected]
                rw [List.map_cons, hfate]
                split
                · simp [tally]
                · simp [tally]
          · have hout : isFilteredOut options ⟨f, f.isSkipped⟩ = true := by
              rw [← Bool.not_eq_false, isFilteredOut_eq_false_iff]
              exact hselected
            have hfate : fate options f (respond f.path) = .filteredOut := by
              rw [fate, hleft, if_neg (by simp), if_pos hselected]
            simp only [runAll, hout, hcounts, hseen]
            simp [hfate, hselected, isHanded, tally]

theorem run_fst (options : TrialOptions) (respond : Path → Response) (fixtures : List Fixture) :
    (run options (.recording respond) [] fixtures).1 =
      tally (fixtures.map fun f => fate options f (respond f.path)) :=
  (runAll_ofFixtures options respond [] fixtures).1

theorem run_seen (options : TrialOptions) (respond : Path → Response) (fixtures : List Fixture) :
    (run options (.recording respond) [] fixtures).2.2 =
      (fixtures.filter (isHanded options)).map (·.path) :=
  (runAll_ofFixtures options respond [] fixtures).2

end Runs

section Fates

variable {r : Response}

theorem fate_eq_leftOut_iff :
    fate options f r = .leftOut ↔ (forced options && f.isSkipped) = true := by
  unfold fate
  split_ifs <;> simp_all

theorem fate_eq_passed_iff :
    fate options f r = .passed ↔ isHanded options f = true ∧ r.reply.isAcceptance = true := by
  unfold fate isHanded
  split_ifs <;> simp_all

theorem fate_eq_failed_iff :
    fate options f r = .failed ↔ isHanded options f = true ∧ r.reply.isAcceptance = false := by
  unfold fate isHanded
  split_ifs <;> simp_all

theorem count_fate (x : Fate) (options : TrialOptions) (respond : Path → Response)
    (fixtures : List Fixture) :
    (fixtures.map fun f => fate options f (respond f.path)).count x =
      fixtures.countP fun f => fate options f (respond f.path) = x := by
  rw [List.count, List.countP_map]
  refine List.countP_congr fun f _ => ?_
  simp

end Fates

end Trial

end Conformance

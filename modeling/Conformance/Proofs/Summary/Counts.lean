import Conformance.Proofs.Outcome.Coherence
import Conformance.Output.Format
import Mathlib.Algebra.GroupWithZero.Nat

/-!
# Counts and durations of a summary

A summary is made unless the durations of its outcomes do not fit a machine word
together (`Summary.DurationsFit`). The counts are taken from the statuses alone,
so outcomes that differ in their durations only are counted alike, and their
summaries say the same (`Summary.Alike`). As long as the number of outcomes fits
a machine word, the exit code is zero exactly if nothing failed, and the summary
can be printed in every format.
-/

namespace Conformance

theorem addWords_of_lt {a b : UInt64} (h : a.toNat + b.toNat < UInt64.size) :
    addWords a b = .ok (a + b) ∧ (a + b).toNat = a.toNat + b.toNat := by
  refine ⟨if_pos h, ?_⟩
  rw [UInt64.toNat_add]
  exact Nat.mod_eq_of_lt h

theorem sumWords_of_lt {total : UInt64} {ws : List UInt64}
    (h : total.toNat + (ws.map UInt64.toNat).sum < UInt64.size) :
    ∃ sum, sumWords total ws = .ok sum ∧
      sum.toNat = total.toNat + (ws.map UInt64.toNat).sum := by
  induction ws generalizing total with
  | nil => exact ⟨total, rfl, by simp⟩
  | cons w ws ih =>
      simp only [List.map_cons, List.sum_cons] at h ⊢
      obtain ⟨hadd, hnat⟩ := addWords_of_lt (a := total) (b := w) (by omega)
      have hrest : (total + w).toNat + (ws.map UInt64.toNat).sum < UInt64.size := by omega
      obtain ⟨sum, hsum, htotal⟩ := ih hrest
      refine ⟨sum, ?_, by omega⟩
      simp only [sumWords, hadd, hsum]

theorem sumWords_of_le {total : UInt64} {ws : List UInt64}
    (h : UInt64.size ≤ total.toNat + (ws.map UInt64.toNat).sum) :
    sumWords total ws = .error .addOverflow := by
  induction ws generalizing total with
  | nil =>
      have hlt := total.toNat_lt
      simp only [List.map_nil, List.sum_nil, UInt64.size] at h
      omega
  | cons w ws ih =>
      simp only [List.map_cons, List.sum_cons] at h
      by_cases hw : total.toNat + w.toNat < UInt64.size
      · obtain ⟨hadd, hnat⟩ := addWords_of_lt hw
        simp only [sumWords, hadd]
        exact ih (by omega)
      · simp only [sumWords, addWords, if_neg hw]

namespace Summary

/-- The durations of the outcomes fit a machine word together. -/
def DurationsFit (outcomes : List Outcome) : Prop :=
  (outcomes.map fun o => o.durationMs.toNat).sum < UInt64.size

/-- The summary of outcomes with a total duration. -/
def withDuration (outcomes : List Outcome) (duration : UInt64) : Summary :=
  { total := .ofNat outcomes.length
    passed := .ofNat (countOf .passed outcomes)
    skipped := .ofNat (countOf .skipped outcomes)
    failed := .ofNat (countOf .failed outcomes)
    totalDurationMs := duration
    outcomes }

theorem ofOutcomes_of_fit {outcomes : List Outcome} (h : DurationsFit outcomes) :
    ∃ duration, ofOutcomes outcomes = .ok (withDuration outcomes duration) ∧
      duration.toNat = (outcomes.map fun o => o.durationMs.toNat).sum := by
  have hsum : (0 : UInt64).toNat +
      ((outcomes.map (·.durationMs)).map UInt64.toNat).sum < UInt64.size := by
    simpa [DurationsFit, Function.comp_def] using h
  obtain ⟨duration, hduration, hnat⟩ := sumWords_of_lt hsum
  refine ⟨duration, ?_, by simpa [Function.comp_def] using hnat⟩
  simp only [ofOutcomes, hduration]
  rfl

theorem ofOutcomes_of_not_fit {outcomes : List Outcome} (h : ¬ DurationsFit outcomes) :
    ofOutcomes outcomes = .error .addOverflow := by
  have hsum : UInt64.size ≤ (0 : UInt64).toNat +
      ((outcomes.map (·.durationMs)).map UInt64.toNat).sum := by
    simpa [DurationsFit, Function.comp_def] using h
  simp only [ofOutcomes, sumWords_of_le hsum]
  rfl

theorem countOf_untimed (status : Status) (outcomes : List Outcome) :
    countOf status (outcomes.map Outcome.untimed) = countOf status outcomes := by
  simp only [countOf, List.countP_map]
  rfl

/-- Outcomes that differ in their durations only are counted alike. -/
theorem countOf_congr {os os' : List Outcome} (status : Status)
    (h : os.map Outcome.untimed = os'.map Outcome.untimed) :
    countOf status os = countOf status os' := by
  rw [← countOf_untimed, h, countOf_untimed]

/-- The summaries say the same, durations aside. -/
structure Alike (s s' : Summary) : Prop where
  total : s.total = s'.total
  passed : s.passed = s'.passed
  skipped : s.skipped = s'.skipped
  failed : s.failed = s'.failed
  outcomes : s.outcomes.map Outcome.untimed = s'.outcomes.map Outcome.untimed

theorem alike_withDuration {os os' : List Outcome} (d d' : UInt64)
    (h : os.map Outcome.untimed = os'.map Outcome.untimed) :
    Alike (withDuration os d) (withDuration os' d') where
  total := by
    have hlength : os.length = os'.length := by simpa using congrArg List.length h
    exact congrArg UInt64.ofNat hlength
  passed := congrArg UInt64.ofNat (countOf_congr .passed h)
  skipped := congrArg UInt64.ofNat (countOf_congr .skipped h)
  failed := congrArg UInt64.ofNat (countOf_congr .failed h)
  outcomes := h

theorem countOf_le_length (status : Status) (outcomes : List Outcome) :
    countOf status outcomes ≤ outcomes.length :=
  List.countP_le_length

theorem countOf_passed_add_failed_le (outcomes : List Outcome) :
    countOf .passed outcomes + countOf .failed outcomes ≤ outcomes.length := by
  induction outcomes with
  | nil => simp [countOf]
  | cons o outcomes ih =>
      simp only [countOf, List.countP_cons, List.length_cons] at ih ⊢
      cases ho : o.status <;> simp <;> omega

theorem toNat_ofNat_countOf {status : Status} {outcomes : List Outcome}
    (h : outcomes.length < UInt64.size) :
    (UInt64.ofNat (countOf status outcomes)).toNat = countOf status outcomes :=
  UInt64.toNat_ofNat_of_lt' (Nat.lt_of_le_of_lt (countOf_le_length status outcomes) h)

theorem exitCode_eq_zero_iff {outcomes : List Outcome} (duration : UInt64)
    (h : outcomes.length < UInt64.size) :
    (withDuration outcomes duration).exitCode = 0 ↔ ∀ o ∈ outcomes, o.status ≠ .failed := by
  have hcount : (withDuration outcomes duration).isSuccess = true ↔
      countOf .failed outcomes = 0 := by
    simp only [isSuccess, withDuration, decide_eq_true_eq, ← UInt64.toNat_inj]
    rw [toNat_ofNat_countOf h]
    rfl
  have hfailed : countOf .failed outcomes = 0 ↔ ∀ o ∈ outcomes, o.status ≠ .failed := by
    simp [countOf]
  rw [← hfailed, ← hcount]
  unfold exitCode
  by_cases hs : (withDuration outcomes duration).isSuccess = true
  · simp [hs]
  · simp [hs]

theorem exitCode_eq_one_of_ne_zero {s : Summary} (h : s.exitCode ≠ 0) : s.exitCode = 1 := by
  unfold exitCode at h ⊢
  split at h
  · exact absurd rfl h
  next hs => rw [if_neg hs]

theorem exists_render_eq_ok (format : OutputFormat) (colour : Bool) {outcomes : List Outcome}
    (duration : UInt64) (h : outcomes.length < UInt64.size) :
    ∃ text, Output.render format colour (withDuration outcomes duration) = .ok text := by
  have hle := countOf_passed_add_failed_le outcomes
  have hsum : (withDuration outcomes duration).passed.toNat +
      (withDuration outcomes duration).failed.toNat < UInt64.size := by
    simp only [withDuration, toNat_ofNat_countOf h]
    omega
  have hrate : ∃ rate, (withDuration outcomes duration).passRateText = .ok rate := by
    simp only [passRateText, passRate, (addWords_of_lt hsum).1]
    exact ⟨_, rfl⟩
  obtain ⟨rate, hrate⟩ := hrate
  cases format with
  | table => exact ⟨_, by simp only [Output.render, Output.table, hrate]; rfl⟩
  | json => exact ⟨_, rfl⟩
  | jsonPretty => exact ⟨_, rfl⟩
  | csv => exact ⟨_, rfl⟩
  | summary => exact ⟨_, by simp only [Output.render, Output.brief, hrate]; rfl⟩

end Summary

end Conformance

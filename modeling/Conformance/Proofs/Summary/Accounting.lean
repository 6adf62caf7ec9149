import Conformance.Proofs.Summary.Counts
import Mathlib.Algebra.BigOperators.Group.List.Basic

/-!
# The accounts of a summary

Two sums are taken in machine words, and each faults exactly if it does not fit
(`FaultsIff`): the durations when a summary is made, and the executed fixtures
when a summary is printed with its pass rate. The second one never faults for a
summary of outcomes, because these are counted one by one and there are fewer
than a machine word can hold. The counts of a summary read from a file need not
agree with anything, and so it may.

The numbers of a summary are those of its outcomes (`tally`), which do not depend
on their order and add up over two lists.
-/

namespace Conformance

/-- The computation faults under a condition, because a sum does not fit, and has a result
otherwise. -/
def FaultsIff {α : Type} (x : Except Fault α) (p : Prop) : Prop :=
  (p → x = .error .addOverflow) ∧ (¬ p → ∃ a, x = .ok a)

theorem FaultsIff.map {α β : Type} {x : Except Fault α} {p : Prop} (h : FaultsIff x p)
    (f : α → β) : FaultsIff (x.map f) p := by
  refine ⟨fun hp => ?_, fun hp => ?_⟩
  · rw [h.1 hp]
    rfl
  · obtain ⟨a, ha⟩ := h.2 hp
    exact ⟨f a, by rw [ha]; rfl⟩

namespace Summary

/-- The numbers of a summary: how many outcomes there are, how many of them passed, were skipped and
failed, and how long they took. -/
def numbers (s : Summary) : List Nat :=
  [s.total.toNat, s.passed.toNat, s.skipped.toNat, s.failed.toNat, s.totalDurationMs.toNat]

def tally (outcomes : List Outcome) : List Nat :=
  [outcomes.length, outcomes.countP (·.status = .passed), outcomes.countP (·.status = .skipped),
    outcomes.countP (·.status = .failed), (outcomes.map fun o => o.durationMs.toNat).sum]

/-- The summary says of the outcomes what there is to say, and can be printed. -/
structure Accounts (outcomes : List Outcome) (s : Summary) : Prop where
  numbers : s.numbers = tally outcomes
  total : s.total.toNat = s.passed.toNat + s.skipped.toNat + s.failed.toNat
  failures : s.failures = outcomes.filter (·.status = .failed)
  failed : s.failures.length = s.failed.toNat
  exitCode : s.exitCode = 0 ↔ ∀ o ∈ outcomes, o.status ≠ .failed
  printed : ∀ format colour, ∃ text, Output.render format colour s = .ok text
  listed : ∃ text, s.listing = .ok text

variable {outcomes outcomes' : List Outcome} {duration : UInt64}

theorem tally_perm (h : outcomes.Perm outcomes') : tally outcomes = tally outcomes' := by
  simp only [tally, h.length_eq, h.countP_eq, (h.map fun o => o.durationMs.toNat).sum_eq]

theorem tally_append (first second : List Outcome) :
    tally (first ++ second) = List.zipWith (· + ·) (tally first) (tally second) := by
  simp [tally]

theorem length_eq_countP (outcomes : List Outcome) :
    outcomes.length = outcomes.countP (·.status = .passed) +
      outcomes.countP (·.status = .skipped) + outcomes.countP (·.status = .failed) := by
  induction outcomes with
  | nil => rfl
  | cons o outcomes ih =>
      simp only [List.countP_cons, List.length_cons, ih]
      cases o.status <;> simp <;> omega

theorem numbers_withDuration (hlength : outcomes.length < UInt64.size)
    (hduration : duration.toNat = (outcomes.map fun o => o.durationMs.toNat).sum) :
    (withDuration outcomes duration).numbers = tally outcomes := by
  have htotal : (UInt64.ofNat outcomes.length).toNat = outcomes.length :=
    UInt64.toNat_ofNat_of_lt' hlength
  simp only [numbers, withDuration, toNat_ofNat_countOf hlength, htotal, hduration]
  rfl

theorem faultsIff_passRateText (s : Summary) :
    FaultsIff s.passRateText (UInt64.size ≤ s.passed.toNat + s.failed.toNat) := by
  have hsum : FaultsIff (addWords s.passed s.failed)
      (UInt64.size ≤ s.passed.toNat + s.failed.toNat) := by
    refine ⟨fun h => if_neg (Nat.not_lt.2 h), fun h => ?_⟩
    exact ⟨_, (addWords_of_lt (Nat.not_le.1 h)).1⟩
  exact (hsum.map _).map _

/-- What is printed with the pass rate faults if the executed fixtures do not fit a machine word,
and nothing else faults. -/
theorem faultsIff_render (format : OutputFormat) (colour : Bool) (s : Summary) :
    FaultsIff (Output.render format colour s) ((format = .table ∨ format = .summary) ∧
      UInt64.size ≤ s.passed.toNat + s.failed.toNat) := by
  have hrate := faultsIff_passRateText s
  cases format with
  | table =>
      simp only [true_or, true_and]
      exact hrate.map _
  | summary =>
      simp only [or_true, true_and]
      exact hrate.map _
  | json | jsonPretty | csv => exact ⟨by simp, fun _ => ⟨_, rfl⟩⟩

theorem faultsIff_listing (s : Summary) :
    FaultsIff s.listing (UInt64.size ≤ s.passed.toNat + s.failed.toNat) :=
  (faultsIff_passRateText s).map _

theorem faultsIff_ofOutcomes (outcomes : List Outcome) :
    FaultsIff (ofOutcomes outcomes)
      (UInt64.size ≤ (outcomes.map fun o => o.durationMs.toNat).sum) := by
  refine ⟨fun h => ofOutcomes_of_not_fit (Nat.not_lt.2 h), fun h => ?_⟩
  obtain ⟨duration, hsummary, -⟩ := ofOutcomes_of_fit (Nat.not_le.1 h)
  exact ⟨_, hsummary⟩

/-- The outcomes are summed up if there are not too many and they do not take too long. -/
theorem exists_accounts (hlength : outcomes.length < UInt64.size) (hfit : DurationsFit outcomes) :
    ∃ s, ofOutcomes outcomes = .ok s ∧ Accounts outcomes s := by
  obtain ⟨duration, hsummary, hduration⟩ := ofOutcomes_of_fit hfit
  have hnumbers := numbers_withDuration hlength hduration
  have hparts := hnumbers
  simp only [Summary.numbers, tally, List.cons.injEq, and_true] at hparts
  obtain ⟨htotal, hpassed, hskipped, hfailed, -⟩ := hparts
  have hcount := length_eq_countP outcomes
  have hexecuted : ¬ UInt64.size ≤ (withDuration outcomes duration).passed.toNat +
      (withDuration outcomes duration).failed.toNat := by omega
  refine ⟨_, hsummary, hnumbers, by omega, rfl, ?_, exitCode_eq_zero_iff duration hlength, ?_, ?_⟩
  · rw [hfailed, List.countP_eq_length_filter]
    rfl
  · intro format colour
    exact (faultsIff_render format colour _).2 fun h => hexecuted h.2
  · exact (faultsIff_listing _).2 hexecuted

/-- A summary is made exactly if the durations of its outcomes fit a machine word together. It then
accounts for the outcomes, its numbers are the same in any other order, and are the sums of those
of two parts. A summary with any counts is printed with its pass rate, or as a listing, exactly if
the executed fixtures fit a machine word, and in the other formats always. -/
theorem accounting :
    (∀ outcomes, FaultsIff (ofOutcomes outcomes)
      (UInt64.size ≤ (outcomes.map fun o => o.durationMs.toNat).sum)) ∧
    (∀ outcomes s, outcomes.length < UInt64.size → ofOutcomes outcomes = .ok s →
      Accounts outcomes s ∧
      (∀ outcomes', outcomes.Perm outcomes' →
        ∃ s', ofOutcomes outcomes' = .ok s' ∧ s'.numbers = s.numbers) ∧
      ∀ first second, outcomes = first ++ second →
        ∃ s₁ s₂, ofOutcomes first = .ok s₁ ∧ ofOutcomes second = .ok s₂ ∧
          s.numbers = List.zipWith (· + ·) s₁.numbers s₂.numbers) ∧
    ∀ s : Summary,
      (∀ format colour, FaultsIff (Output.render format colour s)
        ((format = .table ∨ format = .summary) ∧
          UInt64.size ≤ s.passed.toNat + s.failed.toNat)) ∧
      FaultsIff s.listing (UInt64.size ≤ s.passed.toNat + s.failed.toNat) := by
  refine ⟨faultsIff_ofOutcomes, fun outcomes s hlength hs => ?_,
    fun s => ⟨fun format colour => faultsIff_render format colour s, faultsIff_listing s⟩⟩
  have hfit : DurationsFit outcomes := by
    by_contra hfit
    rw [ofOutcomes_of_not_fit hfit] at hs
    contradiction
  obtain ⟨s₀, hs₀, hsummary⟩ := exists_accounts hlength hfit
  obtain rfl : s₀ = s := Except.ok.inj (hs₀.symm.trans hs)
  refine ⟨hsummary, fun outcomes' hperm => ?_, ?_⟩
  · have hfit' : DurationsFit outcomes' := by
      rwa [DurationsFit, ← (hperm.map fun o => o.durationMs.toNat).sum_eq]
    obtain ⟨s', hs', hsummary'⟩ := exists_accounts (hperm.length_eq ▸ hlength) hfit'
    exact ⟨s', hs', by rw [hsummary'.numbers, hsummary.numbers, tally_perm hperm]⟩
  · rintro first second rfl
    rw [List.length_append] at hlength
    rw [DurationsFit, List.map_append, List.sum_append] at hfit
    have hfirst : DurationsFit first := Nat.lt_of_le_of_lt (Nat.le_add_right _ _) hfit
    have hsecond : DurationsFit second := Nat.lt_of_le_of_lt (Nat.le_add_left _ _) hfit
    obtain ⟨s₁, hs₁, hsummary₁⟩ := exists_accounts (by omega) hfirst
    obtain ⟨s₂, hs₂, hsummary₂⟩ := exists_accounts (by omega) hsecond
    refine ⟨s₁, s₂, hs₁, hs₂, ?_⟩
    rw [hsummary.numbers, hsummary₁.numbers, hsummary₂.numbers, tally_append]

/-- An outcome of each status, whose durations just fit a machine word. -/
def fullWord : List Outcome :=
  [.passed ⟨⟨[97]⟩, "a"⟩ 18446744073709551614, .skipped ⟨⟨[98]⟩, "b"⟩ "",
    .failed ⟨⟨[99]⟩, "c"⟩ 1 none ""]

/-- The outcomes are summed up, in reverse order too. Not so if the last of them is there twice. The
counts of a summary may be too many for its pass rate. -/
theorem accounting_fullWord :
    (∃ s, ofOutcomes fullWord = .ok s ∧ Accounts fullWord s ∧
      ∃ s', ofOutcomes fullWord.reverse = .ok s' ∧ s'.numbers = s.numbers) ∧
    ofOutcomes (fullWord ++ fullWord.drop 2) = .error .addOverflow ∧
    (⟨0, 18446744073709551615, 0, 1, 0, []⟩ : Summary).listing = .error .addOverflow := by
  obtain ⟨hmade, hsummary, hprinted⟩ := accounting
  obtain ⟨s, hs⟩ := (hmade fullWord).2 (by decide)
  obtain ⟨haccounts, hperm, -⟩ := hsummary fullWord s (by decide) hs
  exact ⟨⟨s, hs, haccounts, hperm _ (List.reverse_perm _).symm⟩, (hmade _).1 (by decide),
    (hprinted _).2.1 (by decide)⟩

end Summary

end Conformance

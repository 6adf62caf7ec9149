import Conformance.Proofs.Parallel.Refinement

/-!
# How many permits a parallel run can ask for

A request for no permit counts as one for a single permit, but nothing is done
about a request for more permits than a semaphore can hold. So a run with a
compiler that does not give up returns for exactly the requests up to
`maxPermits`, as long as its invocations do not take longer together than a
machine word can tell (`runAll_returns_iff`). Beyond the limit it faults before
any task is started, whatever the fixtures are; within it, whatever the schedule,
a run is summed up alike (`State.Final.conclude_fst_eq`).
-/

namespace Conformance.Parallel

variable {requested : UInt64} {fixtures : List Fixture}

/-- Raising a request to one permit does not take it over the limit. -/
theorem permits_le_maxPermits_iff :
    permits requested ≤ maxPermits ↔ requested.toNat ≤ maxPermits := by
  have hpositive : 1 ≤ maxPermits := by decide
  rw [permits, Nat.max_le]
  exact and_iff_right hpositive

theorem runAll_of_maxPermits_lt (h : maxPermits < requested.toNat) (respond : Path → Response)
    (wallMs : Nat) (fixtures : List Fixture) :
    runAll respond requested wallMs fixtures = .error .tooManyPermits := by
  have hlimit : maxPermits < permits requested := by
    rw [← Nat.not_le, permits_le_maxPermits_iff, Nat.not_le]
    exact h
  rw [runAll, ending, if_pos hlimit]

/-- The times that the invocations of a run add to its duration fit a machine word together. -/
def TimesFit (respond : Nat → Path → Response) (fixtures : List Fixture) : Prop :=
  ((Runner.callsIn (turns respond fixtures)).map Call.countedMs).sum < UInt64.size

/-- Wherever a schedule ends, the run is summed up from one outcome for each fixture. -/
theorem State.Final.conclude_fst_eq {respond : Nat → Path → Response} {m : Nat} {final : State}
    (h : Final respond m fixtures final) (hm : 0 < m)
    (hcalm : ∀ i p message, (respond i p).reply ≠ .fault message) (number : Nat → Nat)
    (requested : UInt64) (wallMs : Nat) :
    ∃ outcomes, outcomes.map (·.fixture) = fixtures ∧
      (Summary.DurationsFit outcomes ↔ TimesFit respond fixtures) ∧
      (conclude number requested wallMs fixtures final).map (·.1) =
        Summary.ofOutcomes outcomes := by
  have houtcomes := h.outcomes?_eq hm number
  have hcalm' : ∀ f ∈ fixtures, f.isSkipped = true ∨
      ∀ i message, (respond i f.path).reply ≠ .fault message :=
    fun f _ => .inr fun i message => hcalm i f.path message
  have hverdicts := verdicts_turns respond number hcalm'
  refine ⟨_, ?_, ?_, conclude_fst houtcomes requested wallMs⟩
  · exact hverdicts.map_fixture.trans (map_fixture_turns respond fixtures)
  · rw [Summary.DurationsFit, hverdicts.sum_durations]
    rfl

/-- A parallel run with a compiler that does not give up returns one outcome for each fixture
exactly if a semaphore can hold as many permits as were asked for and the times of the invocations
fit a machine word together. Asked for more permits, the run faults. -/
theorem runAll_returns_iff {respond : Path → Response}
    (hcalm : ∀ p message, (respond p).reply ≠ .fault message) (requested : UInt64) (wallMs : Nat)
    (fixtures : List Fixture) :
    ((∃ run, runAll respond requested wallMs fixtures = .ok run ∧
        run.summary.outcomes.map (·.fixture) = fixtures) ↔
      requested.toNat ≤ maxPermits ∧ TimesFit (fun _ => respond) fixtures) ∧
    (maxPermits < requested.toNat →
      runAll respond requested wallMs fixtures = .error .tooManyPermits) := by
  refine ⟨?_, fun h => runAll_of_maxPermits_lt h respond wallMs fixtures⟩
  by_cases hlimit : requested.toNat ≤ maxPermits
  · obtain ⟨final, peak, hending, hfinal⟩ :=
      State.exists_ending_eq_ok (fun _ => respond) (permits_le_maxPermits_iff.2 hlimit) fixtures
    obtain ⟨outcomes, hfixtures, hfit, hconclude⟩ :=
      hfinal.conclude_fst_eq (permits_pos requested) (fun _ => hcalm) id requested wallMs
    rw [← hfit, and_iff_right hlimit]
    constructor
    · rintro ⟨run, hrun, -⟩
      by_contra hover
      rw [Summary.ofOutcomes_of_not_fit hover] at hconclude
      have herror := Runner.eq_error_of_map_eq_error hconclude
      simp only [runAll, hending, herror] at hrun
      cases hrun
    · intro hdurations
      obtain ⟨duration, hsummary, -⟩ := Summary.ofOutcomes_of_fit hdurations
      rw [hsummary] at hconclude
      obtain ⟨log, hlog⟩ := Runner.exists_of_map_fst_eq_ok hconclude
      refine ⟨⟨.withDuration outcomes duration, log, final.invoked, peak⟩, ?_, hfixtures⟩
      simp only [runAll, hending, hlog]
      rfl
  · rw [runAll_of_maxPermits_lt (Nat.lt_of_not_le hlimit)]
    simp [hlimit]

/-- The largest request that is served, by a compiler that rejects what it is handed. -/
theorem runAll_returns_iff_at_limit :
    let respond : Path → Response := fun _ => ⟨.exited (some 1) "out", 7, []⟩
    let f : Fixture := ⟨.ofText "/suite/a.flang", "a.flang"⟩
    let g : Fixture := ⟨.ofText "/suite/b.skip.flang", "b.skip.flang"⟩
    ∃ run, runAll respond 2305843009213693951 0 [f, g] = .ok run ∧
      run.summary.outcomes.map (·.fixture) = [f, g] := by
  intro respond f g
  have hcalm : ∀ p message, (respond p).reply ≠ .fault message := by
    intro p message h
    cases h
  have hfit : TimesFit (fun _ => respond) [f, g] := by
    unfold TimesFit
    decide +kernel
  exact (runAll_returns_iff hcalm 2305843009213693951 0 [f, g]).1.2 ⟨by decide, hfit⟩

/-- One permit more than a semaphore can hold: the run faults, although the compiler accepts the
only fixture there is. -/
theorem runAll_faults_over_limit :
    let respond : Path → Response := fun _ => .ofReply (.exited (some 0) "")
    let f : Fixture := ⟨.ofText "/suite/a.flang", "a.flang"⟩
    (∀ p message, (respond p).reply ≠ .fault message) ∧
      runAll respond 2305843009213693952 0 [f] = .error .tooManyPermits := by
  intro respond f
  refine ⟨?_, runAll_of_maxPermits_lt (by decide) respond 0 [f]⟩
  intro p message h
  cases h

end Conformance.Parallel

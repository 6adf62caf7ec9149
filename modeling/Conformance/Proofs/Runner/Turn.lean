import Conformance.Proofs.Summary.Counts
import Conformance.Runner
import Mathlib.Data.List.Forall2

/-!
# The turn of a fixture

When its turn comes, a fixture is handed to the compiler and judged by the
answer; a disabled fixture is judged without one. `judge f r` is the outcome of
the fixture `f` for the answer `r`. It looks at nothing else, and `Judged` lists
what it can be. However the turns of a list of fixtures come about, one after
another or interleaved, the outcomes, the invocations and the durations of the
run are read off the list of its turns (`Verdicts`).
-/

namespace Conformance.Runner

def handed (fixtures : List Fixture) : List Path :=
  (fixtures.filter fun f => !f.isSkipped).map (·.path)

theorem handed_cons (f : Fixture) (fixtures : List Fixture) :
    handed (f :: fixtures) = handed [f] ++ handed fixtures := by
  rw [← List.singleton_append, handed, List.filter_append, List.map_append]
  rfl

theorem handed_of_skipped {f : Fixture} (hf : f.isSkipped = true) : handed [f] = [] := by
  simp [handed, hf]

theorem handed_of_not_skipped {f : Fixture} (hf : f.isSkipped = false) :
    handed [f] = [f.path] := by
  simp [handed, hf]

/-- The outcome of a fixture for the answer `r` of the compiler. The answer is not looked at if the
fixture is disabled. -/
def judge (f : Fixture) (r : Response) : Except Fault Outcome :=
  if f.isSkipped then .ok (.skipped f skipReason) else (classify f r).map (·.1)

/-- The outcomes that a fixture can have, with the reply that leads to each. -/
inductive Judged (f : Fixture) (r : Response) : Outcome → Prop where
  | skipped (hf : f.isSkipped = true) : Judged f r (.skipped f skipReason)
  | passed {output : String} (hf : f.isSkipped = false)
      (hr : r.reply = .exited (some 0) output) : Judged f r (.passed f r.elapsedMs)
  | failed {code : Option Int32} {output : String} (hf : f.isSkipped = false)
      (hr : r.reply = .exited code output) (hcode : code ≠ some 0) :
      Judged f r (.failed f r.elapsedMs code output)
  | notStarted {error : String} (hf : f.isSkipped = false)
      (hr : r.reply = .notStarted error) : Judged f r (.spawnError f error)
  | lost {error : String} (hf : f.isSkipped = false) (hr : r.reply = .lost error) :
      Judged f r (.captureError f r.elapsedMs error)

section Judge

variable {f : Fixture} {r : Response} {o : Outcome}

theorem judged_of_judge (h : judge f r = .ok o) : Judged f r o := by
  unfold judge at h
  split at h
  next hf =>
    cases h
    exact .skipped hf
  next hf =>
    have hf : f.isSkipped = false := Bool.eq_false_iff.2 hf
    unfold classify at h
    split at h
    next code output hr =>
      cases h
      by_cases hcode : code = some 0
      · simp only [if_pos hcode]
        exact .passed hf (hcode ▸ hr)
      · simp only [if_neg hcode]
        exact .failed hf hr hcode
    next error hr =>
      cases h
      exact .notStarted hf hr
    next error hr =>
      cases h
      exact .lost hf hr
    next => cases h

theorem judge_of_not_fault (h : f.isSkipped = true ∨ ∀ message, r.reply ≠ .fault message) :
    ∃ o, judge f r = .ok o := by
  by_cases hf : f.isSkipped = true
  · exact ⟨_, by rw [judge, if_pos hf]⟩
  · have hr := h.resolve_left hf
    rw [judge, if_neg hf, classify]
    split
    next => exact ⟨_, rfl⟩
    next => exact ⟨_, rfl⟩
    next => exact ⟨_, rfl⟩
    next message hreply => exact absurd hreply (hr message)

theorem judge_of_fault {payload : Payload} (hf : f.isSkipped = false)
    (hr : r.reply = .fault payload) : judge f r = .error (.compiler payload) := by
  rw [judge, if_neg (Bool.eq_false_iff.1 hf), classify, hr]
  rfl

/-- Apart from its duration an outcome depends on the fixture and the reply alone. -/
theorem map_untimed_judge (f : Fixture) (r : Response) :
    (judge f r).map Outcome.untimed = judge f (.ofReply r.reply) := by
  unfold judge
  split
  · rfl
  · unfold classify Response.ofReply
    cases r.reply with
    | exited code output =>
        by_cases hcode : code = some 0
        · simp only [if_pos hcode]
          rfl
        · simp only [if_neg hcode]
          rfl
    | notStarted error => rfl
    | lost error => rfl
    | fault message => rfl

theorem untimed_eq_of_judge {r' : Response} {o' : Outcome} (hreply : r.reply = r'.reply)
    (h : judge f r = .ok o) (h' : judge f r' = .ok o') : o.untimed = o'.untimed := by
  have ho := map_untimed_judge f r
  have ho' := map_untimed_judge f r'
  rw [h, hreply, ← ho', h'] at ho
  simpa [Except.map] using ho

namespace Judged

theorem fixture_eq (h : Judged f r o) : o.fixture = f := by
  cases h <;> rfl

theorem coherent (h : Judged f r o) : o.Coherent := by
  cases h with
  | skipped hf => exact Outcome.coherent_skipped f skipReason
  | passed hf hr => exact Outcome.coherent_passed f r.elapsedMs
  | failed hf hr hcode => exact Outcome.coherent_failed f r.elapsedMs _ hcode
  | notStarted hf hr => exact Outcome.coherent_spawnError f _
  | lost hf hr => exact Outcome.coherent_captureError f r.elapsedMs _

end Judged

end Judge

/-- A fixture and the answer it is judged by. -/
structure Turn where
  fixture : Fixture
  answer : Response

def callsIn (turns : List Turn) : List Call :=
  (turns.filter fun t => !t.fixture.isSkipped).map fun t => ⟨t.fixture.path, t.answer⟩

theorem map_path_callsIn (turns : List Turn) :
    (callsIn turns).map (·.path) = handed (turns.map (·.fixture)) := by
  simp only [callsIn, handed, List.filter_map, List.map_map]
  rfl

def Verdicts (turns : List Turn) (outcomes : List Outcome) : Prop :=
  List.Forall₂ (fun t o => judge t.fixture t.answer = .ok o) turns outcomes

end Conformance.Runner

namespace Conformance

def Reply.isAcceptance : Reply → Bool
  | .exited (some code) _ => code == 0
  | _ => false

/-- The time that an invocation adds to the duration of a run. A compiler that was not started adds
nothing, however long the attempt took. -/
def Call.countedMs (c : Call) : Nat :=
  match c.response.reply with
  | .notStarted _ => 0
  | _ => c.response.elapsedMs.toNat

namespace Runner

namespace Verdicts

variable {turns : List Turn} {outcomes : List Outcome}

theorem getElem? (h : Verdicts turns outcomes) {i : Nat} {t : Turn} {o : Outcome}
    (ht : turns[i]? = some t) (ho : outcomes[i]? = some o) :
    judge t.fixture t.answer = .ok o := by
  induction h generalizing i with
  | nil => simp at ht
  | cons hjudge _ ih =>
      cases i with
      | zero =>
          cases ht
          cases ho
          exact hjudge
      | succ i => exact ih (by simpa using ht) (by simpa using ho)

theorem map_fixture (h : Verdicts turns outcomes) :
    outcomes.map (·.fixture) = turns.map (·.fixture) := by
  induction h with
  | nil => rfl
  | cons hjudge _ ih =>
      rw [List.map_cons, List.map_cons, ih, (judged_of_judge hjudge).fixture_eq]

theorem coherent (h : Verdicts turns outcomes) : ∀ o ∈ outcomes, o.Coherent := by
  induction h with
  | nil => simp
  | cons hjudge _ ih => exact List.forall_mem_cons.2 ⟨(judged_of_judge hjudge).coherent, ih⟩

/-- Nothing failed exactly if the compiler accepted whatever it was handed. -/
theorem forall_not_failed_iff (h : Verdicts turns outcomes) :
    (∀ o ∈ outcomes, o.status ≠ .failed) ↔
      ∀ c ∈ callsIn turns, c.response.reply.isAcceptance = true := by
  induction h with
  | nil => simp [callsIn]
  | @cons t o turns outcomes hjudge _ ih =>
      have hhead : o.status ≠ .failed ↔
          (t.fixture.isSkipped = true ∨ t.answer.reply.isAcceptance = true) := by
        cases judged_of_judge hjudge with
        | skipped hf => simp [Outcome.skipped, hf]
        | passed hf hr => simp [Outcome.passed, hf, hr, Reply.isAcceptance]
        | @failed code _ hf hr hcode =>
            cases code <;> simp_all [Outcome.failed, Reply.isAcceptance]
        | notStarted hf hr => simp [Outcome.spawnError, hf, hr, Reply.isAcceptance]
        | lost hf hr => simp [Outcome.captureError, hf, hr, Reply.isAcceptance]
      rw [List.forall_mem_cons, ih, hhead]
      cases hf : t.fixture.isSkipped with
      | true => simp [callsIn, hf]
      | false => simp [callsIn, hf]

theorem sum_durations (h : Verdicts turns outcomes) :
    (outcomes.map fun o => o.durationMs.toNat).sum =
      ((callsIn turns).map Call.countedMs).sum := by
  induction h with
  | nil => rfl
  | @cons t o turns outcomes hjudge _ ih =>
      rw [List.map_cons, List.sum_cons, ih]
      cases judged_of_judge hjudge with
      | skipped hf => simp [callsIn, hf, Outcome.skipped]
      | passed hf hr => simp [callsIn, hf, hr, Call.countedMs, Outcome.passed]
      | failed hf hr hcode => simp [callsIn, hf, hr, Call.countedMs, Outcome.failed]
      | notStarted hf hr => simp [callsIn, hf, hr, Call.countedMs, Outcome.spawnError]
      | lost hf hr => simp [callsIn, hf, hr, Call.countedMs, Outcome.captureError]

/-- Turns of the same fixtures with the same replies have the same outcomes, durations aside. -/
theorem untimed_congr {turns' : List Turn} {outcomes' : List Outcome}
    (h : Verdicts turns outcomes) (h' : Verdicts turns' outcomes')
    (hsame : turns.map (fun t => (t.fixture, t.answer.reply)) =
      turns'.map fun t => (t.fixture, t.answer.reply)) :
    outcomes.map Outcome.untimed = outcomes'.map Outcome.untimed := by
  induction h generalizing turns' outcomes' with
  | nil =>
      have hnil : turns' = [] := by simpa using hsame.symm
      subst hnil
      cases h'
      rfl
  | @cons t o turns outcomes hjudge _ ih =>
      cases h' with
      | nil => simp at hsame
      | @cons t' o' turns' outcomes' hjudge' hrest =>
          simp only [List.map_cons, List.cons.injEq, Prod.mk.injEq] at hsame
          obtain ⟨⟨hfixture, hreply⟩, htail⟩ := hsame
          rw [← hfixture] at hjudge'
          rw [List.map_cons, List.map_cons, untimed_eq_of_judge hreply hjudge hjudge',
            ih hrest htail]

end Verdicts

end Runner

end Conformance

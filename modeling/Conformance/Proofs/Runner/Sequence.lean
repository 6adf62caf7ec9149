import Conformance.Proofs.Runner.Turn

/-!
# Running fixtures in order

A compiler may answer by everything it was handed before, so what a run comes to
is said with the state the compiler is in when the turn of a fixture comes:
`stateAfter s ps` is its state after the paths `ps`. `turns s fixtures` are the
turns of a run, and `getElem?_turns` is the answer in each of them. As long as
the compiler does not give up, a run has an outcome for every turn
(`runEach_of_steady`).
-/

namespace Conformance

variable {σ : Type}

namespace Compiler

def Steady (compiler : Compiler σ) : Prop :=
  ∀ s p message, (compiler s p).1.reply ≠ .fault message

/-- The compiler does not give up on any of the fixtures, whatever was handed to it before. -/
def SteadyOn (compiler : Compiler σ) (fixtures : List Fixture) : Prop :=
  ∀ f ∈ fixtures, f.isSkipped = true ∨ ∀ s message, (compiler s f.path).1.reply ≠ .fault message

theorem Steady.on {compiler : Compiler σ} (hc : compiler.Steady) (fixtures : List Fixture) :
    compiler.SteadyOn fixtures :=
  fun f _ => .inr fun s message => hc s f.path message

def stateAfter (compiler : Compiler σ) : σ → List Path → σ
  | s, [] => s
  | s, p :: ps => stateAfter compiler (compiler s p).2 ps

theorem stateAfter_append (compiler : Compiler σ) (s : σ) (ps qs : List Path) :
    compiler.stateAfter s (ps ++ qs) = compiler.stateAfter (compiler.stateAfter s ps) qs := by
  induction ps generalizing s with
  | nil => rfl
  | cons p ps ih =>
      rw [List.cons_append, stateAfter, stateAfter]
      exact ih _

end Compiler

namespace Runner

def turns (compiler : Compiler σ) : σ → List Fixture → List Turn
  | _, [] => []
  | s, f :: fixtures =>
      ⟨f, (compiler s f.path).1⟩ ::
        turns compiler (compiler.stateAfter s (handed [f])) fixtures

/-- The answer to the fixture `f` when the fixtures `before` had their turns. -/
def answerTo (compiler : Compiler σ) (s : σ) (before : List Fixture) (f : Fixture) : Response :=
  (compiler (compiler.stateAfter s (handed before)) f.path).1

theorem getElem?_turns (compiler : Compiler σ) (s : σ) (fixtures : List Fixture) (i : Nat) :
    (turns compiler s fixtures)[i]? =
      fixtures[i]?.map fun f => ⟨f, answerTo compiler s (fixtures.take i) f⟩ := by
  induction fixtures generalizing s i with
  | nil => rfl
  | cons f fixtures ih =>
      cases i with
      | zero => rfl
      | succ i =>
          rw [turns, List.getElem?_cons_succ, List.getElem?_cons_succ, List.take_succ_cons, ih]
          simp only [answerTo]
          rw [handed_cons f (fixtures.take i), Compiler.stateAfter_append]

theorem map_fixture_turns (compiler : Compiler σ) (s : σ) (fixtures : List Fixture) :
    (turns compiler s fixtures).map (·.fixture) = fixtures := by
  induction fixtures generalizing s with
  | nil => rfl
  | cons f fixtures ih => rw [turns, List.map_cons, ih]

theorem runFixture_fst (compiler : Compiler σ) (s : σ) (f : Fixture) :
    (runFixture compiler s f).1.map (·.1) = judge f (compiler s f.path).1 := by
  unfold runFixture judge
  split
  · rfl
  · rfl

theorem runFixture_snd (compiler : Compiler σ) (s : σ) (f : Fixture) :
    (runFixture compiler s f).2 = compiler.stateAfter s (handed [f]) := by
  unfold runFixture
  split
  next hf =>
    rw [handed_of_skipped hf]
    rfl
  next hf =>
    rw [handed_of_not_skipped (Bool.eq_false_iff.2 hf)]
    rfl

theorem runFixture_of_judge {compiler : Compiler σ} {s : σ} {f : Fixture} {o : Outcome}
    (h : judge f (compiler s f.path).1 = .ok o) :
    ∃ log, runFixture compiler s f = (.ok (o, log), compiler.stateAfter s (handed [f])) := by
  rw [← runFixture_snd]
  rw [← runFixture_fst] at h
  cases hrun : (runFixture compiler s f).1 with
  | error e =>
      rw [hrun] at h
      cases h
  | ok result =>
      obtain ⟨o', log⟩ := result
      rw [hrun] at h
      cases h
      exact ⟨log, Prod.ext hrun rfl⟩

theorem exists_runFixture_eq {compiler : Compiler σ} {f : Fixture} (s : σ)
    (h : f.isSkipped = true ∨ ∀ s message, (compiler s f.path).1.reply ≠ .fault message) :
    ∃ o log, judge f (compiler s f.path).1 = .ok o ∧
      runFixture compiler s f = (.ok (o, log), compiler.stateAfter s (handed [f])) := by
  obtain ⟨o, ho⟩ := judge_of_not_fault (h.imp_right fun hc => hc s)
  obtain ⟨log, hrun⟩ := runFixture_of_judge ho
  exact ⟨o, log, ho, hrun⟩

/-- A run with a compiler that does not give up has an outcome for every turn, and hands over all
the paths there are. -/
theorem runEach_of_steady {compiler : Compiler σ} {fixtures : List Fixture}
    (hc : compiler.SteadyOn fixtures) (s : σ) :
    ∃ outcomes log,
      runEach compiler s fixtures =
        (.ok (outcomes, log), compiler.stateAfter s (handed fixtures)) ∧
      Verdicts (turns compiler s fixtures) outcomes := by
  induction fixtures generalizing s with
  | nil => exact ⟨[], [], rfl, .nil⟩
  | cons f fixtures ih =>
      obtain ⟨hf, hrest⟩ := List.forall_mem_cons.1 hc
      obtain ⟨o, log, ho, hrun⟩ := exists_runFixture_eq s hf
      obtain ⟨outcomes, rest, hruns, hverdicts⟩ := ih hrest (compiler.stateAfter s (handed [f]))
      refine ⟨o :: outcomes, log ++ Log.debug .runner ("  " ++ o.line) :: rest, ?_,
        .cons ho hverdicts⟩
      rw [handed_cons, Compiler.stateAfter_append]
      simp only [runEach, hrun, hruns]

theorem runAll_of_runEach {compiler : Compiler σ} {s s' : σ} {fixtures : List Fixture}
    {outcomes : List Outcome} {log : List Log.Event} (wallMs : Nat)
    (h : runEach compiler s fixtures = (.ok (outcomes, log), s')) :
    (runAll compiler s wallMs fixtures).1.map (·.1) = Summary.ofOutcomes outcomes := by
  simp only [runAll, h]
  cases Summary.ofOutcomes outcomes with
  | error e => rfl
  | ok summary => rfl

/-- Tracing the invocations changes nothing about a fixture, and its invocation is noted. -/
theorem runFixture_traced (compiler : Compiler σ) (s : σ) (calls : List Call) (f : Fixture) :
    runFixture compiler.traced (s, calls) f =
      ((runFixture compiler s f).1, (runFixture compiler s f).2,
        calls ++ callsIn [⟨f, (compiler s f.path).1⟩]) := by
  unfold runFixture
  cases hf : f.isSkipped with
  | true => simp [callsIn, hf]
  | false => simp [callsIn, hf, Compiler.traced]

theorem callsIn_cons (t : Turn) (ts : List Turn) :
    callsIn (t :: ts) = callsIn [t] ++ callsIn ts := by
  rw [← List.singleton_append, callsIn, List.filter_append, List.map_append]
  rfl

/-- Tracing the invocations changes nothing about a run, and the invocations of its turns are noted
if the compiler does not give up. -/
theorem runEach_traced {compiler : Compiler σ} {fixtures : List Fixture}
    (hc : compiler.SteadyOn fixtures) (s : σ) (calls : List Call) :
    runEach compiler.traced (s, calls) fixtures =
      ((runEach compiler s fixtures).1, (runEach compiler s fixtures).2,
        calls ++ callsIn (turns compiler s fixtures)) := by
  induction fixtures generalizing s calls with
  | nil => simp [runEach, turns, callsIn]
  | cons f fixtures ih =>
      obtain ⟨hf, hrest⟩ := List.forall_mem_cons.1 hc
      obtain ⟨o, log, -, hrun⟩ := exists_runFixture_eq s hf
      obtain ⟨outcomes, rest, hruns, -⟩ :=
        runEach_of_steady hrest (compiler.stateAfter s (handed [f]))
      simp only [runEach, runFixture_traced, hrun, ih hrest, hruns, turns]
      rw [callsIn_cons _ (turns _ _ _), List.append_assoc]

theorem runAll_traced {compiler : Compiler σ} {fixtures : List Fixture}
    (hc : compiler.SteadyOn fixtures) (s : σ) (wallMs : Nat) :
    runAll compiler.traced (s, []) wallMs fixtures =
      ((runAll compiler s wallMs fixtures).1, (runAll compiler s wallMs fixtures).2,
        callsIn (turns compiler s fixtures)) := by
  obtain ⟨outcomes, log, hruns, -⟩ := runEach_of_steady hc s
  simp only [runAll, runEach_traced hc, hruns, List.nil_append]

/-- What an outcome is by its fixture and the reply of the compiler to it. -/
structure Follows (f : Fixture) (reply : Reply) (o : Outcome) : Prop where
  skipped_iff : o.status = .skipped ↔ f.isSkipped = true
  passed_iff : o.status = .passed ↔
    f.isSkipped = false ∧ ∃ output, reply = .exited (some 0) output
  exit_iff : ∀ code output,
    o.failure = some .nonZeroExit ∧ o.exitCode = code ∧ o.capturedOutput = some output ↔
      f.isSkipped = false ∧ reply = .exited code output ∧ code ≠ some 0
  spawn_iff : o.failure = some .spawn ↔ f.isSkipped = false ∧ ∃ error, reply = .notStarted error
  capture_iff : o.failure = some .capture ↔ f.isSkipped = false ∧ ∃ error, reply = .lost error

theorem Judged.follows {f : Fixture} {r : Response} {o : Outcome} (h : Judged f r o) :
    Follows f r.reply o := by
  cases h with
  | skipped hf => constructor <;> simp [Outcome.skipped, hf]
  | passed hf hr => constructor <;> simp [Outcome.passed, hf, hr]
  | failed hf hr hcode => constructor <;> simp [Outcome.failed, hf, hr, hcode]
  | notStarted hf hr => constructor <;> simp [Outcome.spawnError, hf, hr]
  | lost hf hr => constructor <;> simp [Outcome.captureError, hf, hr]

theorem exists_of_map_fst_eq_ok {α β ε : Type} {x : Except ε (α × β)} {a : α}
    (h : x.map (·.1) = .ok a) : ∃ b, x = .ok (a, b) := by
  cases x with
  | error e => cases h
  | ok ab =>
      cases h
      exact ⟨ab.2, rfl⟩

theorem eq_error_of_map_eq_error {α β ε : Type} {x : Except ε α} {f : α → β} {e : ε}
    (h : x.map f = .error e) : x = .error e := by
  cases x with
  | error e' =>
      cases h
      rfl
  | ok a => cases h

/-- The law of a run in order, for a compiler that never gives up and whatever its answers depend
on. The compiler is handed exactly the paths of the fixtures that are not disabled, once each and in
order. There is one outcome for each fixture, in order, given by the fixture and the answer it got
in its turn, and every outcome is coherent. The run ends in the summary of these outcomes, unless
their durations do not fit a machine word together. -/
theorem runAll_law {compiler : Compiler σ} (hc : compiler.Steady) (s : σ) (wallMs : Nat)
    (fixtures : List Fixture) :
    (runAll compiler.traced (s, []) wallMs fixtures).1 = (runAll compiler s wallMs fixtures).1 ∧
      (runAll compiler.traced (s, []) wallMs fixtures).2.2.map (·.path) =
        (fixtures.filter fun f => !f.isSkipped).map (·.path) ∧
      ∃ outcomes : List Outcome,
        (Summary.DurationsFit outcomes → ∃ summary log,
          (runAll compiler s wallMs fixtures).1 = .ok (summary, log) ∧
            summary.outcomes = outcomes) ∧
        (¬ Summary.DurationsFit outcomes →
          (runAll compiler s wallMs fixtures).1 = .error .addOverflow) ∧
        outcomes.map (·.fixture) = fixtures ∧
        (∀ i f o, fixtures[i]? = some f → outcomes[i]? = some o →
          judge f (answerTo compiler s (fixtures.take i) f) = .ok o ∧
            Follows f (answerTo compiler s (fixtures.take i) f).reply o) ∧
        ∀ o ∈ outcomes, o.Coherent := by
  obtain ⟨outcomes, log, hruns, hverdicts⟩ := runEach_of_steady (hc.on fixtures) s
  have hsummary := runAll_of_runEach wallMs hruns
  rw [runAll_traced (hc.on fixtures)]
  refine ⟨rfl, ?_, outcomes, ?_, ?_, ?_, ?_, hverdicts.coherent⟩
  · rw [map_path_callsIn, map_fixture_turns]
    rfl
  · intro hfit
    obtain ⟨duration, hok, -⟩ := Summary.ofOutcomes_of_fit hfit
    rw [hok] at hsummary
    obtain ⟨told, htold⟩ := exists_of_map_fst_eq_ok hsummary
    exact ⟨_, told, htold, rfl⟩
  · intro hfit
    rw [Summary.ofOutcomes_of_not_fit hfit] at hsummary
    exact eq_error_of_map_eq_error hsummary
  · rw [hverdicts.map_fixture, map_fixture_turns]
  · intro i f o hf ho
    have hturn : (turns compiler s fixtures)[i]? =
        some ⟨f, answerTo compiler s (fixtures.take i) f⟩ := by
      rw [getElem?_turns, hf]
      rfl
    have hjudge := hverdicts.getElem? hturn ho
    exact ⟨hjudge, (judged_of_judge hjudge).follows⟩

/-- A compiler that accepts the first path and rejects every later one. The same fixture passes in
its first turn and fails in its second. -/
theorem runAll_law_second_call_rejected :
    let compiler : Compiler Nat := fun n _ =>
      (.ofReply (.exited (some (if n = 0 then 0 else 1)) "out"), n + 1)
    let f : Fixture := ⟨.ofText "add.flang", "add.flang"⟩
    compiler.Steady ∧
      (runAll compiler.traced (0, []) 0 [f, f]).2.2.map (·.path) = [f.path, f.path] ∧
      ∃ o o', (runAll compiler 0 0 [f, f]).1.map (·.1.outcomes) = .ok [o, o'] ∧
        o.status = .passed ∧ o'.failure = some .nonZeroExit := by
  intro compiler f
  have hf : f.isSkipped = false := by decide +kernel
  have hsteady : compiler.Steady := by
    intro n p message h
    cases h
  obtain ⟨-, hcalls, outcomes, hok, -, hfixtures, hfollows, -⟩ :=
    runAll_law hsteady 0 0 [f, f]
  obtain ⟨o, rest, rfl, -, hrest⟩ := List.map_eq_cons_iff.1 hfixtures
  obtain ⟨o', rest', rfl, -, hnil⟩ := List.map_eq_cons_iff.1 hrest
  obtain rfl := List.map_eq_nil_iff.1 hnil
  obtain ⟨hjudge, hfirst⟩ := hfollows 0 f o rfl rfl
  obtain ⟨hjudge', hsecond⟩ := hfollows 1 f o' rfl rfl
  have hstate : compiler.stateAfter 0 (handed [f]) = 1 := by
    rw [handed_of_not_skipped hf]
    rfl
  have hanswer : (answerTo compiler 0 [f] f).reply = .exited (some 1) "out" := by
    rw [answerTo, hstate]
    rfl
  have hzero : o.durationMs = 0 := by cases judged_of_judge hjudge <;> rfl
  have hzero' : o'.durationMs = 0 := by cases judged_of_judge hjudge' <;> rfl
  have hfit : Summary.DurationsFit [o, o'] := by simp [Summary.DurationsFit, hzero, hzero']
  obtain ⟨summary, log, hrun, houtcomes⟩ := hok hfit
  refine ⟨hsteady, ?_, o, o', ?_, hfirst.passed_iff.2 ⟨hf, "out", rfl⟩,
    ((hsecond.exit_iff (some 1) "out").2 ⟨hf, hanswer, by decide⟩).1⟩
  · rw [hcalls]
    simp [hf]
  · rw [hrun, ← houtcomes]
    rfl

end Runner

end Conformance

import Conformance.Proofs.Parallel.Permits
import Conformance.Proofs.Runner.Sequence

/-!
# Parallel runs refine runs in order

Whatever the schedule, a task is settled by its own fixture and the answer to its
own position (`Phase.Accords`), so the tasks of a final state are known, and with
them what joining them gives. The tasks are joined in the order of the fixtures,
so pairing by position gives each fixture what its own task came to
(`State.Final.outcomes?_eq`). The turns of a parallel run
are those of the fixtures with the answers to their positions, and its
invocations are those of the turns, in the order of the schedule. If the replies
depend on the path alone, a run in order has turns with the same replies, and
therefore the same outcomes, durations aside.
-/

namespace Conformance.Parallel

/-- How the task of a fixture ends that is answered by `r`. -/
def settlement (f : Fixture) (r : Response) : Settled :=
  match Runner.judge f r with
  | .ok o => .outcome o
  | .error e => .crashed e.payload

/-- What joining the task of a fixture gives that has a number and is answered by `r`. -/
def joinResult (number : Nat) (f : Fixture) (r : Response) : Except String Outcome :=
  match Runner.judge f r with
  | .ok o => .ok o
  | .error e => .error (joinError number e.payload)

/-- The outcome of a fixture whose task has a number and is answered by `r`. -/
def joined (number : Nat) (f : Fixture) (r : Response) : Outcome :=
  pairOff (joinResult number f r) f

def turns (respond : Nat → Path → Response) (fixtures : List Fixture) : List Runner.Turn :=
  fixtures.mapIdx fun i f => ⟨f, respond i f.path⟩

/-- A phase that the task of a fixture can be in when it is answered by `r`. -/
def Phase.Accords (f : Fixture) (r : Response) : Phase → Prop
  | .waiting => True
  | .admitted => True
  | .invoking => f.isSkipped = false
  | .settled result => result = settlement f r

namespace State

variable {respond : Nat → Path → Response} {s t : State} {i m : Nat}
  {fixtures : List Fixture}

/-- Every task is in a phase that its fixture and its answer allow. -/
def Faithful (respond : Nat → Path → Response) (s : State) : Prop :=
  ∀ (i : Nat) (task : Task), s.tasks[i]? = some task →
    task.phase.Accords task.fixture (respond i task.fixture.path)

theorem faithful_start (respond : Nat → Path → Response) (m : Nat) (fixtures : List Fixture) :
    Faithful respond (start m fixtures) := by
  intro i task hi
  simp only [start, List.getElem?_map, Option.map_eq_some_iff] at hi
  obtain ⟨f, -, rfl⟩ := hi
  trivial

theorem Faithful.set {f : Fixture} {q : Phase} (hs : Faithful respond s)
    (hq : q.Accords f (respond i f.path)) (ht : t.tasks = s.tasks.set i ⟨f, q⟩) :
    Faithful respond t := by
  intro j task hj
  rw [ht, List.getElem?_set] at hj
  by_cases hij : i = j
  · subst hij
    rw [if_pos rfl] at hj
    split at hj
    · cases hj
      exact hq
    · cases hj
  · rw [if_neg hij] at hj
    exact hs j task hj

theorem Faithful.move (hs : Faithful respond s) (h : Move respond s i t) :
    Faithful respond t := by
  cases h with
  | enter hi hfree => exact hs.set (i := i) (q := .admitted) trivial rfl
  | @skip f hi hf =>
      refine hs.set (i := i) (q := .settled _) ?_ rfl
      simp [Phase.Accords, settlement, Runner.judge, hf]
  | invoke hi hf => exact hs.set (i := i) (q := .invoking) hf rfl
  | @finish f o log hi ho =>
      -- only a fixture that is not disabled is ever invoked, so the answer decides
      have hf : f.isSkipped = false := hs i _ hi
      refine hs.set (i := i) (q := .settled _) ?_ rfl
      simp [Phase.Accords, settlement, Runner.judge, hf, ho, Except.map]
  | @crash f e hi he =>
      have hf : f.isSkipped = false := hs i _ hi
      refine hs.set (i := i) (q := .settled _) ?_ rfl
      simp [Phase.Accords, settlement, Runner.judge, hf, he, Except.map]

theorem Reachable.faithful (h : Reachable respond m fixtures s) : Faithful respond s :=
  h.invariant (faithful_start respond m fixtures) fun _ _ _ => Faithful.move

theorem Final.tasks_eq (h : Final respond m fixtures s) (hm : 0 < m) :
    s.tasks = fixtures.mapIdx fun i f => ⟨f, .settled (settlement f (respond i f.path))⟩ := by
  apply List.ext_getElem?
  intro i
  rw [List.getElem?_mapIdx, ← h.reachable.fixtures_eq, List.getElem?_map]
  cases hi : s.tasks[i]? with
  | none => rfl
  | some task =>
      obtain ⟨f, p⟩ := task
      have hover := h.isOver hm _ (List.mem_of_getElem? hi)
      have haccord := h.reachable.faithful i _ hi
      cases p with
      | waiting => cases hover
      | admitted => cases hover
      | invoking => cases hover
      | settled result =>
          have hresult : result = settlement f (respond i f.path) := haccord
          rw [hresult]
          rfl

end State

theorem joined?_settlement (number : Nat) (f : Fixture) (r : Response) :
    Task.joined? number ⟨f, .settled (settlement f r)⟩ = some (joinResult number f r) := by
  unfold settlement joinResult
  cases Runner.judge f r with
  | ok o => rfl
  | error e => rfl

theorem joinAll?_mapIdx (number : Nat → Nat) (answers : Nat → Fixture → Response)
    (fixtures : List Fixture) (k : Nat) :
    joinAll? number k (fixtures.mapIdx fun i f => ⟨f, .settled (settlement f (answers i f))⟩) =
      some (fixtures.mapIdx fun i f => joinResult (number (k + i)) f (answers i f)) := by
  induction fixtures generalizing k answers with
  | nil => rfl
  | cons f fixtures ih =>
      have hrest := ih (fun i => answers (i + 1)) (k + 1)
      rw [List.mapIdx_cons, List.mapIdx_cons, joinAll?, joined?_settlement, hrest]
      simp only [Nat.add_assoc, Nat.add_comm 1]
      rfl

/-- Where tasks are joined in order, what is joined at a position belongs to the fixture there. -/
theorem zipWith_mapIdx {α β γ : Type} (pair : β → α → γ) (result : Nat → α → β) (l : List α) :
    (l.mapIdx result).zipWith pair l = l.mapIdx fun i a => pair (result i a) a := by
  apply List.ext_getElem?
  intro i
  rw [List.getElem?_zipWith, List.getElem?_mapIdx, List.getElem?_mapIdx]
  cases l[i]? with
  | none => rfl
  | some a => rfl

/-- The outcomes of a run do not depend on the schedule: they stand in the order of the fixtures,
and each is given by the answer to its own task. -/
theorem State.Final.outcomes?_eq {respond : Nat → Path → Response} {m : Nat}
    {fixtures : List Fixture} {s : State} (h : Final respond m fixtures s) (hm : 0 < m)
    (number : Nat → Nat) :
    outcomes? number fixtures s.tasks =
      some (fixtures.mapIdx fun i f => joined (number i) f (respond i f.path)) := by
  rw [outcomes?, h.tasks_eq hm, joinAll?_mapIdx, Option.map_some, zipWith_mapIdx]
  simp only [Nat.zero_add, joined]

section Joined

variable {f : Fixture} {r : Response} {o : Outcome}

theorem joined_of_judge (number : Nat) (h : Runner.judge f r = .ok o) :
    joined number f r = o := by
  rw [joined, joinResult, h, pairOff]

theorem joined_of_fault {payload : Payload} (number : Nat) (hf : f.isSkipped = false)
    (hr : r.reply = .fault payload) :
    joined number f r = .captureError f 0 (joinError number payload) := by
  rw [joined, joinResult, Runner.judge_of_fault hf hr]
  rfl

theorem joined_fixture (number : Nat) (f : Fixture) (r : Response) :
    (joined number f r).fixture = f := by
  rw [joined, joinResult]
  cases hjudge : Runner.judge f r with
  | ok o => exact (Runner.judged_of_judge hjudge).fixture_eq
  | error e => rfl

theorem exists_runFixture_of_joined {σ : Type} {compiler : Compiler σ} (number : Nat)
    (hreply : ∀ s, (compiler s f.path).1.reply = r.reply)
    (h : f.isSkipped = true ∨ ∀ message, r.reply ≠ .fault message) (s : σ) :
    ∃ o log, (Runner.runFixture compiler s f).1 = .ok (o, log) ∧
      (joined number f r).untimed = o.untimed := by
  obtain ⟨o, ho⟩ := Runner.judge_of_not_fault h
  have hcompiler : f.isSkipped = true ∨
      ∀ s message, (compiler s f.path).1.reply ≠ .fault message :=
    h.imp_right fun hr s message => (hreply s).symm ▸ hr message
  obtain ⟨o', log, ho', hrun⟩ := Runner.exists_runFixture_eq s hcompiler
  refine ⟨o', log, by rw [hrun], ?_⟩
  rw [joined_of_judge number ho]
  exact Runner.untimed_eq_of_judge (hreply s).symm ho ho'

end Joined

section Turns

variable {respond : Nat → Path → Response} {fixtures : List Fixture}

theorem turns_cons (respond : Nat → Path → Response) (f : Fixture) (fixtures : List Fixture) :
    turns respond (f :: fixtures) =
      ⟨f, respond 0 f.path⟩ :: turns (fun i => respond (i + 1)) fixtures := by
  rw [turns, List.mapIdx_cons]
  rfl

theorem map_fixture_turns (respond : Nat → Path → Response) (fixtures : List Fixture) :
    (turns respond fixtures).map (·.fixture) = fixtures := by
  induction fixtures generalizing respond with
  | nil => rfl
  | cons f fixtures ih => rw [turns_cons, List.map_cons, ih]

/-- If no task crashes, the outcomes are those of the turns. -/
theorem verdicts_turns (respond : Nat → Path → Response) (number : Nat → Nat)
    (h : ∀ f ∈ fixtures, f.isSkipped = true ∨
      ∀ i message, (respond i f.path).reply ≠ .fault message) :
    Runner.Verdicts (turns respond fixtures)
      (fixtures.mapIdx fun i f => joined (number i) f (respond i f.path)) := by
  induction fixtures generalizing respond number with
  | nil => exact .nil
  | cons f fixtures ih =>
      obtain ⟨hf, hrest⟩ := List.forall_mem_cons.1 h
      obtain ⟨o, ho⟩ := Runner.judge_of_not_fault (hf.imp_right fun hr => hr 0)
      rw [turns_cons, List.mapIdx_cons, joined_of_judge (number 0) ho]
      refine .cons ho ?_
      -- behind the first fixture all positions are one higher
      exact ih (fun i => respond (i + 1)) (fun i => number (i + 1)) fun f hf =>
        (hrest f hf).imp_right fun hr i => hr (i + 1)

theorem map_reply_turns {σ : Type} {compiler : Compiler σ} {reply : Path → Reply}
    (hrespond : ∀ i p, (respond i p).reply = reply p)
    (hcompiler : ∀ s p, (compiler s p).1.reply = reply p) (s : σ) :
    (turns respond fixtures).map (fun t => (t.fixture, t.answer.reply)) =
      (Runner.turns compiler s fixtures).map fun t => (t.fixture, t.answer.reply) := by
  induction fixtures generalizing respond s with
  | nil => rfl
  | cons f fixtures ih =>
      rw [turns_cons, Runner.turns, List.map_cons, List.map_cons,
        ih (fun i => hrespond (i + 1)), hrespond, hcompiler]

end Turns

def enabledAt (fixtures : List Fixture) : List Nat :=
  (List.range fixtures.length).filter fun i => fixtures[i]?.any fun f => !f.isSkipped

theorem enabledAt_cons (f : Fixture) (fixtures : List Fixture) :
    enabledAt (f :: fixtures) =
      (if f.isSkipped then [] else [0]) ++ (enabledAt fixtures).map (· + 1) := by
  rw [enabledAt, List.length_cons, List.range_succ_eq_map, List.filter_cons, List.filter_map]
  cases hf : f.isSkipped with
  | true => simp [hf, enabledAt, Function.comp_def]
  | false => simp [hf, enabledAt, Function.comp_def]

theorem callsIn_turns (respond : Nat → Path → Response) (fixtures : List Fixture) :
    Runner.callsIn (turns respond fixtures) =
      (enabledAt fixtures).filterMap fun i =>
        fixtures[i]?.map fun f => ⟨f.path, respond i f.path⟩ := by
  induction fixtures generalizing respond with
  | nil => rfl
  | cons f fixtures ih =>
      rw [turns_cons, Runner.callsIn_cons, ih, enabledAt_cons, List.filterMap_append,
        List.filterMap_map]
      cases hf : f.isSkipped with
      | true => simp [Runner.callsIn, hf]
      | false => simp [Runner.callsIn, hf]

namespace State

variable {respond : Nat → Path → Response} {s : State} {m : Nat} {fixtures : List Fixture}

theorem Final.invoked_perm (h : Final respond m fixtures s) (hm : 0 < m) :
    s.invoked.Perm (enabledAt fixtures) := by
  -- both lists hold every position once, so it is enough to compare their members
  refine (List.perm_ext_iff_of_nodup h.reachable.sound.nodup ?_).2 fun i => ?_
  · exact List.nodup_range.filter _
  · rw [h.mem_invoked hm, enabledAt, List.mem_filter, List.mem_range, Option.any_eq_true]
    constructor
    · rintro ⟨f, hi, hf⟩
      exact ⟨(List.getElem?_eq_some_iff.1 hi).1, f, hi, by simp [hf]⟩
    · rintro ⟨-, f, hi, hf⟩
      exact ⟨f, hi, by simpa using hf⟩

/-- At the end of a schedule the invocations are those of the turns, in some order. -/
theorem Final.calls_perm (h : Final respond m fixtures s) (hm : 0 < m) :
    (s.calls respond).Perm (Runner.callsIn (turns respond fixtures)) := by
  have hcalls : s.calls respond =
      s.invoked.filterMap fun i => fixtures[i]?.map fun f => ⟨f.path, respond i f.path⟩ := by
    simp only [calls, ← h.reachable.fixtures_eq, List.getElem?_map, Option.map_map,
      Function.comp_def]
  rw [hcalls, callsIn_turns]
  exact (h.invoked_perm hm).filterMap _

end State

theorem conclude_fst {number : Nat → Nat} {fixtures : List Fixture} {final : State}
    {outcomes : List Outcome} (h : outcomes? number fixtures final.tasks = some outcomes)
    (requested : UInt64) (wallMs : Nat) :
    (conclude number requested wallMs fixtures final).map (·.1) =
      Summary.ofOutcomes outcomes := by
  rw [conclude, h, Option.getD_some]
  cases Summary.ofOutcomes outcomes with
  | error e => rfl
  | ok summary => rfl

/-- Two runs with the same outcomes, durations aside, end in summaries that say the same. -/
theorem exists_alike {σ : Type} {compiler : Compiler σ} {s s' : σ} {fixtures : List Fixture}
    {number : Nat → Nat} {final : State} {outcomes outcomes' : List Outcome}
    {log' : List Log.Event}
    (h : outcomes? number fixtures final.tasks = some outcomes)
    (h' : Runner.runEach compiler s fixtures = (.ok (outcomes', log'), s'))
    (hsame : outcomes.map Outcome.untimed = outcomes'.map Outcome.untimed)
    (hfit : Summary.DurationsFit outcomes) (hfit' : Summary.DurationsFit outcomes')
    (requested : UInt64) (wallMs wallMs' : Nat) :
    ∃ summary log summary' log',
      conclude number requested wallMs fixtures final = .ok (summary, log) ∧
        (Runner.runAll compiler s wallMs' fixtures).1 = .ok (summary', log') ∧
        summary.Alike summary' := by
  obtain ⟨duration, hok, -⟩ := Summary.ofOutcomes_of_fit hfit
  obtain ⟨duration', hok', -⟩ := Summary.ofOutcomes_of_fit hfit'
  have hsummary := conclude_fst h requested wallMs
  have hsummary' := Runner.runAll_of_runEach wallMs' h'
  rw [hok] at hsummary
  rw [hok'] at hsummary'
  obtain ⟨log, hlog⟩ := Runner.exists_of_map_fst_eq_ok hsummary
  obtain ⟨log', hlog'⟩ := Runner.exists_of_map_fst_eq_ok hsummary'
  exact ⟨_, log, _, log', hlog, hlog', Summary.alike_withDuration duration duration' hsame⟩

/-- A parallel run refines a run in order, for a compiler whose replies depend on the path alone,
those by which its stand-in gives up included. Every schedule ends, and wherever it ends there is
one outcome for each fixture, in the order of the fixtures. Durations aside it is the outcome that
the fixture has when it is run on its own; if its invocation crashed, it is the capture error of
that same fixture with the text the task is joined with. If nothing crashes, a run in order has the
same outcomes, and the two summaries say the same, provided that the durations can be added up. -/
theorem parallel_refines_sequence {σ : Type} {compiler : Compiler σ} {reply : Path → Reply}
    {respond : Nat → Path → Response} {requested : UInt64}
    (hrespond : ∀ i p, (respond i p).reply = reply p)
    (hcompiler : ∀ s p, (compiler s p).1.reply = reply p)
    (hpermits : permits requested ≤ maxPermits) (number : Nat → Nat)
    (fixtures : List Fixture) :
    (WellFounded fun t s : State => State.Step respond s t) ∧
      (∃ final peak, ending respond requested fixtures = .ok (final, peak) ∧
        State.Final respond (permits requested) fixtures final) ∧
      ∀ final, State.Final respond (permits requested) fixtures final →
        ∃ outcomes, outcomes? number fixtures final.tasks = some outcomes ∧
          outcomes.map (·.fixture) = fixtures ∧
          (∀ (i : Nat) (f : Fixture) (o : Outcome), fixtures[i]? = some f → outcomes[i]? = some o →
            (f.isSkipped = true ∨ (∀ message, reply f.path ≠ .fault message) →
              ∀ s, ∃ o' log, (Runner.runFixture compiler s f).1 = .ok (o', log) ∧
                o.untimed = o'.untimed) ∧
            ∀ payload, f.isSkipped = false → reply f.path = .fault payload →
              o = .captureError f 0 (joinError (number i) payload)) ∧
          ((∀ f ∈ fixtures, f.isSkipped = true ∨ ∀ message, reply f.path ≠ .fault message) →
            ∀ s wallMs wallMs', ∃ outcomes' log',
              (Runner.runEach compiler s fixtures).1 = .ok (outcomes', log') ∧
              outcomes.map Outcome.untimed = outcomes'.map Outcome.untimed ∧
              (Summary.DurationsFit outcomes → Summary.DurationsFit outcomes' →
                ∃ summary log summary' log',
                  conclude number requested wallMs fixtures final = .ok (summary, log) ∧
                  (Runner.runAll compiler s wallMs' fixtures).1 = .ok (summary', log') ∧
                  summary.Alike summary')) := by
  refine ⟨State.wellFounded_step respond, State.exists_ending_eq_ok respond hpermits fixtures,
    fun final hfinal => ?_⟩
  have houtcomes := hfinal.outcomes?_eq (permits_pos requested) number
  refine ⟨_, houtcomes, ?_, fun i f o hf ho => ⟨fun hcrash s => ?_, fun payload hs hr => ?_⟩, ?_⟩
  · apply List.ext_getElem?
    intro i
    simp [List.getElem?_mapIdx, joined_fixture, Function.comp_def]
  · rw [List.getElem?_mapIdx, hf] at ho
    cases ho
    exact exists_runFixture_of_joined (number i)
      (fun s => (hcompiler s f.path).trans (hrespond i f.path).symm)
      (hcrash.imp_right fun hr => (hrespond i f.path).symm ▸ hr) s
  · rw [List.getElem?_mapIdx, hf] at ho
    cases ho
    exact joined_of_fault (number i) hs ((hrespond i f.path).trans hr)
  · intro hcalm s wallMs wallMs'
    have hverdicts := verdicts_turns respond number fun f hf =>
      (hcalm f hf).imp_right fun hr i => (hrespond i f.path).symm ▸ hr
    have hsteady : compiler.SteadyOn fixtures := fun f hf =>
      (hcalm f hf).imp_right fun hr s => (hcompiler s f.path).symm ▸ hr
    obtain ⟨outcomes', log', hruns, hverdicts'⟩ := Runner.runEach_of_steady hsteady s
    have hsame := hverdicts.untimed_congr hverdicts' (map_reply_turns hrespond hcompiler s)
    refine ⟨outcomes', log', by rw [hruns], hsame, fun hfit hfit' => ?_⟩
    exact exists_alike houtcomes hruns hsame hfit hfit' requested wallMs wallMs'

/-- One permit and three tasks, two of them for the same fixture; the one between them crashes. -/
theorem parallel_refines_sequence_around_crash :
    let reply : Path → Reply := fun p =>
      if p = .ofText "b.flang" then .fault "boom" else .exited (some 3) "out"
    let respond : Nat → Path → Response := fun i p => ⟨reply p, .ofNat i, []⟩
    let a : Fixture := ⟨.ofText "a.flang", "a.flang"⟩
    let b : Fixture := ⟨.ofText "b.flang", "b.flang"⟩
    ∃ final o o', State.Final respond (permits 0) [a, b, a] final ∧
      outcomes? id [a, b, a] final.tasks =
        some [o, .captureError b 0 (joinError 1 "boom"), o'] ∧
      o.untimed = .failed a 0 (some 3) "out" ∧ o'.untimed = .failed a 0 (some 3) "out" := by
  intro reply respond a b
  have ha : a.isSkipped = false := by decide +kernel
  have hb : b.isSkipped = false := by decide +kernel
  have hreply : reply a.path = .exited (some 3) "out" := by decide +kernel
  let compiler := Compiler.ofFunction fun p => .ofReply (reply p)
  have hcompiler : ∀ s p, (compiler s p).1.reply = reply p := fun _ _ => rfl
  have hrespond : ∀ i p, (respond i p).reply = reply p := fun _ _ => rfl
  have hrun : (Runner.runFixture compiler () a).1.map (·.1) = .ok (.failed a 0 (some 3) "out") := by
    rw [Runner.runFixture_fst, Runner.judge, if_neg (Bool.eq_false_iff.1 ha), Runner.classify,
      hcompiler, hreply]
    rfl
  have hpermits : permits 0 ≤ maxPermits := by decide
  obtain ⟨-, ⟨final, -, -, hfinal⟩, hall⟩ :=
    parallel_refines_sequence hrespond hcompiler hpermits id [a, b, a]
  obtain ⟨outcomes, houtcomes, hfixtures, heach, -⟩ := hall final hfinal
  obtain ⟨o, rest, rfl, -, hrest⟩ := List.map_eq_cons_iff.1 hfixtures
  obtain ⟨o₁, rest', rfl, -, hrest'⟩ := List.map_eq_cons_iff.1 hrest
  obtain ⟨o', rest'', rfl, -, hnil⟩ := List.map_eq_cons_iff.1 hrest'
  obtain rfl := List.map_eq_nil_iff.1 hnil
  have hcalm : ∀ message, reply a.path ≠ .fault message := by simp [hreply]
  obtain ⟨o₀, log, hfirst, hsame⟩ := (heach 0 a o rfl rfl).1 (.inr hcalm) ()
  obtain ⟨o₂, log', hthird, hsame'⟩ := (heach 2 a o' rfl rfl).1 (.inr hcalm) ()
  have hsecond := (heach 1 b o₁ rfl rfl).2 "boom" hb (by decide +kernel)
  rw [hfirst] at hrun
  rw [hfirst] at hthird
  cases hrun
  cases hthird
  exact ⟨final, o, o', hfinal, hsecond ▸ houtcomes, hsame, hsame'⟩

end Conformance.Parallel

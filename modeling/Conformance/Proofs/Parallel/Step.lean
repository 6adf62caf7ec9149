import Conformance.Parallel
import Mathlib.Algebra.GroupWithZero.Nat
import Mathlib.Logic.Relation

/-!
# Steps and schedules of a parallel run

A step moves one task on: it is admitted, it is settled because its fixture is
disabled, it hands its fixture to the compiler, or it is settled by the answer.
`State.Move` lists these moves with the conditions they are made under, and
`State.step_iff_move` says that there are no others, so a property of the moves
is a property of the steps.

A schedule is a chain of steps from the state in which all tasks wait. It is
not bound to any order of the tasks. Every move takes a task closer to its end
(`State.stepsLeft`), so a schedule cannot go on forever.
-/

namespace Conformance.Parallel

def Phase.holdsPermit : Phase → Bool
  | .admitted => true
  | .invoking => true
  | .waiting => false
  | .settled _ => false

def Phase.isSettled : Phase → Bool
  | .settled _ => true
  | _ => false

/-- The most steps a task can still take from a phase. -/
def Phase.stepsLeft : Phase → Nat
  | .waiting => 3
  | .admitted => 2
  | .invoking => 1
  | .settled _ => 0

namespace State

def held (s : State) : Nat := s.tasks.countP (·.phase.holdsPermit)

def stepsLeft (s : State) : Nat := (s.tasks.map (·.phase.stepsLeft)).sum

def isOver (s : State) : Prop := ∀ t ∈ s.tasks, t.phase.isSettled = true

@[simp] theorem takePermit_tasks (s : State) (i : Nat) (f : Fixture) :
    (s.takePermit i f).tasks = s.tasks.set i ⟨f, .admitted⟩ := rfl

@[simp] theorem takePermit_free (s : State) (i : Nat) (f : Fixture) :
    (s.takePermit i f).free = s.free - 1 := rfl

@[simp] theorem takePermit_invoked (s : State) (i : Nat) (f : Fixture) :
    (s.takePermit i f).invoked = s.invoked := rfl

@[simp] theorem settle_tasks (s : State) (i : Nat) (f : Fixture) (r : Settled)
    (log : List Log.Event) :
    (s.settle i f r log).tasks = s.tasks.set i ⟨f, .settled r⟩ := rfl

@[simp] theorem settle_free (s : State) (i : Nat) (f : Fixture) (r : Settled)
    (log : List Log.Event) : (s.settle i f r log).free = s.free + 1 := rfl

@[simp] theorem settle_invoked (s : State) (i : Nat) (f : Fixture) (r : Settled)
    (log : List Log.Event) : (s.settle i f r log).invoked = s.invoked := rfl

@[simp] theorem invoke_tasks (s : State) (i : Nat) (f : Fixture) :
    (s.invoke i f).tasks = s.tasks.set i ⟨f, .invoking⟩ := rfl

@[simp] theorem invoke_free (s : State) (i : Nat) (f : Fixture) :
    (s.invoke i f).free = s.free := rfl

@[simp] theorem invoke_invoked (s : State) (i : Nat) (f : Fixture) :
    (s.invoke i f).invoked = s.invoked ++ [i] := rfl

/-- What a step of task `i` can be, with the conditions it is taken under. -/
inductive Move (respond : Nat → Path → Response) (s : State) (i : Nat) : State → Prop where
  /-- The task takes a free permit. -/
  | enter {f : Fixture} (hi : s.tasks[i]? = some ⟨f, .waiting⟩) (hfree : 0 < s.free) :
      Move respond s i (s.takePermit i f)
  /-- The fixture is disabled, and the task is over without an invocation. -/
  | skip {f : Fixture} (hi : s.tasks[i]? = some ⟨f, .admitted⟩) (hf : f.isSkipped = true) :
      Move respond s i (s.settle i f (.outcome (.skipped f skipReason)) [])
  /-- The fixture is handed to the compiler. -/
  | invoke {f : Fixture} (hi : s.tasks[i]? = some ⟨f, .admitted⟩) (hf : f.isSkipped = false) :
      Move respond s i (s.invoke i f)
  /-- The compiler has answered. -/
  | finish {f : Fixture} {o : Outcome} {log : List Log.Event}
      (hi : s.tasks[i]? = some ⟨f, .invoking⟩)
      (ho : Runner.classify f (respond i f.path) = .ok (o, log)) :
      Move respond s i (s.settle i f (.outcome o) log)
  /-- The compiler stand-in has given up. -/
  | crash {f : Fixture} {e : Fault} (hi : s.tasks[i]? = some ⟨f, .invoking⟩)
      (he : Runner.classify f (respond i f.path) = .error e) :
      Move respond s i (s.settle i f (.crashed e.payload) [])

variable {respond : Nat → Path → Response} {s t : State} {i : Nat}

theorem move_of_advance? (h : s.advance? respond i = some t) : Move respond s i t := by
  unfold advance? at h
  split at h
  · cases h
  next f hi =>
    split at h
    · cases h
    next hfree =>
      cases h
      exact .enter hi (Nat.pos_of_ne_zero hfree)
  next f hi =>
    cases h
    by_cases hf : f.isSkipped = true
    · rw [if_pos hf]
      exact .skip hi hf
    · rw [if_neg hf]
      exact .invoke hi (Bool.eq_false_iff.2 hf)
  next f hi =>
    cases h
    split
    next o log ho => exact .finish hi ho
    next e he => exact .crash hi he
  · cases h

theorem advance?_of_move (h : Move respond s i t) : s.advance? respond i = some t := by
  unfold advance?
  cases h with
  | enter hi hfree => simp [hi, Nat.ne_of_gt hfree]
  | skip hi hf => simp [hi, hf]
  | invoke hi hf => simp [hi, hf]
  | finish hi ho => simp [hi, ho]
  | crash hi he => simp [hi, he]

/-- The steps are the moves of some task. -/
theorem step_iff_move : Step respond s t ↔ ∃ i, Move respond s i t :=
  ⟨fun ⟨i, h⟩ => ⟨i, move_of_advance? h⟩, fun ⟨i, h⟩ => ⟨i, advance?_of_move h⟩⟩

theorem Move.tasks_eq (h : Move respond s i t) :
    ∃ f p q, s.tasks[i]? = some ⟨f, p⟩ ∧ t.tasks = s.tasks.set i ⟨f, q⟩ ∧
      q.stepsLeft < p.stepsLeft := by
  cases h with
  | @enter f hi _ => exact ⟨f, _, _, hi, rfl, by decide⟩
  | @skip f hi _ => exact ⟨f, _, .settled _, hi, rfl, Nat.zero_lt_two⟩
  | @invoke f hi _ => exact ⟨f, _, _, hi, rfl, by decide⟩
  | @finish f _ _ hi _ => exact ⟨f, _, .settled _, hi, rfl, Nat.zero_lt_one⟩
  | @crash f _ hi _ => exact ⟨f, _, .settled _, hi, rfl, Nat.zero_lt_one⟩

theorem sum_map_set_add {α : Type} (weight : α → Nat) {l : List α} {i : Nat} {a b : α}
    (h : l[i]? = some a) :
    ((l.set i b).map weight).sum + weight a = (l.map weight).sum + weight b := by
  induction l generalizing i with
  | nil => simp at h
  | cons x l ih =>
      cases i with
      | zero =>
          have hx : x = a := by simpa using h
          simp only [List.set_cons_zero, List.map_cons, List.sum_cons, hx]
          omega
      | succ i =>
          have hl := ih (i := i) (by simpa using h)
          simp only [List.set_cons_succ, List.map_cons, List.sum_cons]
          omega

theorem countP_set_add {α : Type} (p : α → Bool) {l : List α} {i : Nat} {a b : α}
    (h : l[i]? = some a) :
    (l.set i b).countP p + (if p a then 1 else 0) = l.countP p + (if p b then 1 else 0) := by
  obtain ⟨hlt, hget⟩ := List.getElem?_eq_some_iff.1 h
  have hle : (if p a then 1 else 0) ≤ l.countP p := by
    rw [← hget]
    exact List.boole_getElem_le_countP hlt
  rw [List.countP_set hlt, hget]
  omega

theorem stepsLeft_lt_of_step (h : Step respond s t) : t.stepsLeft < s.stepsLeft := by
  obtain ⟨i, hmove⟩ := step_iff_move.1 h
  obtain ⟨f, p, q, hi, htasks, hlt⟩ := hmove.tasks_eq
  have hsum := sum_map_set_add (fun t : Task => t.phase.stepsLeft) (b := ⟨f, q⟩) hi
  simp only [stepsLeft, htasks]
  simp only at hsum
  omega

/-- No schedule goes on forever. -/
theorem wellFounded_step (respond : Nat → Path → Response) :
    WellFounded fun t s : State => Step respond s t :=
  Subrelation.wf stepsLeft_lt_of_step (measure stepsLeft).wf

/-- The state is reached by some schedule of a run with `m` permits over `fixtures`. -/
def Reachable (respond : Nat → Path → Response) (m : Nat) (fixtures : List Fixture)
    (s : State) : Prop :=
  Relation.ReflTransGen (Step respond) (start m fixtures) s

/-- The state is reached by some schedule, and no task can take a step in it. -/
structure Final (respond : Nat → Path → Response) (m : Nat) (fixtures : List Fixture)
    (s : State) : Prop where
  reachable : Reachable respond m fixtures s
  stuck : ∀ t, ¬ Step respond s t

/-- What holds at the start and is kept by every move holds in every reachable state. -/
theorem Reachable.invariant {m : Nat} {fixtures : List Fixture} {P : State → Prop}
    (h : Reachable respond m fixtures s) (hstart : P (start m fixtures))
    (hmove : ∀ s i t, P s → Move respond s i t → P t) : P s := by
  induction h with
  | refl => exact hstart
  | tail _ hstep ih =>
      obtain ⟨i, hi⟩ := step_iff_move.1 hstep
      exact hmove _ i _ ih hi

theorem Reachable.fixtures_eq {m : Nat} {fixtures : List Fixture}
    (h : Reachable respond m fixtures s) : s.tasks.map (·.fixture) = fixtures := by
  refine h.invariant (P := fun s => s.tasks.map (·.fixture) = fixtures) ?_ ?_
  · simp [start, Function.comp_def]
  · intro s i t hs hmove
    obtain ⟨f, p, q, hi, htasks, -⟩ := hmove.tasks_eq
    have hf : (s.tasks.map (·.fixture))[i]? = some f := by simp [hi]
    obtain ⟨hlt, hget⟩ := List.getElem?_eq_some_iff.1 hf
    rw [htasks, List.map_set, ← hs]
    subst hget
    exact List.set_getElem_self hlt

end State

def Task.canMove (free : Nat) (t : Task) : Bool :=
  match t.phase with
  | .waiting => free ≠ 0
  | .admitted => true
  | .invoking => true
  | .settled _ => false

namespace State

variable {respond : Nat → Path → Response} {s t : State} {i : Nat}

theorem exists_advance?_iff :
    (∃ t, s.advance? respond i = some t) ↔
      ∃ task, s.tasks[i]? = some task ∧ task.canMove s.free = true := by
  unfold advance?
  cases hi : s.tasks[i]? with
  | none => simp
  | some task =>
      obtain ⟨f, phase⟩ := task
      cases phase with
      | waiting => simp [Task.canMove]
      | admitted => simp [Task.canMove]
      | invoking => simp [Task.canMove]
      | settled r => simp [Task.canMove]

/-- No step can be taken exactly if no task can move. -/
theorem stuck_iff :
    (∀ t, ¬ Step respond s t) ↔ ∀ task ∈ s.tasks, task.canMove s.free = false := by
  constructor
  · intro h task htask
    obtain ⟨i, hi⟩ := List.getElem?_of_mem htask
    refine Bool.eq_false_iff.2 fun hmove => ?_
    obtain ⟨t, ht⟩ := exists_advance?_iff.2 ⟨task, hi, hmove⟩
    exact h t ⟨i, ht⟩
  · rintro h t ⟨i, ht⟩
    obtain ⟨task, hi, hmove⟩ := exists_advance?_iff.1 ⟨t, ht⟩
    rw [h task (List.mem_of_getElem? hi)] at hmove
    cases hmove

/-- The task that `drive` picks is one that can move, or the invocation met before. -/
theorem nextTask?_eq_some {free j : Nat} {running : Option Nat} :
    ∀ {i : Nat} {tasks : List Task}, nextTask? free i running tasks = some j →
      running = some j ∨
        ∃ k task, j = i + k ∧ tasks[k]? = some task ∧ task.canMove free = true := by
  intro i tasks h
  induction tasks generalizing i running with
  | nil => exact .inl h
  | cons task tasks ih =>
      -- a pick among the later tasks stands one place further on
      have later : ∀ {r : Option Nat}, nextTask? free (i + 1) r tasks = some j →
          r = some j ∨ ∃ k task', j = i + k ∧ (task :: tasks)[k]? = some task' ∧
            task'.canMove free = true := by
        intro r hr
        rcases ih hr with hrun | ⟨k, task', hj, hk, hmove⟩
        · exact .inl hrun
        · exact .inr ⟨k + 1, task', by omega, by simpa using hk, hmove⟩
      have here : task.canMove free = true → i = j → ∃ k task', j = i + k ∧
          (task :: tasks)[k]? = some task' ∧ task'.canMove free = true :=
        fun hmove hij => ⟨0, task, by omega, rfl, hmove⟩
      unfold nextTask? at h
      split at h
      next hphase => exact .inr (here (by simp [Task.canMove, hphase]) (by simpa using h))
      next hphase =>
        split at h
        · exact later h
        next hfree =>
          exact .inr (here (by simpa [Task.canMove, hphase] using hfree) (by simpa using h))
      next hphase =>
        rcases later h with hrun | hpick
        · cases running with
          | none => exact .inr (here (by simp [Task.canMove, hphase]) (by simpa using hrun))
          | some r => exact .inl (by simpa using hrun)
        · exact .inr hpick
      next r hphase => exact later h

/-- `drive` picks no task only if none can move. -/
theorem nextTask?_eq_none {free : Nat} {running : Option Nat} :
    ∀ {i : Nat} {tasks : List Task}, nextTask? free i running tasks = none →
      running = none ∧ ∀ task ∈ tasks, task.canMove free = false := by
  intro i tasks h
  induction tasks generalizing i running with
  | nil => exact ⟨h, by simp⟩
  | cons task tasks ih =>
      unfold nextTask? at h
      split at h
      · cases h
      next hphase =>
        split at h
        next hfree =>
          obtain ⟨hrun, htasks⟩ := ih h
          refine ⟨hrun, List.forall_mem_cons.2 ⟨?_, htasks⟩⟩
          simp [Task.canMove, hphase, hfree]
        · cases h
      next hphase =>
        obtain ⟨hrun, -⟩ := ih h
        cases running <;> simp at hrun
      next r hphase =>
        obtain ⟨hrun, htasks⟩ := ih h
        refine ⟨hrun, List.forall_mem_cons.2 ⟨?_, htasks⟩⟩
        simp [Task.canMove, hphase]

/-- `drive` follows a schedule to its end if its fuel lasts for all the steps that are left. -/
theorem drive_final {m : Nat} {fixtures : List Fixture} (fuel peak : Nat)
    (h : Reachable respond m fixtures s) (hfuel : s.stepsLeft ≤ fuel) :
    Final respond m fixtures (s.drive respond fuel peak).1 := by
  induction fuel generalizing s peak with
  | zero =>
      refine ⟨h, fun t ht => ?_⟩
      have hlt : t.stepsLeft < s.stepsLeft := stepsLeft_lt_of_step ht
      omega
  | succ fuel ih =>
      unfold drive
      cases hpick : nextTask? s.free 0 none s.tasks with
      | none =>
          obtain ⟨-, hstuck⟩ := nextTask?_eq_none hpick
          exact ⟨h, stuck_iff.2 hstuck⟩
      | some j =>
          obtain hrun | ⟨k, task, hj, hk, hmove⟩ := nextTask?_eq_some hpick
          · cases hrun
          have hjk : j = k := by omega
          have hadvance : ∃ t, s.advance? respond k = some t :=
            exists_advance?_iff.2 ⟨task, hk, hmove⟩
          obtain ⟨t, ht⟩ := hadvance
          have hstep : Step respond s t := ⟨k, ht⟩
          have hlt := stepsLeft_lt_of_step hstep
          simp only [Option.bind_some, hjk, ht]
          exact ih _ (h.tail hstep) (by omega)

theorem stepsLeft_start (m : Nat) (fixtures : List Fixture) :
    (start m fixtures).stepsLeft = 3 * fixtures.length := by
  induction fixtures with
  | nil => rfl
  | cons f fixtures ih =>
      simp only [stepsLeft, start, List.map_cons, List.sum_cons, List.length_cons] at ih ⊢
      rw [ih]
      simp only [Phase.stepsLeft]
      omega

/-- A run ends in the last state of a schedule if its permits can be had. -/
theorem exists_ending_eq_ok (respond : Nat → Path → Response) {requested : UInt64}
    (h : permits requested ≤ maxPermits) (fixtures : List Fixture) :
    ∃ final peak, ending respond requested fixtures = .ok (final, peak) ∧
      Final respond (permits requested) fixtures final := by
  refine ⟨_, _, if_neg (Nat.not_lt.2 h), ?_⟩
  exact drive_final _ _ .refl (Nat.le_of_eq (stepsLeft_start _ _))

end State

end Conformance.Parallel

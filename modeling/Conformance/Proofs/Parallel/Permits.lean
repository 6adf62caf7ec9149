import Conformance.Proofs.Parallel.Step
import Mathlib.Data.List.Nodup

/-!
# Permits and invocations in a parallel run

`State.Sound m s` is what every schedule keeps: the free permits and those held
by tasks are `m` together, and the tasks listed as invoked are exactly the tasks
that got as far as an invocation, each listed once. A task that crashes gives
its permit back like any other, so crashed tasks need no case of their own.

From this follow the bound on the invocations in flight, the absence of
deadlocks, and the number of invocations at the end.
-/

namespace Conformance.Parallel

/-- The task has got as far as handing its fixture to the compiler. A disabled
fixture is settled without that. -/
def Task.wasInvoked (t : Task) : Bool :=
  match t.phase with
  | .waiting => false
  | .admitted => false
  | .invoking => !t.fixture.isSkipped
  | .settled _ => !t.fixture.isSkipped

theorem Task.isSkipped_of_wasInvoked {t : Task} (h : t.wasInvoked = true) :
    t.fixture.isSkipped = false := by
  unfold wasInvoked at h
  split at h
  · cases h
  · cases h
  · simpa using h
  · simpa using h

namespace State

/-- What holds in every state of a run with `m` permits. -/
structure Sound (m : Nat) (s : State) : Prop where
  permits : s.free + s.held = m
  nodup : s.invoked.Nodup
  mem_invoked : ∀ j, j ∈ s.invoked ↔
    ∃ task, s.tasks[j]? = some task ∧ task.wasInvoked = true

variable {respond : Nat → Path → Response} {s t : State} {i m : Nat}
  {fixtures : List Fixture}

theorem sound_start (m : Nat) (fixtures : List Fixture) : Sound m (start m fixtures) where
  permits := by
    have hheld : (start m fixtures).held = 0 := by
      simp [held, start, Phase.holdsPermit]
    rw [hheld]
    rfl
  nodup := List.nodup_nil
  mem_invoked := by
    intro j
    constructor
    · intro hj
      cases hj
    · rintro ⟨task, hj, hinvoked⟩
      simp only [start, List.getElem?_map, Option.map_eq_some_iff] at hj
      obtain ⟨f, -, rfl⟩ := hj
      cases hinvoked

theorem held_set {f : Fixture} {p q : Phase} (hi : s.tasks[i]? = some ⟨f, p⟩)
    (ht : t.tasks = s.tasks.set i ⟨f, q⟩) :
    t.held + (if p.holdsPermit then 1 else 0) = s.held + (if q.holdsPermit then 1 else 0) := by
  rw [held, ht]
  exact countP_set_add (fun t : Task => t.phase.holdsPermit) hi

theorem exists_wasInvoked_set {tasks : List Task} {f : Fixture} {p q : Phase} (j : Nat)
    (hi : tasks[i]? = some ⟨f, p⟩) :
    (∃ task, (tasks.set i ⟨f, q⟩)[j]? = some task ∧ task.wasInvoked = true) ↔
      if j = i then Task.wasInvoked ⟨f, q⟩ = true
      else ∃ task, tasks[j]? = some task ∧ task.wasInvoked = true := by
  obtain ⟨hlt, -⟩ := List.getElem?_eq_some_iff.1 hi
  by_cases hj : j = i
  · subst hj
    simp [List.getElem?_set_self hlt]
  · rw [if_neg hj, List.getElem?_set_ne (Ne.symm hj)]

/-- A move that does not invoke leaves the list of invoked tasks right if the task that moves was
invoked before exactly if it is afterwards. -/
theorem mem_invoked_of_same {f : Fixture} {p q : Phase} (hs : Sound m s)
    (hi : s.tasks[i]? = some ⟨f, p⟩)
    (hsame : Task.wasInvoked ⟨f, p⟩ = Task.wasInvoked ⟨f, q⟩) (j : Nat) :
    j ∈ s.invoked ↔
      ∃ task, (s.tasks.set i ⟨f, q⟩)[j]? = some task ∧ task.wasInvoked = true := by
  rw [exists_wasInvoked_set j hi, hs.mem_invoked]
  by_cases hj : j = i
  · subst hj
    rw [if_pos rfl, ← hsame, hi]
    simp
  · rw [if_neg hj]

/-- A task that holds a permit may be settled in any way: its permit is given back. -/
theorem Sound.settle {f : Fixture} {p : Phase} (hs : Sound m s)
    (hi : s.tasks[i]? = some ⟨f, p⟩) (hp : p.holdsPermit = true) (r : Settled)
    (log : List Log.Event)
    (hsame : Task.wasInvoked ⟨f, p⟩ = Task.wasInvoked ⟨f, .settled r⟩) :
    Sound m (s.settle i f r log) := by
  refine ⟨?_, hs.nodup, mem_invoked_of_same hs hi hsame⟩
  have hpermits := hs.permits
  have hheld := held_set (t := s.settle i f r log) hi rfl
  rw [if_pos hp, if_neg (by simp [Phase.holdsPermit])] at hheld
  rw [settle_free]
  omega

theorem Sound.move (hs : Sound m s) (h : Move respond s i t) : Sound m t := by
  have hpermits := hs.permits
  cases h with
  | @enter f hi hfree =>
      refine ⟨?_, hs.nodup, mem_invoked_of_same hs hi rfl⟩
      have hheld : (s.takePermit i f).held = s.held + 1 := by
        simpa [Phase.holdsPermit] using held_set (t := s.takePermit i f) hi rfl
      rw [takePermit_free]
      omega
  | @skip f hi hf => exact hs.settle hi rfl _ _ (by simp [Task.wasInvoked, hf])
  | @invoke f hi hf =>
      have hheld : (s.invoke i f).held = s.held := by
        simpa [Phase.holdsPermit] using held_set (t := s.invoke i f) hi rfl
      have hnew : i ∉ s.invoked := by
        rw [hs.mem_invoked, hi]
        simp [Task.wasInvoked]
      refine ⟨?_, ?_, fun j => ?_⟩
      · rw [invoke_free, hheld]
        exact hpermits
      · rw [invoke_invoked, ← List.concat_eq_append]
        exact hs.nodup.concat hnew
      · rw [invoke_invoked, invoke_tasks, exists_wasInvoked_set j hi, List.mem_append,
          List.mem_singleton]
        by_cases hj : j = i
        · simp [hj, Task.wasInvoked, hf]
        · simp [hj, hs.mem_invoked]
  | finish hi ho => exact hs.settle hi rfl _ _ rfl
  | crash hi he => exact hs.settle hi rfl _ _ rfl

theorem Reachable.sound (h : Reachable respond m fixtures s) : Sound m s :=
  h.invariant (sound_start m fixtures) fun _ _ _ => Sound.move

theorem inFlight_le_held (s : State) : s.inFlight ≤ s.held := by
  refine List.countP_mono_left fun task _ h => ?_
  have hphase : task.phase = .invoking := by simpa using h
  simp [hphase, Phase.holdsPermit]

/-- As long as there is a permit at all, a task that is not over leaves some task that can move:
either a task holds a permit, or all permits are free. -/
theorem Sound.exists_canMove (hs : Sound m s) (hm : 0 < m)
    (h : ∃ task ∈ s.tasks, task.phase.isSettled = false) :
    ∃ task ∈ s.tasks, task.canMove s.free = true := by
  by_cases hheld : s.held = 0
  · have hfree : s.free ≠ 0 := by
      have hpermits := hs.permits
      omega
    obtain ⟨task, htask, hphase⟩ := h
    refine ⟨task, htask, ?_⟩
    cases hp : task.phase with
    | waiting => simpa [Task.canMove, hp] using hfree
    | admitted => simp [Task.canMove, hp]
    | invoking => simp [Task.canMove, hp]
    | settled r => simp [hp, Phase.isSettled] at hphase
  · obtain ⟨task, htask, hphase⟩ := List.countP_pos_iff.1 (Nat.pos_of_ne_zero hheld)
    refine ⟨task, htask, ?_⟩
    cases hp : task.phase with
    | waiting => simp [hp, Phase.holdsPermit] at hphase
    | admitted => simp [Task.canMove, hp]
    | invoking => simp [Task.canMove, hp]
    | settled r => simp [hp, Phase.holdsPermit] at hphase

theorem Final.isOver (h : Final respond m fixtures s) (hm : 0 < m) : s.isOver := by
  intro task htask
  by_contra hphase
  obtain ⟨other, hother, hmove⟩ := h.reachable.sound.exists_canMove hm
    ⟨task, htask, Bool.eq_false_iff.2 hphase⟩
  rw [stuck_iff.1 h.stuck other hother] at hmove
  cases hmove

/-- The tasks that have been invoked at the end are those of the fixtures that are not disabled. -/
theorem Final.mem_invoked (h : Final respond m fixtures s) (hm : 0 < m) (j : Nat) :
    j ∈ s.invoked ↔ ∃ f, fixtures[j]? = some f ∧ f.isSkipped = false := by
  rw [h.reachable.sound.mem_invoked, ← h.reachable.fixtures_eq]
  simp only [List.getElem?_map, Option.map_eq_some_iff]
  constructor
  · rintro ⟨task, hj, hinvoked⟩
    exact ⟨task.fixture, ⟨task, hj, rfl⟩, Task.isSkipped_of_wasInvoked hinvoked⟩
  · rintro ⟨f, ⟨task, hj, rfl⟩, hf⟩
    refine ⟨task, hj, ?_⟩
    have hover := h.isOver hm task (List.mem_of_getElem? hj)
    cases hp : task.phase <;> simp [Phase.isSettled, hp] at hover
    simp [Task.wasInvoked, hp, hf]

end State

theorem permits_pos (requested : UInt64) : 0 < permits requested :=
  Nat.lt_of_lt_of_le Nat.zero_lt_one (Nat.le_max_left 1 _)

namespace State

/-- The permit protocol is safe under every schedule: permits are neither lost nor made, no more
invocations are in flight than there are permits, no fixture is handed to the compiler twice and no
disabled one at all, and as long as a task is not over some task can take a step, whatever tasks
have crashed before. Where no step is left, every task is over and every fixture that is not
disabled was handed to the compiler once. -/
theorem permit_protocol_safe (respond : Nat → Path → Response) (requested : UInt64)
    (fixtures : List Fixture) (s : State)
    (h : Reachable respond (permits requested) fixtures s) :
    s.free + s.held = max 1 requested.toNat ∧
      s.inFlight ≤ max 1 requested.toNat ∧
      (∀ j, s.invoked.count j ≤ 1) ∧
      (∀ j ∈ s.invoked, ∃ f, fixtures[j]? = some f ∧ f.isSkipped = false) ∧
      ((∃ task ∈ s.tasks, task.phase.isSettled = false) → ∃ t, Step respond s t) ∧
      ((∀ t, ¬ Step respond s t) →
        (∀ task ∈ s.tasks, task.phase.isSettled = true) ∧
          ∀ j f, fixtures[j]? = some f → f.isSkipped = false → s.invoked.count j = 1) := by
  have hsound := h.sound
  refine ⟨hsound.permits, ?_, ?_, ?_, ?_, ?_⟩
  · have hle := inFlight_le_held s
    have hpermits := hsound.permits
    unfold permits at hpermits
    omega
  · exact List.nodup_iff_count_le_one.1 hsound.nodup
  · intro j hj
    obtain ⟨task, htask, hinvoked⟩ := (hsound.mem_invoked j).1 hj
    refine ⟨task.fixture, ?_, Task.isSkipped_of_wasInvoked hinvoked⟩
    rw [← h.fixtures_eq, List.getElem?_map, htask]
    rfl
  · intro hopen
    obtain ⟨task, htask, hmove⟩ := hsound.exists_canMove (permits_pos requested) hopen
    obtain ⟨i, hi⟩ := List.getElem?_of_mem htask
    obtain ⟨t, ht⟩ := exists_advance?_iff.2 ⟨task, hi, hmove⟩
    exact ⟨t, i, ht⟩
  · intro hstuck
    have hfinal : Final respond (permits requested) fixtures s := ⟨h, hstuck⟩
    refine ⟨hfinal.isOver (permits_pos requested), fun j f hj hf => ?_⟩
    have hmem := (hfinal.mem_invoked (permits_pos requested) j).2 ⟨f, hj, hf⟩
    exact List.count_eq_one_of_mem hsound.nodup hmem

/-- No permit is asked for, so there is one. The second task has taken it and crashed: the permit is
free again, and the first task can go on. -/
theorem permit_protocol_safe_after_crash :
    ∃ s, Reachable (fun _ _ => .ofReply (.fault "boom")) (permits 0)
        (List.replicate 2 ⟨.ofText "add.flang", "add.flang"⟩) s ∧
      s.tasks.map (·.phase) = [.waiting, .settled (.crashed "boom")] ∧
      s.free + s.held = 1 ∧ s.inFlight ≤ 1 ∧ s.invoked.count 1 ≤ 1 ∧
      ∃ t, Step (fun _ _ => .ofReply (.fault "boom")) s t := by
  have hf : Fixture.isSkipped ⟨.ofText "add.flang", "add.flang"⟩ = false := by decide +kernel
  have hreach := ((Relation.ReflTransGen.refl (r := Step fun _ _ => .ofReply (.fault "boom"))
      (a := start (permits 0) (List.replicate 2 ⟨.ofText "add.flang", "add.flang"⟩))).tail
    (step_iff_move.2 ⟨1, .enter rfl (permits_pos 0)⟩)).tail
    (step_iff_move.2 ⟨1, .invoke rfl hf⟩) |>.tail
    (step_iff_move.2 ⟨1, .crash rfl rfl⟩)
  obtain ⟨hpermits, hflight, honce, -, hgo, -⟩ := permit_protocol_safe _ 0 _ _ hreach
  exact ⟨_, hreach, rfl, hpermits, hflight, honce 1, hgo ⟨_, .head _, rfl⟩⟩

end State

end Conformance.Parallel

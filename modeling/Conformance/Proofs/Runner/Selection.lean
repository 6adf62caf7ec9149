import Conformance.Proofs.Fixture.Selection
import Conformance.Proofs.Parallel.Refinement

/-!
# Selecting fixtures before a run and after it

If the replies of a compiler depend on the path alone, every outcome of a run is
settled by its own fixture, durations aside, whether the fixtures ran in order or
in parallel and under whatever schedule (`Finishes.settles`). So it makes no
difference whether fixtures are selected before a run or their outcomes after it,
except for the compiler, which is handed the selected fixtures only.
-/

namespace Conformance

/-- The outcomes that a run over fixtures ended with and the paths that it handed to the compiler.
The run was made in order, or in parallel with any number of permits and under any schedule. -/
inductive Finishes {σ : Type} (compiler : Compiler σ) (respond : Nat → Path → Response)
    (fixtures : List Fixture) : List Outcome → List Path → Prop where
  | inOrder {s s' : σ} {outcomes : List Outcome} {log : List Log.Event} {calls : List Call}
      (h : Runner.runEach compiler.traced (s, []) fixtures = (.ok (outcomes, log), s', calls)) :
      Finishes compiler respond fixtures outcomes (calls.map (·.path))
  | inParallel {requested : UInt64} {number : Nat → Nat} {final : Parallel.State}
      {outcomes : List Outcome}
      (hfinal : Parallel.State.Final respond (Parallel.permits requested) fixtures final)
      (h : Parallel.outcomes? number fixtures final.tasks = some outcomes) :
      Finishes compiler respond fixtures outcomes ((final.calls respond).map (·.path))

/-- The outcome is the one of the fixture for the reply to its path, durations aside. -/
def Settles (reply : Path → Reply) (f : Fixture) (o : Outcome) : Prop :=
  o.fixture = f ∧ Runner.judge f (.ofReply (reply f.path)) = .ok o.untimed

section Settles

variable {reply : Path → Reply} {fixtures : List Fixture} {outcomes outcomes' : List Outcome}

theorem Settles.untimed_eq {f : Fixture} {o o' : Outcome} (h : Settles reply f o)
    (h' : Settles reply f o') : o.untimed = o'.untimed := by
  have heq := h.2.symm.trans h'.2
  simpa using heq

theorem settles_of_judge {f : Fixture} {r : Response} {o : Outcome}
    (hreply : r.reply = reply f.path) (h : Runner.judge f r = .ok o) : Settles reply f o := by
  refine ⟨(Runner.judged_of_judge h).fixture_eq, ?_⟩
  rw [← hreply, ← Runner.map_untimed_judge, h]
  rfl

theorem forall₂_settles_of_verdicts {turns : List Runner.Turn}
    (h : Runner.Verdicts turns outcomes)
    (hreply : ∀ t ∈ turns, t.answer.reply = reply t.fixture.path) :
    List.Forall₂ (Settles reply) (turns.map (·.fixture)) outcomes := by
  induction h with
  | nil => exact .nil
  | cons hjudge _ ih =>
      obtain ⟨hhead, hrest⟩ := List.forall_mem_cons.1 hreply
      exact .cons (settles_of_judge hhead hjudge) (ih hrest)

theorem map_untimed_of_settles (h : List.Forall₂ (Settles reply) fixtures outcomes)
    (h' : List.Forall₂ (Settles reply) fixtures outcomes') :
    outcomes.map Outcome.untimed = outcomes'.map Outcome.untimed := by
  induction h generalizing outcomes' with
  | nil =>
      cases h'
      rfl
  | cons hhead _ ih =>
      cases h' with
      | cons hhead' hrest' =>
          rw [List.map_cons, List.map_cons, hhead.untimed_eq hhead', ih hrest']

theorem filter_settles (p : Fixture → Bool) (h : List.Forall₂ (Settles reply) fixtures outcomes) :
    List.Forall₂ (Settles reply) (fixtures.filter p) (outcomes.filter fun o => p o.fixture) := by
  refine List.rel_filter (fun f o hsettles => ?_) h
  simp [hsettles.1]

end Settles

section Finishes

variable {σ : Type} {compiler : Compiler σ} {reply : Path → Reply}
  {respond : Nat → Path → Response} {fixtures : List Fixture} {outcomes : List Outcome}
  {paths : List Path}

theorem reply_of_mem_turns (hcompiler : ∀ s p, (compiler s p).1.reply = reply p) {s : σ}
    {t : Runner.Turn} (h : t ∈ Runner.turns compiler s fixtures) :
    t.answer.reply = reply t.fixture.path := by
  induction fixtures generalizing s with
  | nil => cases h
  | cons f fixtures ih =>
      rcases List.mem_cons.1 h with rfl | hrest
      · exact hcompiler s f.path
      · exact ih hrest

theorem reply_of_mem_parallel_turns (hrespond : ∀ i p, (respond i p).reply = reply p)
    {t : Runner.Turn} (h : t ∈ Parallel.turns respond fixtures) :
    t.answer.reply = reply t.fixture.path := by
  induction fixtures generalizing respond with
  | nil => cases h
  | cons f fixtures ih =>
      rw [Parallel.turns_cons] at h
      rcases List.mem_cons.1 h with rfl | hrest
      · exact hrespond 0 f.path
      · exact ih (fun i => hrespond (i + 1)) hrest

theorem steady_of_reply (hcompiler : ∀ s p, (compiler s p).1.reply = reply p)
    (hcalm : ∀ p message, reply p ≠ .fault message) : compiler.Steady :=
  fun s p message => hcompiler s p ▸ hcalm p message

/-- However a run was made, its outcomes are settled by the fixtures, and the compiler was handed
the fixtures that are not disabled. -/
theorem Finishes.settles (hcompiler : ∀ s p, (compiler s p).1.reply = reply p)
    (hrespond : ∀ i p, (respond i p).reply = reply p)
    (hcalm : ∀ p message, reply p ≠ .fault message)
    (h : Finishes compiler respond fixtures outcomes paths) :
    List.Forall₂ (Settles reply) fixtures outcomes ∧ paths.Perm (Runner.handed fixtures) := by
  cases h with
  | @inOrder s s' _ log calls h =>
      have hsteady := steady_of_reply hcompiler hcalm
      obtain ⟨outcomes', log', hruns, hverdicts⟩ := Runner.runEach_of_steady (hsteady.on fixtures) s
      rw [Runner.runEach_traced (hsteady.on fixtures), hruns] at h
      simp only [Prod.mk.injEq, Except.ok.injEq, List.nil_append] at h
      obtain ⟨⟨rfl, -⟩, -, rfl⟩ := h
      have hsettles := forall₂_settles_of_verdicts hverdicts fun t ht =>
        reply_of_mem_turns hcompiler ht
      rw [Runner.map_fixture_turns] at hsettles
      refine ⟨hsettles, ?_⟩
      rw [Runner.map_path_callsIn, Runner.map_fixture_turns]
  | @inParallel requested number final _ hfinal h =>
      have hpositive := Parallel.permits_pos requested
      have hsteady : ∀ f ∈ fixtures, f.isSkipped = true ∨
          ∀ i message, (respond i f.path).reply ≠ .fault message :=
        fun f _ => .inr fun i message => hrespond i f.path ▸ hcalm f.path message
      have hverdicts := Parallel.verdicts_turns respond number hsteady
      rw [hfinal.outcomes?_eq hpositive number, Option.some.injEq] at h
      subst h
      have hsettles := forall₂_settles_of_verdicts hverdicts fun t ht =>
        reply_of_mem_parallel_turns hrespond ht
      rw [Parallel.map_fixture_turns] at hsettles
      refine ⟨hsettles, ?_⟩
      have hcalls := (hfinal.calls_perm hpositive).map (·.path)
      rwa [Runner.map_path_callsIn, Parallel.map_fixture_turns] at hcalls

end Finishes

/-- Selecting fixtures commutes with running them, for a compiler whose replies depend on the path
alone and that never gives up. A run over the selected fixtures, in order or in parallel under any
schedule, has an outcome for each of them and is summed up from these. Durations aside they are the
outcomes of any run over all the fixtures, restricted to the fixtures whose identifiers contain one
of the patterns, or to all if there are no patterns; and the compiler is handed the paths of the
selected fixtures that are not disabled and no others. The selection depends on the set of the
patterns alone, one more pattern never drops a fixture unless it is the first, and selecting by two
lists of patterns in turn keeps exactly the fixtures that each of them selects. -/
theorem selecting_commutes_with_running {σ : Type} {compiler : Compiler σ} {reply : Path → Reply}
    {respond respond' : Nat → Path → Response}
    (hcompiler : ∀ s p, (compiler s p).1.reply = reply p)
    (hrespond : ∀ i p, (respond i p).reply = reply p)
    (hrespond' : ∀ i p, (respond' i p).reply = reply p)
    (hcalm : ∀ p message, reply p ≠ .fault message)
    (patterns : List String) (fixtures : List Fixture) :
    let selected := Fixture.select patterns fixtures
    (∀ s wallMs, ∃ kept log s' calls,
      Runner.runEach compiler.traced (s, []) selected = (.ok (kept, log), s', calls) ∧
        (Runner.runAll compiler s wallMs selected).1.map (·.1) = Summary.ofOutcomes kept) ∧
      (∀ requested, Parallel.permits requested ≤ maxPermits → ∃ final peak,
        Parallel.ending respond requested selected = .ok (final, peak) ∧
          Parallel.State.Final respond (Parallel.permits requested) selected final) ∧
      (∀ requested final, Parallel.State.Final respond (Parallel.permits requested) selected final →
        ∀ number wallMs, ∃ kept, Parallel.outcomes? number selected final.tasks = some kept ∧
          (Parallel.conclude number requested wallMs selected final).map (·.1) =
            Summary.ofOutcomes kept) ∧
      (∀ kept paths all paths', Finishes compiler respond selected kept paths →
        Finishes compiler respond' fixtures all paths' →
          kept.map Outcome.untimed =
            (all.filter fun o => Fixture.isSelected patterns o.fixture).map Outcome.untimed ∧
          paths.Perm ((selected.filter fun f => !f.isSkipped).map (·.path))) ∧
      (∀ f, Fixture.isSelected patterns f = true ↔
        patterns = [] ∨ ∃ p ∈ patterns, p.toList <:+: f.id.toList) ∧
      (∀ patterns', (∀ p, p ∈ patterns ↔ p ∈ patterns') →
        selected = Fixture.select patterns' fixtures) ∧
      (∀ p, patterns ≠ [] → selected.Sublist (Fixture.select (p :: patterns) fixtures)) ∧
      ∀ patterns', Fixture.select patterns' selected = fixtures.filter fun f =>
        Fixture.isSelected patterns' f && Fixture.isSelected patterns f := by
  intro selected
  refine ⟨fun s wallMs => ?_, fun requested hpermits => ?_,
    fun requested final hfinal number wallMs => ?_,
    fun kept paths all paths' hkept hall => ?_, fun f => Fixture.isSelected_iff,
    fun patterns' h => Fixture.select_congr h fixtures, fun p hne => ?_,
    fun patterns' => Fixture.select_select patterns patterns' fixtures⟩
  · have hsteady := steady_of_reply hcompiler hcalm
    obtain ⟨kept, log, hruns, -⟩ := Runner.runEach_of_steady (hsteady.on selected) s
    have htraced := Runner.runEach_traced (hsteady.on selected) s []
    rw [hruns] at htraced
    exact ⟨kept, log, _, _, htraced, Runner.runAll_of_runEach wallMs hruns⟩
  · exact Parallel.State.exists_ending_eq_ok respond hpermits selected
  · have houtcomes := hfinal.outcomes?_eq (Parallel.permits_pos requested) number
    exact ⟨_, houtcomes, Parallel.conclude_fst houtcomes requested wallMs⟩
  · obtain ⟨hsettled, hpaths⟩ := hkept.settles hcompiler hrespond hcalm
    have hall' := filter_settles (Fixture.isSelected patterns)
      (hall.settles hcompiler hrespond' hcalm).1
    exact ⟨map_untimed_of_settles hsettled hall', hpaths⟩
  · exact Fixture.select_sublist_select hne (List.subset_cons_self p patterns) fixtures

/-- One fixture stands twice in the suite and is rejected. Selected by two patterns, of which only
one is found, it is run twice in parallel and nothing else is. -/
theorem selecting_commutes_with_running_twice :
    let b : Fixture := ⟨.ofText "b.flang", "b.flang"⟩
    let a : Fixture := ⟨.ofText "a.flang", "a.flang"⟩
    let reply : Path → Reply := fun p =>
      if p = b.path then .exited (some 3) "out" else .exited (some 0) ""
    let respond : Nat → Path → Response := fun i p => ⟨reply p, .ofNat i, []⟩
    let selected := Fixture.select ["b.", "z"] [b, a, b]
    ∃ final kept, Parallel.State.Final respond (Parallel.permits 2) selected final ∧
      Parallel.outcomes? id selected final.tasks = some kept ∧
      kept.map Outcome.untimed = [.failed b 0 (some 3) "out", .failed b 0 (some 3) "out"] ∧
      ((final.calls respond).map (·.path)).Perm [b.path, b.path] := by
  intro b a reply respond selected
  let compiler := Compiler.ofFunction fun p => .ofReply (reply p)
  have hcalm : ∀ p message, reply p ≠ .fault message := by
    intro p message
    simp only [reply]
    split <;> simp
  have hb : b.isSkipped = false := by decide +kernel
  have ha : a.isSkipped = false := by decide +kernel
  have hselected : Fixture.select ["b.", "z"] [b, a, b] = [b, b] := by decide +kernel
  have hall : Fixture.isSelected ["b.", "z"] b = true ∧
      Fixture.isSelected ["b.", "z"] a = false := by decide +kernel
  have hcompiler : ∀ s p, (compiler s p).1.reply = reply p := fun _ _ => rfl
  have hrespond : ∀ i p, (respond i p).reply = reply p := fun _ _ => rfl
  obtain ⟨-, hends, hfinishes, hcommutes, -⟩ := selecting_commutes_with_running hcompiler hrespond
    hrespond hcalm ["b.", "z"] [b, a, b]
  obtain ⟨final, -, -, hfinal⟩ := hends 2 (by decide)
  obtain ⟨kept, hkept, -⟩ := hfinishes 2 final hfinal id 0
  have hreplyb : (compiler () b.path).1 = .ofReply (.exited (some 3) "out") := by
    simp [compiler, Compiler.ofFunction, reply]
  have hreplya : (compiler () a.path).1 = .ofReply (.exited (some 0) "") := by
    have hne : a.path ≠ b.path := by decide +kernel
    simp [compiler, Compiler.ofFunction, reply, hne]
  have hrun : ∃ log calls, Runner.runEach compiler.traced ((), []) [b, a, b] =
      (.ok ([.failed b 0 (some 3) "out", .passed a 0, .failed b 0 (some 3) "out"], log), (),
        calls) := by
    simp only [Runner.runEach, Runner.runFixture, hb, ha, Compiler.traced, hreplya, hreplyb]
    exact ⟨_, _, rfl⟩
  obtain ⟨log, calls, hrun⟩ := hrun
  obtain ⟨hsame, hpaths⟩ := hcommutes kept _ _ _ (.inParallel hfinal hkept) (.inOrder hrun)
  refine ⟨final, kept, hfinal, hkept, ?_, ?_⟩
  · rw [hsame]
    simp [Outcome.failed, Outcome.passed, hall, Outcome.untimed]
  · simpa [hselected, hb] using hpaths

end Conformance

import Conformance.Proofs.Parallel.Refinement
import Conformance.Proofs.Program.Plan

/-!
# The exit status of a run

`RunsTo` lists the transcripts that the `run` command can leave: under any
schedule, for any history of the compiler, and whatever the compiler makes of
the files before the report is written. The command carries out one of these
(`runsTo_runSuite`). However it goes, running the fixtures of a plan gives a list
of turns (`Executes.exists_turns`), and the exit status is read off it: zero if
everything that was handed to the compiler was accepted and the report, if one
was asked for, was written.
-/

namespace Conformance

namespace StoreError

theorem fullMessage_starts (e : StoreError) :
    ∃ start rest : String, e.fullMessage = start ++ rest ∧ 1 ≤ start.toList.length ∧
      "No fixtures match filters".toList.take 1 ≠ start.toList.take 1 := by
  cases e with
  | notCreated p cause =>
      refine ⟨"Failed to create report file ", p.display ++ (": " ++ cause.message), ?_,
        by decide, by decide⟩
      exact String.append_assoc.trans String.append_assoc
  | notOpened p cause =>
      refine ⟨"Failed to open report file ", p.display ++ (": " ++ cause.message), ?_,
        by decide, by decide⟩
      exact String.append_assoc.trans String.append_assoc
  | notTaken format cause =>
      refine ⟨"Failed to write ", format.title ++ (" report" ++ (": " ++ cause.message)), ?_,
        by decide, by decide⟩
      exact String.append_assoc.trans (String.append_assoc.trans String.append_assoc)
  | notFlushed cause =>
      refine ⟨"Failed to flush report", ": " ++ cause.message, ?_, by decide, by decide⟩
      exact String.append_assoc
  | jsonNotWritten => exact ⟨_, pathComplaint, rfl, by decide, by decide⟩
  | yamlNotWritten => exact ⟨_, pathComplaint, rfl, by decide, by decide⟩
  | jsonNotRead => exact ⟨_, "", String.append_empty.symm, by decide, by decide⟩
  | yamlNotRead => exact ⟨_, "", String.append_empty.symm, by decide, by decide⟩
  | csvNotLoaded p =>
      exact ⟨"CSV reports cannot be loaded back: ", p.display, rfl, by decide, by decide⟩

end StoreError

namespace Program

variable {σ : Type}

/-- What running the fixtures of a plan can come to. In parallel any schedule may be followed, the
tasks may be numbered in any way, and the compiler may be in any state when it is handed the path of
a task. -/
inductive Executes (clock : Clock) (compiler : Compiler σ) (s : σ) (a : RunArguments) (p : Plan) :
    Execution → Prop where
  | inOrder (h : a.parallel = false) :
      Executes clock compiler s a p (execute clock compiler s a p)
  | scheduled {final : Parallel.State} (h : a.parallel = true)
      (hpermits : Parallel.permits a.concurrent ≤ maxPermits) (found : Nat → σ)
      (number : Nat → Nat)
      (hfinal : Parallel.State.Final (fun i path => (compiler (found i) path).1)
        (Parallel.permits a.concurrent) p.fixtures final) :
      Executes clock compiler s a p
        (Parallel.conclude number a.concurrent clock.wallMs p.fixtures final,
          final.calls fun i path => (compiler (found i) path).1)
  | refused (h : a.parallel = true) (hpermits : maxPermits < Parallel.permits a.concurrent) :
      Executes clock compiler s a p (.error .tooManyPermits, [])

/-- A transcript that the `run` command can leave. If the run was not refused, the world that the
compiler left and what running the fixtures came to stand beside it. -/
inductive RunsTo (w : World) (clock : Clock) (host : RunEnvironment)
    (compiler : Path → Compiler σ) (s : σ) (a : RunArguments) :
    Option (World × Execution) → Transcript → Prop where
  | refused {message : String} {log : List Log.Event} (h : plan w a = (.error message, log)) :
      RunsTo w clock host compiler s a none (failure w "" (events log) [] message)
  | executed {p : Plan} {log : List Log.Event} {e : Execution} (left : World)
      (h : plan w a = (.ok p, log))
      (he : Executes clock (compiler p.configuration.compilerBinary) s a p e) :
      RunsTo w clock host compiler s a (some (left, e))
        (wrapUp left clock host a p (log ++ [runEvent p]) e)

theorem executes_execute (clock : Clock) (compiler : Compiler σ) (s : σ) (a : RunArguments)
    (p : Plan) : Executes clock compiler s a p (execute clock compiler s a p) := by
  cases hparallel : a.parallel with
  | false => exact .inOrder hparallel
  | true =>
      rw [execute, if_pos hparallel]
      by_cases hpermits : Parallel.permits a.concurrent ≤ maxPermits
      · obtain ⟨final, peak, hending, hfinal⟩ := Parallel.State.exists_ending_eq_ok
          (fun _ path => (compiler s path).1) hpermits p.fixtures
        simp only [hending]
        exact .scheduled hparallel hpermits (fun _ => s) id hfinal
      · have hlt := Nat.not_le.1 hpermits
        simp only [Parallel.ending, if_pos hlt]
        exact .refused hparallel hlt

theorem runsTo_runSuite (w : World) (clock : Clock) (host : RunEnvironment)
    (compiler : Path → Compiler σ) (s : σ) (a : RunArguments) :
    ∃ executed, RunsTo w clock host compiler s a executed
      (runSuite w clock host compiler s a) := by
  unfold runSuite
  split
  next message log hplan => exact ⟨none, .refused hplan⟩
  next p log hplan => exact ⟨_, .executed w hplan (executes_execute _ _ _ _ _)⟩

/-- However the fixtures of a plan are run, the run is a list of turns with their outcomes, as long
as the compiler does not give up and the permits can be had. -/
theorem Executes.exists_turns {clock : Clock} {compiler : Compiler σ} {s : σ} {a : RunArguments}
    {p : Plan} {e : Execution} (h : Executes clock compiler s a p e) (hc : compiler.Steady)
    (hpermits : a.parallel = true → Parallel.permits a.concurrent ≤ maxPermits) :
    ∃ turns outcomes, turns.map (·.fixture) = p.fixtures ∧ Runner.Verdicts turns outcomes ∧
      e.1.map (·.1) = Summary.ofOutcomes outcomes ∧ e.2.Perm (Runner.callsIn turns) ∧
      (a.parallel = false → e.2 = Runner.callsIn turns) := by
  cases h with
  | inOrder hparallel =>
      have hsteady := hc.on p.fixtures
      obtain ⟨outcomes, log, hruns, hverdicts⟩ := Runner.runEach_of_steady hsteady s
      refine ⟨Runner.turns compiler s p.fixtures, outcomes, Runner.map_fixture_turns _ _ _,
        hverdicts, ?_⟩
      have hexecute : execute clock compiler s a p =
          ((Runner.runAll compiler s clock.wallMs p.fixtures).1,
            Runner.callsIn (Runner.turns compiler s p.fixtures)) := by
        rw [execute, if_neg (Bool.eq_false_iff.1 hparallel), Runner.runAll_traced hsteady]
      rw [hexecute]
      exact ⟨Runner.runAll_of_runEach clock.wallMs hruns, .refl _, fun _ => rfl⟩
  | scheduled hparallel _ found number hfinal =>
      have hm := Parallel.permits_pos a.concurrent
      have hsteady : ∀ f ∈ p.fixtures, f.isSkipped = true ∨
          ∀ i message, (compiler (found i) f.path).1.reply ≠ .fault message :=
        fun f _ => .inr fun i => hc (found i) f.path
      have hverdicts := Parallel.verdicts_turns (fun i path => (compiler (found i) path).1) number
        hsteady
      refine ⟨_, _, Parallel.map_fixture_turns _ _, hverdicts, ?_, hfinal.calls_perm hm, ?_⟩
      · exact Parallel.conclude_fst (hfinal.outcomes?_eq hm number) _ _
      · intro hfalse
        rw [hparallel] at hfalse
        cases hfalse
  | refused hparallel hlt => exact absurd (hpermits hparallel) (Nat.not_le.2 hlt)

/-- What running the fixtures of a plan comes to with a compiler that does not give up. -/
structure Accounted (a : RunArguments) (p : Plan) (e : Execution) : Prop where
  paths_perm : (e.2.map (·.path)).Perm (Runner.handed p.fixtures)
  paths_eq : a.parallel = false → e.2.map (·.path) = Runner.handed p.fixtures
  summed : (e.2.map Call.countedMs).sum < UInt64.size →
    ∃ summary told text, e = (.ok (summary, told), e.2) ∧
      Output.render p.format (!a.noColor) summary = .ok text ∧
      (summary.exitCode = 0 ↔ ∀ call ∈ e.2, call.response.reply.isAcceptance = true)
  overflowed : UInt64.size ≤ (e.2.map Call.countedMs).sum → e = (.error .addOverflow, e.2)

theorem Executes.accounted {clock : Clock} {compiler : Compiler σ} {s : σ} {a : RunArguments}
    {p : Plan} {e : Execution} (h : Executes clock compiler s a p e) (hc : compiler.Steady)
    (hpermits : a.parallel = true → Parallel.permits a.concurrent ≤ maxPermits)
    (hcount : p.fixtures.length < UInt64.size) : Accounted a p e := by
  obtain ⟨turns, outcomes, hfixtures, hverdicts, hsummary, hcalls, hinOrder⟩ :=
    h.exists_turns hc hpermits
  have hpaths : (Runner.callsIn turns).map (·.path) = Runner.handed p.fixtures := by
    rw [Runner.map_path_callsIn, hfixtures]
  have hlength : outcomes.length < UInt64.size := by
    have hmap := congrArg List.length (hverdicts.map_fixture.trans hfixtures)
    rw [List.length_map] at hmap
    exact hmap ▸ hcount
  have hsum : (e.2.map Call.countedMs).sum = (outcomes.map fun o => o.durationMs.toNat).sum := by
    rw [hverdicts.sum_durations]
    exact (hcalls.map Call.countedMs).sum_nat
  refine ⟨hpaths ▸ hcalls.map _, fun hp => hpaths ▸ congrArg _ (hinOrder hp), fun hfit => ?_,
    fun hover => ?_⟩
  · rw [hsum] at hfit
    obtain ⟨duration, hok, -⟩ := Summary.ofOutcomes_of_fit hfit
    rw [hok] at hsummary
    obtain ⟨told, htold⟩ := Runner.exists_of_map_fst_eq_ok hsummary
    obtain ⟨text, htext⟩ :=
      Summary.exists_render_eq_ok p.format (!a.noColor) duration hlength
    refine ⟨_, told, text, Prod.ext htold rfl, htext, ?_⟩
    rw [Summary.exitCode_eq_zero_iff duration hlength, hverdicts.forall_not_failed_iff]
    simp only [hcalls.mem_iff]
  · rw [hsum] at hover
    rw [Summary.ofOutcomes_of_not_fit (Nat.not_lt.2 hover)] at hsummary
    exact Prod.ext (Runner.eq_error_of_map_eq_error hsummary) rfl

theorem complaint_notMem_events (message : String) (log : List Log.Event) :
    complaint message ∉ events log := by
  simp [complaint, events]

theorem complaint_inj {m m' : String} : complaint m = complaint m' ↔ m = m' := by
  rw [complaint, complaint, Notice.line.injEq, String.append_right_inj]

theorem complaint_ne_line {s : String} (hs : 1 ≤ s.toList.length)
    (h : "❌ ".toList.take 1 ≠ s.toList.take 1) (message rest : String) :
    complaint message ≠ .line (s ++ rest) := by
  rw [complaint, Ne, Notice.line.injEq]
  exact append_ne_append_of_take 1 (by decide) hs h _ _

def Exported (w : World) (clock : Clock) (host : RunEnvironment) (a : RunArguments)
    (c : Configuration) (summary : Summary) : Prop :=
  ∀ output, a.output = some output →
    ∃ format, (Store.save w (report clock host a c summary) (.ofText output)).1 = .ok format

section WrapUp

variable {w : World} {clock : Clock} {host : RunEnvironment} {a : RunArguments} {p : Plan}
  {log told : List Log.Event} {summary : Summary} {calls : List Call}

theorem wrapUp_calls (w : World) (clock : Clock) (host : RunEnvironment) (a : RunArguments)
    (p : Plan) (log : List Log.Event) (e : Execution) :
    (wrapUp w clock host a p log e).calls = e.2 := by
  unfold wrapUp
  split
  · rfl
  · dsimp only
    split
    · rfl
    · split
      · rfl
      · split <;> rfl

/-- A run whose summary can be printed ends with the exit code of the summary, or with 1 if its
report is not written. -/
theorem wrapUp_exitCode {text : String}
    (hrender : Output.render p.format (!a.noColor) summary = .ok text) :
    ((wrapUp w clock host a p log (.ok (summary, told), calls)).exitCode = 0 ↔
        summary.exitCode = 0 ∧ Exported w clock host a p.configuration summary) ∧
      ((wrapUp w clock host a p log (.ok (summary, told), calls)).exitCode ≠ 0 →
        (wrapUp w clock host a p log (.ok (summary, told), calls)).exitCode = 1) := by
  simp only [wrapUp, hrender, Exported]
  cases houtput : a.output with
  | none => simpa using Summary.exitCode_eq_one_of_ne_zero
  | some output =>
      rcases hsave : Store.save w (report clock host a p.configuration summary) (.ofText output)
        with ⟨e | format, noted, left⟩
      · simp [hsave, failure]
      · simpa [hsave] using Summary.exitCode_eq_one_of_ne_zero

theorem wrapUp_notices {text : String}
    (hrender : Output.render p.format (!a.noColor) summary = .ok text) (rest : String) :
    complaint ("No fixtures match filters" ++ rest) ∉
      (wrapUp w clock host a p log (.ok (summary, told), calls)).notices := by
  simp only [wrapUp, hrender]
  cases houtput : a.output with
  | none => simp [complaint_notMem_events]
  | some output =>
      rcases hsave : Store.save w (report clock host a p.configuration summary) (.ofText output)
        with ⟨e | format, noted, left⟩
      · obtain ⟨start, cause, hmessage, hlength, hstart⟩ := e.fullMessage_starts
        have hne := append_ne_append_of_take 1 (by decide) hlength hstart rest cause
        simpa [hsave, failure, complaint_notMem_events, complaint_inj, hmessage] using hne
      · have hne := complaint_ne_line (s := "📁 Report saved to ") (by decide) (by decide)
          ("No fixtures match filters" ++ rest) (Path.ofText output).display
        simpa [hsave, complaint_notMem_events] using hne

theorem crash_notices (w : World) (log : List Log.Event) (calls : List Call) (message : String) :
    complaint message ∉ (crash w (events log) calls .addOverflow).notices := by
  have hne := complaint_ne_line (s := "attempt to add with overflow") (by decide) (by decide)
    message ""
  rw [String.append_empty] at hne
  intro hmem
  rcases List.mem_append.1 hmem with hevent | hline
  · exact complaint_notMem_events message log hevent
  · exact hne (List.mem_singleton.1 hline)

theorem Accounted.notices {e : Execution} (h : Accounted a p e) (w : World) (clock : Clock)
    (host : RunEnvironment) (log : List Log.Event) (rest : String) :
    complaint ("No fixtures match filters" ++ rest) ∉
      (wrapUp w clock host a p log e).notices := by
  by_cases hfit : (e.2.map Call.countedMs).sum < UInt64.size
  · obtain ⟨summary, told, text, heq, htext, -⟩ := h.summed hfit
    rw [heq]
    exact wrapUp_notices htext rest
  · rw [h.overflowed (Nat.not_lt.1 hfit)]
    exact crash_notices w log _ _

end WrapUp

/-- The exit status of the `run` command, for a compiler that does not give up, permits that can be
had, and no more fixtures than a machine word counts. A run that is not ready ends with 1 before
anything is printed or handed to the compiler. A run that is ready hands every selected fixture that
is not disabled to the compiler, once, and in order unless it is parallel. It ends with 0 exactly if
the compiler exited with zero each time and the report, if one is asked for, is written, else with
1; only durations that do not fit a machine word together are a fault. The complaint that no
fixtures match is made only if there are filters. -/
theorem run_exit_status {w : World} {compiler : Path → Compiler σ} {a : RunArguments}
    (hcompiler : ∀ binary, (compiler binary).Steady)
    (hpermits : a.parallel = true → Parallel.permits a.concurrent ≤ maxPermits)
    (hcount : ∀ c fixtures, Ready w a c fixtures → fixtures.length < UInt64.size)
    (clock : Clock) (host : RunEnvironment) (s : σ) :
    (∃ executed, RunsTo w clock host compiler s a executed
      (runSuite w clock host compiler s a)) ∧
    ∀ executed t, RunsTo w clock host compiler s a executed t →
      ((¬ ∃ c fixtures, Ready w a c fixtures) →
        t.exitCode = 1 ∧ t.stdout = "" ∧ t.calls = []) ∧
      (∀ c fixtures, Ready w a c fixtures →
        (t.calls.map (·.path)).Perm (Runner.handed fixtures) ∧
        (a.parallel = false → t.calls.map (·.path) = Runner.handed fixtures)) ∧
      ((t.calls.map Call.countedMs).sum < UInt64.size →
        (t.exitCode = 0 ↔ ∃ c fixtures left summary told, Ready w a c fixtures ∧
          (∀ call ∈ t.calls, call.response.reply.isAcceptance = true) ∧
          executed = some (left, .ok (summary, told), t.calls) ∧
          Exported left clock host a c summary) ∧
        (t.exitCode ≠ 0 → t.exitCode = 1)) ∧
      (UInt64.size ≤ (t.calls.map Call.countedMs).sum → t.exitCode = faultCode) ∧
      ∀ rest, complaint ("No fixtures match filters" ++ rest) ∈ t.notices → a.filter ≠ [] := by
  refine ⟨runsTo_runSuite w clock host compiler s a, fun executed t ht => ?_⟩
  cases ht with
  | @refused message log hplan =>
      -- nothing was handed to the compiler, and the complaint is the last notice
      have hplanned := planned_of_plan hplan
      refine ⟨fun _ => ⟨rfl, rfl, rfl⟩, fun c fixtures h => absurd h hplanned.not_ready,
        fun _ => ⟨?_, fun _ => rfl⟩, fun hover => ?_, fun rest hmem => ?_⟩
      · refine iff_of_false (by simp [failure]) ?_
        rintro ⟨c, fixtures, -, -, -, hready, -⟩
        exact hplanned.not_ready hready
      · simp [failure, UInt64.size] at hover
      · rcases List.mem_append.1 hmem with hevent | hline
        · exact absurd hevent (complaint_notMem_events _ log)
        · have hmessage := complaint_inj.1 (List.mem_singleton.1 hline)
          exact Planned.filter_ne_nil (hmessage ▸ hplanned)
  | @executed p log e left hplan he =>
      -- the plan is the only one there is, so what holds of it holds of what is selected
      have hready := (planned_of_plan hplan).is_ready
      have hall := he.accounted (hcompiler _) hpermits (hcount _ _ hready)
      rw [wrapUp_calls]
      refine ⟨fun hnot => absurd ⟨_, _, hready⟩ hnot, fun c fixtures h => ?_, fun hfit => ?_,
        fun hover => ?_, fun rest hmem => absurd hmem (hall.notices left clock host _ rest)⟩
      · obtain ⟨-, rfl⟩ := hready.unique h
        exact ⟨hall.paths_perm, hall.paths_eq⟩
      · obtain ⟨summary, told, text, heq, htext, hexit⟩ := hall.summed hfit
        rw [heq]
        refine ⟨(wrapUp_exitCode htext).1.trans ⟨?_, ?_⟩, (wrapUp_exitCode htext).2⟩
        · rintro ⟨hzero, hexported⟩
          exact ⟨_, _, left, summary, told, hready, hexit.1 hzero, rfl, hexported⟩
        · rintro ⟨c, fixtures, left', summary', told', h, haccepted, hsome, hexported⟩
          obtain ⟨rfl, -⟩ := hready.unique h
          cases hsome
          exact ⟨hexit.2 haccepted, hexported⟩
      · rw [hall.overflowed hover]
        rfl

/-- The fixture `/s/a.flang` in the suite `/s`, and the compiler `/c`. -/
def smallWorld : World where
  files := ⟨[([99], .file [] true), ([115], .directory [(Utf8.encode "a.flang", .file [] false)])]⟩
  cwd := some []
  environment := ⟨[(suiteRootVar, [47, 115]), (compilerBinaryVar, [47, 99])]⟩

theorem collect_smallWorld :
    (Discovery.collect smallWorld ⟨[47, 115]⟩ "flang").1 =
      [⟨.ofText "/s/a.flang", "a.flang"⟩] := by
  have hfind (followLast : Bool) : smallWorld.find followLast ⟨[47, 115]⟩ =
      .ok ([[115]], .directory [(Utf8.encode "a.flang", .file [] false)]) := by
    cases followLast <;> rfl
  have hwalk : Discovery.walk smallWorld ⟨[47, 115]⟩ =
      [.directory ⟨[47, 115]⟩, .file (.ofText "/s/a.flang")] := by
    rw [Discovery.walk, hfind, hfind]
    simp only [Discovery.inOrder, List.mergeSort_singleton, Discovery.visit]
    decide +kernel
  simp only [Discovery.collect, hwalk]
  decide +kernel

/-- What a run over the suite starts with. -/
def smallPlan : Plan where
  configuration := ⟨⟨[47, 115]⟩, ⟨[47, 99]⟩⟩
  format := .table
  fixtures := [⟨.ofText "/s/a.flang", "a.flang"⟩]

/-- A parallel run with one permit over the one fixture that the filter selects. The fixture is
accepted after five milliseconds. -/
theorem run_exit_status_accepted :
    let a : RunArguments := { parallel := true, concurrent := 0, filter := ["a."] }
    let compiler : Path → Compiler Nat := fun _ n _ => (⟨.exited (some 0) "", 5, []⟩, n + 1)
    Ready smallWorld a smallPlan.configuration smallPlan.fixtures ∧
      ∀ host, ∃ executed t, RunsTo smallWorld {} host compiler 0 a executed t ∧
        t.calls.map (·.path) = [.ofText "/s/a.flang"] ∧ t.exitCode = 0 := by
  intro a compiler
  have hconfigured : Configuration.ofEnvironment smallWorld = .ok smallPlan.configuration := by
    decide +kernel
  have hformat : OutputFormat.ofName? a.format = some .table := by decide +kernel
  have hselect : Fixture.select a.filter smallPlan.fixtures = smallPlan.fixtures := by
    decide +kernel
  have hcollect : (Discovery.collect smallWorld smallPlan.configuration.suiteRoot a.extension).1 =
      smallPlan.fixtures := collect_smallWorld
  have hnonempty : smallPlan.fixtures ≠ [] := by simp [smallPlan]
  have hready : Ready smallWorld a smallPlan.configuration smallPlan.fixtures :=
    ⟨hconfigured, by simp [hformat], hcollect ▸ hnonempty, by rw [hcollect, hselect], hnonempty⟩
  have hplan : ∃ log, plan smallWorld a = (.ok smallPlan, log) := by
    obtain ⟨log, hdiscover⟩ := Discovery.discover_of_ne_nil hready.found
    simp only [plan, hconfigured, hformat, hdiscover, hcollect, hselect]
    exact ⟨_, rfl⟩
  obtain ⟨log, hplan⟩ := hplan
  have hsteady : ∀ binary, (compiler binary).Steady := by
    intro binary n p message h
    cases h
  have hpermits : a.parallel = true → Parallel.permits a.concurrent ≤ maxPermits := by decide
  have hcount : ∀ c fixtures, Ready smallWorld a c fixtures → fixtures.length < UInt64.size := by
    intro c fixtures h
    obtain ⟨-, rfl⟩ := hready.unique h
    decide
  have hexecutes := executes_execute {} (compiler smallPlan.configuration.compilerBinary) 0 a
    smallPlan
  have hcalls : (execute {} (compiler smallPlan.configuration.compilerBinary) 0 a smallPlan).2 =
      [⟨.ofText "/s/a.flang", ⟨.exited (some 0) "", 5, []⟩⟩] := by decide +kernel
  have hfit : ([⟨.ofText "/s/a.flang", ⟨.exited (some 0) "", 5, []⟩⟩].map
      Call.countedMs).sum < UInt64.size := by decide +kernel
  have haccounted := hexecutes.accounted (hsteady smallPlan.configuration.compilerBinary) hpermits
    (hcount _ _ hready)
  obtain ⟨summary, told, -, hexecute, -⟩ := haccounted.summed (by rw [hcalls]; exact hfit)
  refine ⟨hready, fun host => ?_⟩
  have hrun : RunsTo smallWorld {} host compiler 0 a _ _ := .executed smallWorld hplan hexecutes
  have hstatus := (run_exit_status hsteady hpermits hcount {} host 0).2 _ _ hrun
  rw [wrapUp_calls, hcalls] at hstatus
  refine ⟨_, _, hrun, ?_, (hstatus.2.2.1 hfit).1.2 ?_⟩
  · rw [wrapUp_calls, hcalls]
    rfl
  · refine ⟨_, _, smallWorld, summary, told, hready, ?_, ?_, ?_⟩
    · simp [Reply.isAcceptance]
    · rw [hexecute, hcalls]
    · intro output houtput
      cases houtput

end Program

end Conformance

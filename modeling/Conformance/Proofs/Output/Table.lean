import Conformance.Proofs.Number.Digits
import Conformance.Proofs.Runner.Sequence

/-!
# Failures in the table of a run

The table is a row for each outcome, the totals, and behind the line with the
pass rate nothing but the reports of the failures, each below a rule. A report
is arbitrary text: it can be empty, hold rules and headings of its own, or lack a
line break at its end. `IsBlock` says what stands for one failure, and the table
is put together from one such block for each failed outcome, in order. What a
compiler wrote before it exited with an error is in the block of its fixture as
it was written.
-/

namespace Conformance

namespace Summary

variable {s : Summary}

theorem exists_passRateText (h : s.passed.toNat + s.failed.toNat < UInt64.size) :
    ∃ rate, s.passRateText = .ok rate := by
  simp only [passRateText, passRate, (addWords_of_lt h).1]
  exact ⟨_, rfl⟩

theorem isDigit_or_eq_point_of_mem {rate : String} (h : s.passRateText = .ok rate) {c : Char}
    (hc : c ∈ rate.toList) : Decimal.isDigit c = true ∨ c = '.' := by
  rw [passRateText] at h
  cases hrate : s.passRate with
  | error fault => simp [hrate, Except.map] at h
  | ok x =>
      simp only [hrate, Except.map, Except.ok.injEq] at h
      subst h
      simp only [Binary64.fixedText, Decimal.natText, String.toList_append, String.toList_ofList,
        List.mem_append] at hc
      rcases hc with (hwhole | hpoint) | htenths
      · exact .inl (Decimal.isDigit_of_mem_toDigits hwhole)
      · exact .inr (by simpa using hpoint)
      · exact .inl (Decimal.isDigit_of_mem_paddedText htenths)

end Summary

namespace Output

variable {o : Outcome} {report output : String}

/-- The text that stands for a failure behind the totals: an empty line, a rule, the report, and a
line break if the report does not end in one. -/
inductive IsBlock (o : Outcome) : String → Prop where
  | ended {report : String} (hreport : o.failureReport? = some report)
      (hend : report.toList.getLast? = some '\n') : IsBlock o ("\n" ++ sectionRule ++ report)
  | unended {report : String} (hreport : o.failureReport? = some report)
      (hend : report.toList.getLast? ≠ some '\n') :
      IsBlock o ("\n" ++ sectionRule ++ report ++ "\n")

/-- The row of an outcome: its label, its identifier filled up to 48 characters and its duration
filled up to six. -/
def IsRow (colour : Bool) (o : Outcome) (row : String) : Prop :=
  ∃ fill fill' : List Char, (∀ c ∈ fill ++ fill', c = ' ') ∧
    (o.fixture.id.toList ++ fill).length = max 48 o.fixture.id.length ∧
    (fill' ++ (Decimal.natText o.durationMs.toNat).toList).length =
      max 6 (Decimal.natText o.durationMs.toNat).length ∧
    row = " " ++ statusLabel colour o.status ++ " " ++ o.fixture.id ++ String.ofList fill ++ " [" ++
      String.ofList fill' ++ Decimal.natText o.durationMs.toNat ++ "ms]\n"

theorem isRow_tableRow (colour : Bool) (o : Outcome) : IsRow colour o (tableRow colour o) := by
  refine ⟨List.replicate (48 - o.fixture.id.length) ' ',
    List.replicate (6 - (Decimal.natText o.durationMs.toNat).length) ' ', ?_, ?_, ?_, ?_⟩
  · rw [List.forall_mem_append]
    exact ⟨fun c => List.eq_of_mem_replicate, fun c => List.eq_of_mem_replicate⟩
  · rw [List.length_append, List.length_replicate, String.length_toList]
    omega
  · rw [List.length_append, List.length_replicate, String.length_toList]
    omega
  · rw [tableRow, padRight, padLeft]
    simp [← String.toList_inj]

theorem exists_failureReport (h : o.status = .failed) : ∃ report, o.failureReport? = some report :=
  ⟨_, if_pos h⟩

theorem failureReport?_eq_none (h : o.status ≠ .failed) : o.failureReport? = none := if_neg h

theorem isBlock_failureBlock (h : o.status = .failed) : IsBlock o (failureBlock o) := by
  obtain ⟨report, hreport⟩ := exists_failureReport h
  rw [failureBlock, hreport]
  simp only [endLine]
  split
  next hend => exact .ended hreport hend
  next hend =>
      rw [← String.append_assoc]
      exact .unended hreport hend

theorem IsBlock.status_eq {block : String} (h : IsBlock o block) : o.status = .failed := by
  have hsome : ∃ report, o.failureReport? = some report := by
    cases h with
    | ended hreport hend => exact ⟨_, hreport⟩
    | unended hreport hend => exact ⟨_, hreport⟩
  obtain ⟨report, hreport⟩ := hsome
  by_contra hstatus
  rw [failureReport?_eq_none hstatus] at hreport
  cases hreport

/-- The line break behind an output, unless the output is empty or ends in one. -/
def missingBreak (output : String) : String :=
  if output.toList.getLast?.getD '\n' = '\n' then "" else "\n"

/-- The heading ends in a line break, so behind it only a last line of the output can lack one. -/
theorem getLast?_report (message output : String) :
    (message ++ Outcome.outputHeading ++ output).toList.getLast? =
      some (output.toList.getLast?.getD '\n') := by
  rw [String.toList_append, String.toList_append, List.getLast?_append, List.getLast?_append]
  cases output.toList.getLast? <;> rfl

/-- The block of a fixture that the compiler rejected. -/
theorem IsBlock.eq_of_failed {f : Fixture} {ms : UInt64} {code : Option Int32} {block : String}
    (h : IsBlock (.failed f ms code output) block) :
    block = "\n" ++ sectionRule ++ "[Execution Error] " ++ f.id ++
      "\n\n----- CAPTURED OUTPUT -----\n" ++ output ++ missingBreak output := by
  have hreport : (Outcome.failed f ms code output).failureReport? =
    some ("[Execution Error] " ++ f.id ++ Outcome.outputHeading ++ output) := rfl
  have hlast := getLast?_report ("[Execution Error] " ++ f.id) output
  cases h with
  | ended hreport' hend =>
      rw [hreport] at hreport'
      cases hreport'
      rw [hlast, Option.some.injEq] at hend
      simp [missingBreak, hend, String.append_assoc, Outcome.outputHeading]
  | unended hreport' hend =>
      rw [hreport] at hreport'
      cases hreport'
      rw [hlast, ne_eq, Option.some.injEq] at hend
      simp [missingBreak, hend, String.append_assoc, Outcome.outputHeading]

theorem eq_failed_of_runFixture {σ : Type} {compiler : Compiler σ} {state state' : σ} {f : Fixture}
    {log : List Log.Event} {code : Option Int32}
    (hrun : Runner.runFixture compiler state f = (.ok (o, log), state'))
    (hf : f.isSkipped = false) (hreply : (compiler state f.path).1.reply = .exited code output)
    (hcode : code ≠ some 0) :
    o = .failed f (compiler state f.path).1.elapsedMs code output := by
  have hjudge : Runner.judge f (compiler state f.path).1 = .ok o := by
    rw [← Runner.runFixture_fst, hrun]
    rfl
  cases Runner.judged_of_judge hjudge with
  | skipped hf' => simp [hf] at hf'
  | passed _ hr =>
      rw [hreply] at hr
      cases hr
      exact absurd rfl hcode
  | failed _ hr _ =>
      rw [hreply] at hr
      cases hr
      rfl
  | notStarted _ hr => simp [hreply] at hr
  | lost _ hr => simp [hreply] at hr

/-- The table has a row for each outcome in order, then the totals, and behind the line with the
pass rate one block for each failure in order and nothing else. The block of a fixture that the
compiler rejected holds what the compiler wrote. -/
theorem table_shows_failures (s : Summary) (colour : Bool)
    (h : s.passed.toNat + s.failed.toNat < UInt64.size) :
    ∃ (rate : String) (rows blocks : List String),
      render .table colour s = .ok ("\n" ++ titleRule ++ " Conformance Results\n" ++ titleRule ++
        String.join rows ++ sectionRule ++ " " ++ s.countsLine (coloured (colour && s.failed != 0)
          .red (Decimal.natText s.failed.toNat)) ++ "\n" ++ " Pass Rate: " ++ rate ++
        "% | Duration: " ++ Decimal.natText s.totalDurationMs.toNat ++ "ms\n" ++
        String.join blocks) ∧
      '\n' ∉ rate.toList ∧
      List.Forall₂ (IsRow colour) s.outcomes rows ∧
      List.Forall₂ IsBlock (s.outcomes.filter (·.status = .failed)) blocks ∧
      (∀ o block, IsBlock o block → o.status = .failed) ∧
      ∀ {σ : Type} (compiler : Compiler σ) (state state' : σ) (f : Fixture) (o : Outcome)
        (log : List Log.Event) (code : Option Int32) (output : String),
        Runner.runFixture compiler state f = (.ok (o, log), state') → f.isSkipped = false →
        (compiler state f.path).1.reply = .exited code output → code ≠ some 0 → o ∈ s.outcomes →
          "\n" ++ sectionRule ++ "[Execution Error] " ++ f.id ++
            "\n\n----- CAPTURED OUTPUT -----\n" ++ output ++ missingBreak output ∈ blocks := by
  obtain ⟨rate, hrate⟩ := Summary.exists_passRateText h
  have hblocks : ∀ o ∈ s.failures, IsBlock o (failureBlock o) := by
    intro o ho
    exact isBlock_failureBlock (by simpa using List.of_mem_filter ho)
  refine ⟨rate, s.outcomes.map (tableRow colour), s.failures.map failureBlock, ?_, ?_, ?_, ?_,
    fun o block => IsBlock.status_eq, ?_⟩
  · simp only [render, table, hrate, Except.map, tableHead, tableTotals, tableFailures,
      Summary.rateLine, String.append_assoc]
    rfl
  · intro hnewline
    have hchar := Summary.isDigit_or_eq_point_of_mem hrate hnewline
    revert hchar
    decide
  · rw [List.forall₂_map_right_iff, List.forall₂_same]
    exact fun o _ => isRow_tableRow colour o
  · rw [List.forall₂_map_right_iff]
    exact List.forall₂_same.2 hblocks
  · intro σ compiler state state' f o log code output hrun hf hreply hcode ho
    obtain rfl := eq_failed_of_runFixture hrun hf hreply hcode
    have hfailed : .failed f (compiler state f.path).1.elapsedMs code output ∈ s.failures :=
      List.mem_filter.2 ⟨ho, rfl⟩
    rw [← (hblocks _ hfailed).eq_of_failed]
    exact List.mem_map_of_mem hfailed

/-- The compiler rejects a fixture and writes a rule and a heading of its own, with no line break at
the end. -/
theorem table_shows_failures_unended :
    let f : Fixture := ⟨.ofText "/s/b.flang", "b.flang"⟩
    let output := "────\n----- CAPTURED OUTPUT -----"
    let compiler := Compiler.ofFunction fun _ => .ofReply (.exited (some 1) output)
    ∃ o log, Runner.runFixture compiler () f = (.ok (o, log), ()) ∧
      ∃ before, render .table true ⟨2, 1, 0, 1, 3, [.passed f 3, o]⟩ =
        .ok (before ++ ("\n" ++ sectionRule ++ "[Execution Error] " ++ "b.flang" ++
          "\n\n----- CAPTURED OUTPUT -----\n" ++ output ++ "\n")) := by
  intro f output compiler
  have hf : f.isSkipped = false := by decide +kernel
  have hrun : Runner.runFixture compiler () f =
      (.ok (.failed f 0 (some 1) output, [Runner.finishedEvent f 0]), ()) := by
    rw [Runner.runFixture, hf]
    rfl
  obtain ⟨rate, rows, blocks, htable, -, -, hblocks, -, hshown⟩ :=
    table_shows_failures ⟨2, 1, 0, 1, 3, [.passed f 3, .failed f 0 (some 1) output]⟩ true
      (by decide)
  have hmem := hshown compiler () () f _ _ (some 1) output hrun hf rfl (by decide) (by simp)
  have hlength : blocks.length = 1 := hblocks.length_eq.symm
  obtain ⟨block, rfl⟩ := List.length_eq_one_iff.1 hlength
  obtain rfl := List.mem_singleton.1 hmem
  have hbreak : missingBreak output = "\n" := by decide
  rw [String.join_cons, String.join_nil, String.append_empty, hbreak] at htable
  exact ⟨_, _, hrun, _, htable⟩

end Output

end Conformance

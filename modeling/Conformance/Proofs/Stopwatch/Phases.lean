import Conformance.Proofs.Number.Digits
import Conformance.Stopwatch
import Mathlib.Algebra.GroupWithZero.Nat

/-!
# Phases and the time between marks

The marks of a stopwatch are times from one start, and `spentFrom` turns them
into the times between them. The mark before is carried along explicitly, so the
times telescope on a clock that never goes back: they add up to the last mark.
Cutting each of them to whole milliseconds loses less than one millisecond for
every phase (`millis_sum_lt`). What is printed shows these times and the total
and nothing else (`shown_inj`), so the bounds hold of the numbers on the line.
-/

namespace Conformance

namespace Stopwatch

/-- A stopwatch marked at the end of each phase, one after another. -/
def ofLaps (laps : List (Phase × Nat)) : Stopwatch :=
  laps.foldl (fun w l => w.lap l.1 l.2) start

theorem marks_foldl_lap (w : Stopwatch) (laps : List (Phase × Nat)) :
    (laps.foldl (fun w l => w.lap l.1 l.2) w).marks = w.marks ++ laps := by
  induction laps generalizing w with
  | nil => simp
  | cons l laps ih =>
      rw [List.foldl_cons, ih, lap, List.append_assoc]
      rfl

theorem marks_ofLaps (laps : List (Phase × Nat)) : (ofLaps laps).marks = laps := by
  rw [ofLaps, marks_foldl_lap, start, List.nil_append]

section Spent

variable {previous : Nat} {marks : List (Phase × Nat)}

theorem map_fst_spentFrom (previous : Nat) (marks : List (Phase × Nat)) :
    (spentFrom previous marks).map (·.1) = marks.map (·.1) := by
  induction marks generalizing previous with
  | nil => rfl
  | cons m marks ih =>
      obtain ⟨phase, mark⟩ := m
      rw [spentFrom, List.map_cons, ih, List.map_cons]

/-- The time spent in a phase is its mark less the mark before. -/
theorem getElem?_spentFrom {i mark before : Nat} {phase : Phase}
    (hmark : marks[i]? = some (phase, mark))
    (hbefore : (previous :: marks.map (·.2))[i]? = some before) :
    (spentFrom previous marks)[i]? = some (phase, mark - before) := by
  induction marks generalizing previous i with
  | nil => simp at hmark
  | cons m marks ih =>
      obtain ⟨p, t⟩ := m
      cases i with
      | zero =>
          cases hmark
          cases hbefore
          rfl
      | succ i =>
          rw [spentFrom, List.getElem?_cons_succ]
          exact ih hmark hbefore

/-- On a clock that never goes back the times spent lead from the start to the last mark. -/
theorem sum_spentFrom (h : (previous :: marks.map (·.2)).Pairwise (· ≤ ·)) :
    previous + ((spentFrom previous marks).map (·.2)).sum =
      (marks.map (·.2)).getLast?.getD previous := by
  induction marks generalizing previous with
  | nil => rfl
  | cons m marks ih =>
      obtain ⟨phase, mark⟩ := m
      obtain ⟨hle, hrest⟩ := List.pairwise_cons.1 h
      have hmark : previous ≤ mark := hle mark List.mem_cons_self
      have hlast : mark + ((spentFrom mark marks).map (·.2)).sum =
          (marks.map (·.2)).getLast?.getD mark := ih hrest
      rw [List.map_cons, List.getLast?_cons, Option.getD_some, ← hlast, spentFrom, List.map_cons,
        List.sum_cons]
      omega

/-- The mark before is the start or a mark, and lies before. -/
theorem exists_before (h : (previous :: marks.map (·.2)).Pairwise (· ≤ ·)) {i mark : Nat}
    {phase : Phase} (hmark : marks[i]? = some (phase, mark)) :
    ∃ before, (previous :: marks.map (·.2))[i]? = some before ∧ before ≤ mark := by
  have hnext : (previous :: marks.map (·.2))[i + 1]? = some mark := by simp [hmark]
  obtain ⟨hlt, hget⟩ := List.getElem?_eq_some_iff.1 hnext
  have hle := List.pairwise_iff_getElem.1 h i (i + 1) (by omega) hlt (Nat.lt_succ_self i)
  exact ⟨_, List.getElem?_eq_getElem (by omega), hget ▸ hle⟩

end Spent

theorem getLast?_getD_le {times : List Nat} {now : Nat}
    (h : (times ++ [now]).Pairwise (· ≤ ·)) : times.getLast?.getD 0 ≤ now := by
  cases hlast : times.getLast? with
  | none => exact Nat.zero_le now
  | some t =>
      have hmem : t ∈ times := List.mem_of_getLast? hlast
      exact (List.pairwise_append.1 h).2.2 t hmem now List.mem_cons_self

theorem millis_add_le (m n : Nat) : millis m + millis n ≤ millis (m + n) := by
  simp only [millis]
  omega

theorem millis_add_le_succ (m n : Nat) : millis (m + n) ≤ millis m + millis n + 1 := by
  simp only [millis]
  omega

theorem sum_millis_le (times : List Nat) : (times.map millis).sum ≤ millis times.sum := by
  induction times with
  | nil => simp
  | cons t times ih =>
      have hadd := millis_add_le t times.sum
      rw [List.map_cons, List.sum_cons, List.sum_cons]
      omega

/-- Cutting each of some times to whole milliseconds loses less than one for each. -/
theorem millis_sum_lt {times : List Nat} (h : times ≠ []) :
    millis times.sum < (times.map millis).sum + times.length := by
  induction times with
  | nil => exact absurd rfl h
  | cons t times ih =>
      rw [List.map_cons, List.sum_cons, List.sum_cons, List.length_cons]
      by_cases hnil : times = []
      · simp [hnil]
      · have hadd := millis_add_le_succ t times.sum
        have hrest := ih hnil
        omega

def entry (p : Phase × Nat) : String := p.1.name ++ ": " ++ Decimal.natText p.2 ++ "ms"

/-- The line that shows phases with a number of milliseconds each, and a total. -/
def shown (times : List (Phase × Nat)) (total : Nat) : String :=
  ", ".intercalate (times.map entry) ++ " (total " ++ Decimal.natText total ++ "ms)"

theorem format_eq_shown (w : Stopwatch) (now : Nat) :
    w.format now = shown (w.phases.map fun p => (p.1, millis p.2)) (millis now) := by
  rw [format, shown, List.map_map]
  rfl

def closing (total : Nat) : String := " (total " ++ Decimal.natText total ++ "ms)"

def behind (ps : List (Phase × Nat)) (total : Nat) : List Char :=
  (ps.flatMap fun p => ',' :: ' ' :: (entry p).toList) ++ (closing total).toList

theorem behind_nil (total : Nat) : behind [] total = (closing total).toList := rfl

theorem behind_cons (p : Phase × Nat) (ps : List (Phase × Nat)) (total : Nat) :
    behind (p :: ps) total = ',' :: ' ' :: ((entry p).toList ++ behind ps total) := by
  simp [behind]

theorem toList_shown_nil (total : Nat) : (shown [] total).toList = behind [] total := by
  simp [shown, behind, closing]

theorem toList_shown_cons (p : Phase × Nat) (ps : List (Phase × Nat)) (total : Nat) :
    (shown (p :: ps) total).toList = (entry p).toList ++ behind ps total := by
  induction ps generalizing p with
  | nil => simp [shown, behind, closing]
  | cons q ps ih =>
      have hrest := ih q
      simp only [shown, String.toList_append, String.toList_intercalate, List.map_cons,
        List.append_assoc] at hrest ⊢
      rw [List.intercalate_cons_cons, List.append_assoc, List.append_assoc, hrest, behind_cons]
      rfl

theorem stops_ms (cs : List Char) : Decimal.Stops ("ms".toList ++ cs) := by
  simp [Decimal.isDigit]

theorem closing_inj {total total' : Nat}
    (h : (closing total).toList = (closing total').toList) : total = total' := by
  have hend : Decimal.Stops "ms)".toList := by simp [Decimal.isDigit]
  simp only [closing, String.toList_append, Decimal.natText, String.toList_ofList,
    List.append_assoc, List.append_right_inj] at h
  exact (Decimal.toDigits_append_inj hend hend h).1

theorem head?_closing (total : Nat) : (closing total).toList.head? = some ' ' := by
  simp [closing]

theorem head?_entry_append (p : Phase × Nat) (cs : List Char) :
    ((entry p).toList ++ cs).head? ≠ some ' ' := by
  obtain ⟨phase, n⟩ := p
  cases phase <;> simp [entry, Phase.name]

theorem entry_append_inj {p q : Phase × Nat} {cs cs' : List Char}
    (h : (entry p).toList ++ cs = (entry q).toList ++ cs') : p = q ∧ cs = cs' := by
  obtain ⟨phase, n⟩ := p
  obtain ⟨phase', m⟩ := q
  simp only [entry, String.toList_append, Decimal.natText, String.toList_ofList,
    List.append_assoc] at h
  -- the names of two phases differ in one of their first two characters
  have hphase : phase = phase' := by
    cases phase <;> cases phase' <;> simp [Phase.name] at h ⊢
  rw [hphase, List.append_right_inj, List.append_right_inj] at h
  obtain ⟨rfl, hrest⟩ := Decimal.toDigits_append_inj (stops_ms cs) (stops_ms cs') h
  exact ⟨by rw [hphase], (List.append_right_inj _).1 hrest⟩

theorem behind_ne_closing (p : Phase × Nat) (ps : List (Phase × Nat)) (total total' : Nat) :
    behind (p :: ps) total ≠ (closing total').toList := by
  intro h
  have hhead := head?_closing total'
  rw [← h, behind_cons] at hhead
  simp at hhead

theorem behind_inj {total total' : Nat} {ps qs : List (Phase × Nat)}
    (h : behind ps total = behind qs total') : ps = qs ∧ total = total' := by
  induction ps generalizing qs with
  | nil =>
      cases qs with
      | nil => exact ⟨rfl, closing_inj h⟩
      | cons q qs => exact absurd h.symm (behind_ne_closing q qs total' total)
  | cons p ps ih =>
      cases qs with
      | nil => exact absurd h (behind_ne_closing p ps total total')
      | cons q qs =>
          simp only [behind_cons, List.cons.injEq, true_and] at h
          obtain ⟨rfl, hrest⟩ := entry_append_inj h
          obtain ⟨rfl, rfl⟩ := ih hrest
          exact ⟨rfl, rfl⟩

theorem toList_shown_cons_ne_nil (p : Phase × Nat) (ps : List (Phase × Nat)) (total total' : Nat) :
    (shown (p :: ps) total).toList ≠ (shown [] total').toList := by
  intro h
  have hhead := head?_closing total'
  rw [← behind_nil, ← toList_shown_nil, ← h, toList_shown_cons] at hhead
  exact head?_entry_append p _ hhead

/-- A line shows its times and its total, and no others. -/
theorem shown_inj {times times' : List (Phase × Nat)} {total total' : Nat} :
    shown times total = shown times' total' ↔ times = times' ∧ total = total' := by
  refine ⟨fun h => ?_, by rintro ⟨rfl, rfl⟩; rfl⟩
  rw [← String.toList_inj] at h
  cases times with
  | nil =>
      cases times' with
      | nil =>
          rw [toList_shown_nil, toList_shown_nil] at h
          exact behind_inj h
      | cons q qs => exact absurd h.symm (toList_shown_cons_ne_nil q qs total' total)
  | cons p ps =>
      cases times' with
      | nil => exact absurd h (toList_shown_cons_ne_nil p ps total total')
      | cons q qs =>
          rw [toList_shown_cons, toList_shown_cons] at h
          obtain ⟨rfl, hrest⟩ := entry_append_inj h
          obtain ⟨rfl, rfl⟩ := behind_inj hrest
          exact ⟨rfl, rfl⟩

/-- On a clock that never goes back the phases partition the time up to the last mark. There is one
for each mark, in order and under its name, no mark lies before the one in front of it, and the time
spent is the difference of the two. The times add up to the last mark, which is not after the moment
the total is taken. The line shows their whole milliseconds and those of the total, and no other
numbers: together they are not more than the total, and they miss less than one millisecond of the
last mark for every mark. -/
theorem phases_partition {laps : List (Phase × Nat)} {now : Nat}
    (hclock : (laps.map (·.2) ++ [now]).Pairwise (· ≤ ·)) :
    let w := ofLaps laps
    let last := (laps.map (·.2)).getLast?.getD 0
    let shownMs := (w.phases.map fun p => millis p.2).sum
    w.phases.map (·.1) = laps.map (·.1) ∧
      (∀ (i : Nat) phase mark, laps[i]? = some (phase, mark) →
        ∃ before, (0 :: laps.map (·.2))[i]? = some before ∧ before ≤ mark ∧
          w.phases[i]? = some (phase, mark - before)) ∧
      (w.phases.map (·.2)).sum = last ∧ last ≤ now ∧
      (∀ times total, w.format now = shown times total ↔
        times = w.phases.map (fun p => (p.1, millis p.2)) ∧ total = millis now) ∧
      shownMs ≤ millis now ∧
      (laps ≠ [] → shownMs ≤ millis last ∧ millis last < shownMs + laps.length) := by
  intro w last shownMs
  have hphases : w.phases = spentFrom 0 laps := by rw [phases, marks_ofLaps]
  have hmarks : (0 :: laps.map (·.2)).Pairwise (· ≤ ·) :=
    List.pairwise_cons.2 ⟨fun t _ => Nat.zero_le t, (List.pairwise_append.1 hclock).1⟩
  have hsum : (w.phases.map (·.2)).sum = last := by
    have htotal := sum_spentFrom hmarks
    rw [Nat.zero_add] at htotal
    rw [hphases, htotal]
  have hlast : last ≤ now := getLast?_getD_le hclock
  have hshown : shownMs = ((w.phases.map (·.2)).map millis).sum := by
    rw [List.map_map]
    rfl
  have hle : shownMs ≤ millis last := by
    rw [hshown, ← hsum]
    exact sum_millis_le _
  refine ⟨?_, fun i phase mark hmark => ?_, hsum, hlast, fun times total => ?_, ?_, fun hne => ?_⟩
  · rw [hphases, map_fst_spentFrom]
  · obtain ⟨before, hbefore, hbound⟩ := exists_before hmarks hmark
    exact ⟨before, hbefore, hbound, by rw [hphases, getElem?_spentFrom hmark hbefore]⟩
  · rw [format_eq_shown, shown_inj]
    exact ⟨fun h => ⟨h.1.symm, h.2.symm⟩, fun h => ⟨h.1.symm, h.2.symm⟩⟩
  · exact Nat.le_trans hle (Nat.div_le_div_right hlast)
  · refine ⟨hle, ?_⟩
    have hlength : (w.phases.map (·.2)).length = laps.length := by
      rw [hphases, List.length_map, ← List.length_map (f := (·.1)), map_fst_spentFrom,
        List.length_map]
    rw [hshown, ← hsum, ← hlength]
    exact millis_sum_lt fun hnil => hne (by simpa [hnil] using hlength.symm)

/-- Two laps of one phase at the same time, and one more. Cutting loses a millisecond. -/
theorem phases_partition_repeated_lap :
    let laps : List (Phase × Nat) :=
      [(.discovery, 1999999), (.discovery, 1999999), (.export, 4000001)]
    (laps.map (·.2) ++ [(5000000 : Nat)]).Pairwise (· ≤ ·) ∧
      (ofLaps laps).phases = [(.discovery, 1999999), (.discovery, 0), (.export, 2000002)] ∧
      (ofLaps laps).format 5000000 =
        shown [(.discovery, 1), (.discovery, 0), (.export, 2)] 5 ∧
      millis 4000001 < (1 + (0 + (2 + 0))) + 3 := by
  intro laps
  have hclock : (laps.map (·.2) ++ [(5000000 : Nat)]).Pairwise (· ≤ ·) := by decide
  obtain ⟨-, -, -, -, hformat, -, hmissed⟩ := phases_partition hclock
  exact ⟨hclock, by decide, (hformat _ _).2 ⟨by decide, by decide⟩, (hmissed (by decide)).2⟩

end Stopwatch

end Conformance

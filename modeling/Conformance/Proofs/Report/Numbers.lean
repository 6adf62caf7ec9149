import Conformance.Proofs.Report.Layouts

/-!
# Numbers in a run

`numbers_decoded_exactly` puts any JSON number into the place of one of a run's
numbers and says when the run is decoded and as what: the number is an integer in
the range of its field, and then it is kept as it is. A number too long for its
field is refused and never wrapped. What a word takes of a number as it is written
is settled first (`word?_number_eq_some_iff`, `int32?_number_eq_some_iff`); the
rest of the run is read as the printer wrote it, in whatever layout.
-/

namespace Conformance

namespace Json

namespace NumberText

variable (n : NumberText)

/-- Only one integer with a minus sign spells zero. -/
theorem text_eq_minus_zero_iff (hint : n.IsInteger) :
    n.text = ['-', '0'] ↔ n.negative = true ∧ n.magnitude = 0 := by
  obtain ⟨c, tail, hc⟩ := List.exists_cons_of_ne_nil n.digits_whole.1
  have hdigit : Decimal.isDigit c = true := n.digits_whole.2 c (hc ▸ List.mem_cons_self)
  have htext : n.text = (if n.negative then ['-'] else []) ++ n.whole := by
    rw [text, hint.1, hint.2, List.append_nil, List.append_nil]
  rw [htext, magnitude]
  cases n.negative with
  | true =>
      constructor
      · intro h
        have hwhole : n.whole = ['0'] := by simpa using h
        exact ⟨rfl, by rw [hwhole]; rfl⟩
      · rintro ⟨-, h⟩
        rw [hc] at h
        obtain rfl := Decimal.eq_zero_of_value_eq_zero hdigit h
        cases tail with
        | nil => rw [hc]; rfl
        | cons d tail => exact absurd hc (n.no_leading_zero d tail)
  | false =>
      constructor
      · intro h
        rw [hc] at h
        obtain rfl := (List.cons.inj h).1
        cases hdigit
      · rintro ⟨h, -⟩
        cases h

theorem int?_number_eq_some_iff {v : Int} :
    n.number.int? = some v ↔ n.IsInteger ∧ n.text ≠ ['-', '0'] ∧ v = n.value := by
  have hintegral : n.number.integral = true ↔ n.IsInteger := by
    simp [number, IsInteger]
  by_cases hint : n.IsInteger
  · have hzero := n.text_eq_minus_zero_iff hint
    simp only [hint, true_and, ne_eq, hzero]
    simp only [Number.int?, hintegral.2 hint, Bool.not_true, Bool.false_or]
    change (if (n.negative && decide (n.magnitude = 0)) = true then none
      else some n.value) = some v ↔ _
    by_cases hminus : n.negative = true ∧ n.magnitude = 0
    · simp [hminus]
    · rw [if_neg (by simpa using hminus), Option.some.injEq, eq_comm]
      simp only [hminus, not_false_eq_true, true_and]
  · have hnone : n.number.int? = none := by
      have hfalse : n.number.integral = false := by simpa using mt hintegral.1 hint
      simp [Number.int?, hfalse]
    simp [hnone, hint]

theorem word?_number_eq_some_iff {w : UInt64} :
    view.word? (.number n.number) = some w ↔
      n.IsInteger ∧ n.negative = false ∧ n.magnitude < 2 ^ 64 ∧ w = .ofNat n.magnitude := by
  have hword : view.word? (.number n.number) =
      n.number.int?.bind fun v => if 0 ≤ v then Word.unsigned? v.toNat else none := rfl
  have hsize : UInt64.size = 2 ^ 64 := rfl
  simp only [hword, Option.bind_eq_some_iff, int?_number_eq_some_iff,
    Option.ite_none_right_eq_some, Word.unsigned?, hsize, Option.some.injEq]
  constructor
  · rintro ⟨v, ⟨hint, hzero, rfl⟩, hnonneg, hlt, rfl⟩
    -- a minus sign in front of a number that is not negative makes minus zero
    have hpositive : n.negative = false := by
      rw [← Bool.not_eq_true]
      intro hnegative
      simp only [value, hnegative, if_true] at hnonneg
      exact hzero ((n.text_eq_minus_zero_iff hint).2 ⟨hnegative, by omega⟩)
    have hvalue : n.value.toNat = n.magnitude := by simp [value, hpositive]
    rw [hvalue] at hlt ⊢
    exact ⟨hint, hpositive, hlt, rfl⟩
  · rintro ⟨hint, hpositive, hlt, rfl⟩
    have hvalue : n.value = n.magnitude := by simp [value, hpositive]
    have hzero : n.text ≠ ['-', '0'] := by
      rw [Ne, n.text_eq_minus_zero_iff hint, hpositive]
      simp
    refine ⟨n.value, ⟨hint, hzero, rfl⟩, ?_⟩
    rw [hvalue, Int.toNat_natCast]
    exact ⟨Int.natCast_nonneg _, hlt, rfl⟩

theorem int32?_number_eq_some_iff {c : Int32} :
    view.int32? (.number n.number) = some c ↔
      n.IsInteger ∧ n.text ≠ ['-', '0'] ∧ -2 ^ 31 ≤ n.value ∧ n.value < 2 ^ 31 ∧
        c = .ofInt n.value := by
  have hint32 : view.int32? (.number n.number) = n.number.int?.bind Word.signed? := rfl
  have hrange (v : Int) : Int32.minValue.toInt ≤ v ∧ v ≤ Int32.maxValue.toInt ↔
      -2 ^ 31 ≤ v ∧ v < 2 ^ 31 := by
    have hmin : Int32.minValue.toInt = -2 ^ 31 := by decide
    have hmax : Int32.maxValue.toInt = 2 ^ 31 - 1 := by decide
    rw [hmin, hmax]
    omega
  simp only [hint32, Option.bind_eq_some_iff, int?_number_eq_some_iff, Word.signed?, hrange,
    Option.ite_none_right_eq_some, Option.some.injEq]
  constructor
  · rintro ⟨v, ⟨hint, hzero, rfl⟩, ⟨hlow, hhigh⟩, rfl⟩
    exact ⟨hint, hzero, hlow, hhigh, rfl⟩
  · rintro ⟨hint, hzero, hlow, hhigh, rfl⟩
    exact ⟨n.value, ⟨hint, hzero, rfl⟩, ⟨hlow, hhigh⟩, rfl⟩

theorem magnitude_ofInt (m : Int) : (ofInt m).magnitude = m.natAbs :=
  Decimal.value_toDigits m.natAbs

theorem value_ofInt (m : Int) : (ofInt m).value = m := by
  rw [value, magnitude_ofInt]
  simp only [ofInt, decide_eq_true_eq]
  split <;> omega

variable {β : Type} {b : β}

theorem map_word?_number_eq_some_iff (f : UInt64 → β) :
    (view.word? (.number n.number)).map f = some b ↔
      n.IsInteger ∧ n.negative = false ∧ n.magnitude < 2 ^ 64 ∧ b = f (.ofNat n.magnitude) := by
  simp only [Option.map_eq_some_iff, word?_number_eq_some_iff]
  constructor
  · rintro ⟨w, ⟨hint, hpositive, hlt, rfl⟩, rfl⟩
    exact ⟨hint, hpositive, hlt, rfl⟩
  · rintro ⟨hint, hpositive, hlt, rfl⟩
    exact ⟨_, ⟨hint, hpositive, hlt, rfl⟩, rfl⟩

theorem map_int32?_number_eq_some_iff (f : Int32 → β) :
    (view.int32? (.number n.number)).map f = some b ↔
      n.IsInteger ∧ n.text ≠ ['-', '0'] ∧ -2 ^ 31 ≤ n.value ∧ n.value < 2 ^ 31 ∧
        b = f (.ofInt n.value) := by
  simp only [Option.map_eq_some_iff, int32?_number_eq_some_iff]
  constructor
  · rintro ⟨c, ⟨hint, hzero, hlow, hhigh, rfl⟩, rfl⟩
    exact ⟨hint, hzero, hlow, hhigh, rfl⟩
  · rintro ⟨hint, hzero, hlow, hhigh, rfl⟩
    exact ⟨_, ⟨hint, hzero, hlow, hhigh, rfl⟩, rfl⟩

end NumberText

def setMember (k : String) (y : Json) : Json → Json
  | .object ms => .object (ms.map fun m => if m.1 = some k then (m.1, y) else m)
  | x => x

theorem mapM_set {β : Type} {read : Json → Option β} {tell : β → Json} {bs : List β}
    (h : ∀ b ∈ bs, read (tell b) = some b) {i : Nat} (hi : i < bs.length) (x : Json) :
    ((bs.map tell).set i x).mapM read = (read x).map fun b => bs.set i b := by
  induction bs generalizing i with
  | nil => cases hi
  | cons b bs ih =>
      obtain ⟨hb, hbs⟩ := List.forall_mem_cons.1 h
      cases i with
      | zero =>
          have hrest : (bs.map tell).mapM read = some bs := by
            rw [List.mapM_map]
            exact mapM_eq_some_self hbs
          rw [List.map_cons, List.set_cons_zero, List.mapM_cons, hrest]
          cases read x <;> rfl
      | succ i =>
          rw [List.map_cons, List.set_cons_succ, List.mapM_cons, hb,
            ih hbs (Nat.lt_of_succ_lt_succ hi)]
          cases read x <;> rfl

end Json

open Json

namespace Outcome

variable {o : Outcome}

theorem read?_told (ho : o.fixture.path.text?.isSome) (durationMs exitCode : Json) :
    read? view (.object (ofNamed (o.told durationMs exitCode))) = do
      let ms ← view.word? durationMs
      let code ← view.orNull? view.int32? exitCode
      return { o with durationMs := ms, exitCode := code } := by
  have hself : view.fields? fieldNames 0 (.object (ofNamed (o.told durationMs exitCode))) =
      some (o.told durationMs exitCode) := members_ofNamed _
  have hfixture := Fixture.read?_data view_shows ho
  simp only [read?, hself, Option.bind_eq_bind, Option.bind_some]
  simp [told, Fields.required, Fields.optional_eq, Fields.withDefault, hfixture, view_shows.variant,
    Status.ofName?_name, orNull?_text view_shows, orNull?_failure view_shows]

/-- The value of an outcome with its duration as it is written. -/
def withDuration (o : Outcome) (n : NumberText) : Json :=
  setMember "duration_ms" (.number n.number) (ofData o.data)

def withExitCode (o : Outcome) (n : NumberText) : Json :=
  setMember "exit_code" (.number n.number) (ofData o.data)

theorem withDuration_eq (o : Outcome) (n : NumberText) : o.withDuration n = .object (ofNamed
    (o.told (.number n.number) (ofData (.ofOption (fun c => .int c.toInt) o.exitCode)))) := by
  simp [withDuration, setMember, ofData_data, ofNamed, told]

theorem withExitCode_eq (o : Outcome) (n : NumberText) : o.withExitCode n = .object (ofNamed
    (o.told (ofData (.word o.durationMs)) (.number n.number))) := by
  simp [withExitCode, setMember, ofData_data, ofNamed, told]

theorem indifferent_withDuration (o : Outcome) (n : NumberText) :
    Indifferent (read? view) (o.withDuration n) := by
  rw [withDuration_eq]
  exact indifferent_read? rfl
    (isLeaf_ofData_ofOption (fun c => .int c.toInt) (fun _ => rfl) o.exitCode)

theorem indifferent_withExitCode (o : Outcome) (n : NumberText) :
    Indifferent (read? view) (o.withExitCode n) := by
  rw [withExitCode_eq]
  exact indifferent_read? rfl (.inr rfl)

theorem read?_withDuration (ho : o.fixture.path.text?.isSome) (n : NumberText) :
    read? view (o.withDuration n) =
      (view.word? (.number n.number)).map fun w => { o with durationMs := w } := by
  have hcode := view_shows.orNull?_ofOption
    (fun c => ⟨view_shows.int_not_null _, view_shows.int32 c⟩) o.exitCode
  rw [withDuration_eq, read?_told ho]
  cases view.word? (.number n.number) <;> simp [hcode]

theorem read?_withExitCode (ho : o.fixture.path.text?.isSome) (n : NumberText) :
    read? view (o.withExitCode n) =
      (view.int32? (.number n.number)).map fun c => { o with exitCode := some c } := by
  have hcode : view.orNull? view.int32? (.number n.number) =
      (view.int32? (.number n.number)).map some := rfl
  rw [withExitCode_eq, read?_told ho, view_shows.word, hcode]
  cases view.int32? (.number n.number) <;> rfl

end Outcome

namespace Summary

theorem read?_told (total passed skipped failed totalDurationMs : Json) (outcomes : List Json) :
    read? view (.object (ofNamed (told total passed skipped failed totalDurationMs outcomes))) = do
      let total ← view.word? total
      let passed ← view.word? passed
      let skipped ← view.word? skipped
      let failed ← view.word? failed
      let totalDurationMs ← view.word? totalDurationMs
      let outcomes ← outcomes.mapM (Outcome.read? view)
      return ⟨total, passed, skipped, failed, totalDurationMs, outcomes⟩ := by
  have hself : view.fields? fieldNames 0
      (.object (ofNamed (told total passed skipped failed totalDurationMs outcomes))) =
        some (told total passed skipped failed totalDurationMs outcomes) := members_ofNamed _
  have hlist : view.list? (.array outcomes) = some outcomes := rfl
  simp only [read?, hself, Option.bind_eq_bind, Option.bind_some]
  simp [told, Fields.required, hlist]

/-- The numbers of a summary. -/
inductive Count where
  | total
  | passed
  | skipped
  | failed
  | totalDurationMs

namespace Count

def name : Count → String
  | .total => "total"
  | .passed => "passed"
  | .skipped => "skipped"
  | .failed => "failed"
  | .totalDurationMs => "total_duration_ms"

def set (w : UInt64) (s : Summary) : Count → Summary
  | .total => { s with total := w }
  | .passed => { s with passed := w }
  | .skipped => { s with skipped := w }
  | .failed => { s with failed := w }
  | .totalDurationMs => { s with totalDurationMs := w }

end Count

/-- The value of a run with one of its counts as it is written. -/
def withCount (s : Summary) (count : Count) (n : NumberText) : Json :=
  setMember count.name (.number n.number) (ofData s.data)

def withOutcome (s : Summary) (i : Nat) (x : Json) : Json :=
  setMember "outcomes" (.array ((s.outcomes.map fun o => ofData o.data).set i x)) (ofData s.data)

variable {s : Summary}

theorem mapM_read?_outcomes (hs : s.PathsHaveTexts) :
    (s.outcomes.map fun o => ofData o.data).mapM (Outcome.read? view) = some s.outcomes := by
  rw [List.mapM_map]
  exact mapM_eq_some_self fun o ho => Outcome.read?_data view_shows (hs o ho)

theorem read?_withCount (hs : s.PathsHaveTexts) (count : Count) (n : NumberText) :
    read? view (s.withCount count n) =
      (view.word? (.number n.number)).map fun w => count.set w s := by
  have hmembers (ms : List (Option String × Json)) :
      view.fields? fieldNames 0 (.object ms) = members ms := rfl
  have hlist (xs : List Json) : view.list? (.array xs) = some xs := rfl
  have houtcomes := mapM_read?_outcomes hs
  cases count <;>
    simp only [withCount, setMember, ofData_data, ofNamed, told, Count.name, List.map_cons,
      List.map_nil] <;>
    simp [read?, hmembers, members, Fields.required, view_shows.word, hlist, houtcomes,
      Count.set] <;>
    cases view.word? (.number n.number) <;> rfl

theorem withOutcome_eq (s : Summary) (i : Nat) (x : Json) : s.withOutcome i x = .object (ofNamed
    (told (ofData (.word s.total)) (ofData (.word s.passed)) (ofData (.word s.skipped))
      (ofData (.word s.failed)) (ofData (.word s.totalDurationMs))
      ((s.outcomes.map fun o => ofData o.data).set i x))) := by
  simp [withOutcome, setMember, ofData_data, ofNamed, told]

theorem read?_withOutcome (hs : s.PathsHaveTexts) {i : Nat} (hi : i < s.outcomes.length)
    (x : Json) :
    read? view (s.withOutcome i x) =
      (Outcome.read? view x).map fun o => { s with outcomes := s.outcomes.set i o } := by
  have houtcomes := mapM_set (fun o ho => Outcome.read?_data view_shows (hs o ho)) hi x
  rw [withOutcome_eq, read?_told]
  simp only [view_shows.word, houtcomes]
  cases Outcome.read? view x <;> rfl

theorem indifferent_withCount (s : Summary) (count : Count) (n : NumberText) :
    Indifferent (read? view) (s.withCount count n) := by
  rw [withCount, ofData_data]
  cases count <;>
    simp only [setMember, ofNamed, told, Count.name, List.map_cons, List.map_nil] <;>
    exact indifferent_read? rfl rfl rfl rfl rfl s.indifferent_outcomes

theorem indifferent_withOutcome (s : Summary) (i : Nat) {x : Json}
    (hx : Indifferent (Outcome.read? view) x) : Indifferent (read? view) (s.withOutcome i x) := by
  rw [withOutcome_eq]
  refine indifferent_read? rfl rfl rfl rfl rfl fun y hy => ?_
  rcases List.mem_or_eq_of_mem_set hy with hy | rfl
  · exact s.indifferent_outcomes y hy
  · exact hx

/-- A number in a run is decoded exactly if it is an integer in the range of its field, as the
number it is: a count and a duration without a sign and below 2⁶⁴, an exit code other than minus
zero and from -2³¹ up to 2³¹. -/
theorem numbers_decoded_exactly {s : Summary} (hs : s.PathsHaveTexts) (n : NumberText) {x : Json}
    {text : String} (htext : Writes text x) (s' : Summary) :
    (∀ count, Retells (s.withCount count n) x →
      (ofJson? text = some s' ↔ n.IsInteger ∧ n.negative = false ∧ n.magnitude < 2 ^ 64 ∧
        s' = count.set (.ofNat n.magnitude) s)) ∧
    ∀ i o, s.outcomes[i]? = some o →
      (Retells (s.withOutcome i (o.withDuration n)) x →
        (ofJson? text = some s' ↔ n.IsInteger ∧ n.negative = false ∧ n.magnitude < 2 ^ 64 ∧
          s' = { s with
            outcomes := s.outcomes.set i { o with durationMs := .ofNat n.magnitude } })) ∧
      (Retells (s.withOutcome i (o.withExitCode n)) x →
        (ofJson? text = some s' ↔ n.IsInteger ∧ n.text ≠ ['-', '0'] ∧
          -2 ^ 31 ≤ n.value ∧ n.value < 2 ^ 31 ∧
          s' = { s with
            outcomes := s.outcomes.set i { o with exitCode := some (.ofInt n.value) } })) := by
  rw [ofJson?, htext.read?, Option.bind_some]
  refine ⟨fun count hx => ?_, fun i o ho => ⟨fun hx => ?_, fun hx => ?_⟩⟩
  · rw [s.indifferent_withCount count n x hx, read?_withCount hs, n.map_word?_number_eq_some_iff]
  · have hpath := hs o (List.mem_of_getElem? ho)
    have hi : i < s.outcomes.length := (List.getElem?_eq_some_iff.1 ho).1
    have hindifferent := s.indifferent_withOutcome i (o.indifferent_withDuration n)
    rw [hindifferent x hx, read?_withOutcome hs hi, Outcome.read?_withDuration hpath,
      Option.map_map, n.map_word?_number_eq_some_iff]
    rfl
  · have hpath := hs o (List.mem_of_getElem? ho)
    have hi : i < s.outcomes.length := (List.getElem?_eq_some_iff.1 ho).1
    have hindifferent := s.indifferent_withOutcome i (o.indifferent_withExitCode n)
    rw [hindifferent x hx, read?_withOutcome hs hi, Outcome.read?_withExitCode hpath,
      Option.map_map, n.map_int32?_number_eq_some_iff]
    rfl

section Limits

/-- The sample with two of its numbers as they are given, every record a bare list. -/
def bareText (total exitCode : String) : String :=
  "[" ++ total ++ ",1,0,0,5,[[[\"/s/a\",\"a\"],\"passed\",5," ++ exitCode ++ ",null,null,null]]]"

def bareValue (total exitCode : Json) : Json :=
  .array [total, .number (spelling 1), .number (spelling 0), .number (spelling 0),
    .number (spelling 5), .array [.array [.array [.string (some "/s/a"), .string (some "a")],
      .string (some "passed"), .number (spelling 5), exitCode, .null, .null, .null]]]

theorem retells_bareOutcome {exitCode : Json} (hcode : Retells exitCode exitCode) : Retells
    (.object (ofNamed (sampleOutcome.told (ofData (.word 5)) exitCode)))
    (.array [.array [.string (some "/s/a"), .string (some "a")], .string (some "passed"),
      .number (spelling 5), exitCode, .null, .null, .null]) := by
  have hstatus : Retells (ofData (.text sampleOutcome.status.name)) (.string (some "passed")) :=
    .string _
  have hduration : Retells (ofData (.word 5)) (.number (spelling 5)) := .number _
  have hmessage : Retells (ofData (.ofOption .text sampleOutcome.message)) .null := .null
  have houtput : Retells (ofData (.ofOption .text sampleOutcome.capturedOutput)) .null := .null
  have hfailure : Retells
      (ofData (.ofOption (fun k : FailureKind => .text k.name) sampleOutcome.failure)) .null :=
    .null
  refine .bare rfl ?_
  simp [Outcome.told, ofNamed, retells_sampleFixture, hstatus, hduration, hcode, hmessage, houtput,
    hfailure]

theorem retells_bareValue {total exitCode : Json} (htotal : Retells total total)
    (hcode : Retells exitCode exitCode) : Retells
    (.object (ofNamed (told total (ofData (.word 1)) (ofData (.word 0)) (ofData (.word 0))
      (ofData (.word 5)) [.object (ofNamed (sampleOutcome.told (ofData (.word 5)) exitCode))])))
    (bareValue total exitCode) := by
  have hzero : Retells (ofData (.word 0)) (.number (spelling 0)) := .number _
  have hone : Retells (ofData (.word 1)) (.number (spelling 1)) := .number _
  have hfive : Retells (ofData (.word 5)) (.number (spelling 5)) := .number _
  have houtcomes : Retells
      (.array [.object (ofNamed (sampleOutcome.told (ofData (.word 5)) exitCode))])
      (.array [.array [.array [.string (some "/s/a"), .string (some "a")], .string (some "passed"),
        .number (spelling 5), exitCode, .null, .null, .null]]) :=
    .array rfl (by simpa using retells_bareOutcome hcode)
  refine .bare rfl ?_
  simp [told, ofNamed, htotal, hzero, hone, hfive]
  simpa [ofNamed] using houtcomes

theorem retells_bareTotal (n : NumberText) : Retells (sample.withCount .total n)
    (bareValue (.number n.number) (.number (spelling 0))) := by
  have hvalue : sample.withCount .total n = .object (ofNamed (told (.number n.number)
      (ofData (.word 1)) (ofData (.word 0)) (ofData (.word 0)) (ofData (.word 5))
      [.object (ofNamed (sampleOutcome.told (ofData (.word 5)) (.number (spelling 0))))])) := by
    simp [withCount, setMember, ofData_data, ofNamed, told, Count.name, sample, Outcome.ofData_data]
    rfl
  rw [hvalue]
  exact retells_bareValue (.number _) (.number _)

theorem retells_bareExitCode (n : NumberText) :
    Retells (sample.withOutcome 0 (sampleOutcome.withExitCode n))
      (bareValue (.number (spelling 1)) (.number n.number)) := by
  rw [withOutcome_eq, Outcome.withExitCode_eq]
  exact retells_bareValue (.number _) (.number _)

def minusZero : NumberText := { NumberText.ofInt 0 with negative := true }

/-- The total and the exit code at the ends of their ranges. -/
theorem numbers_decoded_exactly_at_limits :
    sample.PathsHaveTexts ∧
      ofJson? (bareText "18446744073709551615" "0") =
        some { sample with total := 18446744073709551615 } ∧
      ofJson? (bareText "18446744073709551616" "0") = none ∧
      ofJson? (bareText "1" "-2147483648") =
        some { sample with outcomes := [{ sampleOutcome with exitCode := some (-2147483648) }] } ∧
      ofJson? (bareText "1" "-0") = none := by
  have hs : sample.PathsHaveTexts := by
    simp [PathsHaveTexts, sample, text?_sampleOutcome]
  refine ⟨hs, ?_, ?_, ?_, ?_⟩
  · have htext : Writes (bareText "18446744073709551615" "0")
        (bareValue (.number (spelling 18446744073709551615)) (.number (spelling 0))) :=
      read?_eq_some_iff.1 (by cbv)
    refine ((numbers_decoded_exactly hs _ htext _).1 _
      (retells_bareTotal (.ofInt 18446744073709551615))).2 ⟨⟨rfl, rfl⟩, rfl, ?_, ?_⟩
    · rw [NumberText.magnitude_ofInt]
      decide
    · rw [NumberText.magnitude_ofInt]
      rfl
  · have htext : Writes (bareText "18446744073709551616" "0")
        (bareValue (.number (spelling 18446744073709551616)) (.number (spelling 0))) :=
      read?_eq_some_iff.1 (by cbv)
    rw [Option.eq_none_iff_forall_ne_some]
    intro s' h
    obtain ⟨-, -, hlt, -⟩ := ((numbers_decoded_exactly hs _ htext s').1 _
      (retells_bareTotal (.ofInt 18446744073709551616))).1 h
    rw [NumberText.magnitude_ofInt] at hlt
    exact absurd hlt (by decide)
  · have htext : Writes (bareText "1" "-2147483648")
        (bareValue (.number (spelling 1)) (.number (spelling (-2147483648)))) :=
      read?_eq_some_iff.1 (by cbv)
    refine (((numbers_decoded_exactly hs _ htext _).2 0 sampleOutcome rfl).2
      (retells_bareExitCode (.ofInt (-2147483648)))).2 ⟨⟨rfl, rfl⟩, ?_, ?_, ?_, ?_⟩
    · decide
    · rw [NumberText.value_ofInt]
      decide
    · rw [NumberText.value_ofInt]
      decide
    · rw [NumberText.value_ofInt]
      rfl
  · have htext : Writes (bareText "1" "-0")
        (bareValue (.number (spelling 1)) (.number minusZero.number)) :=
      read?_eq_some_iff.1 (by cbv)
    rw [Option.eq_none_iff_forall_ne_some]
    intro s' h
    obtain ⟨-, hzero, -⟩ := (((numbers_decoded_exactly hs _ htext s').2 0 sampleOutcome rfl).2
      (retells_bareExitCode minusZero)).1 h
    exact hzero (by decide)

end Limits

end Summary

end Conformance

import Conformance.Proofs.Yaml.Blocks
import Conformance.Yaml.Token

/-!
# Scanning scalars in blocks

Printed reports hold block collections, so all scanners here stand outside of
flow collections (`Scanner.inBlock`). `Reaches s s'` says that scanning on from
`s` gives the tokens that scanning on from `s'` gives; it is how the steps of the
scanner are put one behind the other. A text `Passes` if the scanner gets from
its start to the first line behind it with new tokens and nothing else changed.
Every style of a scalar passes with its text as the one new token
(`StandsPlain.passes`, `passes_singleQuoted`, `passes_doubleQuoted` and
`passes_literal`). Those that can be keys leave their place behind, which is too
far back once the line has ended (`line_le_of_mem_placeOf`).
-/

namespace Conformance.Yaml

variable {cs rest : List Char} {x : Char} {c n : Nat}

namespace Mark

theorem line_le_line_advance (m : Mark) (n : Nat) (cs : List Char) :
    m.line ≤ (m.advance n cs).line := by
  induction cs generalizing m n with
  | nil => cases n <;> exact Nat.le_refl _
  | cons x cs ih =>
      cases n with
      | zero => exact Nat.le_refl _
      | succ n =>
          rw [advance]
          split_ifs
          · refine Nat.le_trans ?_ (ih _ n)
            exact Nat.le_refl _
          · refine Nat.le_trans ?_ (ih _ n)
            exact Nat.le_succ _
          · refine Nat.le_trans ?_ (ih _ n)
            exact Nat.le_refl _

theorem advance_append (m : Mark) (cs rest : List Char) (n : Nat) :
    m.advance (cs.length + n) (cs ++ rest) = (m.advance cs.length (cs ++ rest)).advance n rest := by
  induction cs generalizing m with
  | nil => rw [List.length_nil, Nat.zero_add, List.nil_append, advance]
  | cons x cs ih =>
      have hlength : (x :: cs).length + n = cs.length + n + 1 := by
        rw [List.length_cons]
        omega
      rw [hlength, List.cons_append, List.length_cons, advance, advance]
      split_ifs
      · exact ih _
      · exact ih _
      · exact ih _

/-- Within a line only the column and the number of bytes grow. -/
theorem advance_of_unbroken (m : Mark) (hcs : ∀ x ∈ cs, isBreak x = false) (rest : List Char) :
    m.advance cs.length (cs ++ rest) =
      ⟨m.line, m.column + cs.length, m.index + (cs.flatMap Utf8.encodeChar).length⟩ := by
  induction cs generalizing m with
  | nil => rfl
  | cons x cs ih =>
      obtain ⟨hx, hcs⟩ := List.forall_mem_cons.1 hcs
      have hreturn : x ≠ '\r' := by
        rintro rfl
        cases hx
      rw [List.length_cons, List.cons_append, advance]
      simp only [beq_eq_false_iff_ne.2 hreturn, hx, Bool.false_and, Bool.false_eq_true, if_false]
      rw [ih _ hcs, List.flatMap_cons, List.length_append]
      simp only [mk.injEq, true_and]
      omega

theorem advance_one (m : Mark) (hx : isBreak x = false) (rest : List Char) :
    m.advance 1 (x :: rest) =
      ⟨m.line, m.column + 1, m.index + (Utf8.encodeChar x).length⟩ := by
  have hunbroken : ∀ y ∈ [x], isBreak y = false := List.forall_mem_singleton.2 hx
  have hadvance := advance_of_unbroken m hunbroken rest
  rwa [List.length_singleton, List.singleton_append, List.flatMap_singleton] at hadvance

theorem isBreak_eq_false_of_mem_indentation (h : x ∈ indentation n) : isBreak x = false := by
  rw [List.eq_of_mem_replicate h]
  rfl

theorem advance_break (m : Mark) (hx : isBreak x = true) (hreturn : x ≠ '\r') (n : Nat)
    (rest : List Char) :
    m.advance (n + 1) (x :: rest) =
      Mark.advance ⟨m.line + 1, 0, m.index + (Utf8.encodeChar x).length⟩ n rest := by
  rw [advance]
  simp [hreturn, hx]

/-- Behind a line break the column is that of the indentation. -/
theorem advance_line (m : Mark) (cs : List Char) (hx : isBreak x = true) (hreturn : x ≠ '\r')
    (n : Nat) (rest : List Char) :
    ∃ m', m.advance (cs.length + (n + 1)) (cs ++ x :: (indentation n ++ rest)) = m' ∧
      m'.column = n ∧ m.line < m'.line := by
  have hline := line_le_line_advance m cs.length (cs ++ x :: (indentation n ++ rest))
  have hlength : (indentation n).length = n := List.length_replicate
  have hmargin : ∀ y ∈ indentation n, isBreak y = false :=
    fun y => isBreak_eq_false_of_mem_indentation
  have hunbroken (m' : Mark) := advance_of_unbroken m' hmargin rest
  rw [hlength] at hunbroken
  rw [advance_append, advance_break _ hx hreturn, hunbroken]
  refine ⟨_, rfl, Nat.zero_add n, ?_⟩
  exact Nat.lt_succ_of_le hline

end Mark

namespace Scanner

variable {s s₁ s₂ s₃ : Scanner} {allowed : Bool} {key : Option KeyPlace} {ts : List Token}
  {m : Mark} {i j : Int} {is : List Int}

/-- A scanner outside of flow collections. -/
def inBlock (allowed : Bool) (key : Option KeyPlace) (ts : List Token) (m : Mark) (indent : Int)
    (indents : List Int) (rest : List Char) : Scanner where
  rest := rest
  mark := m
  indent := indent
  indents := indents
  keyAllowed := allowed
  keys := [key]
  tokens := ts.toArray

/-- The scanner in front of the next token, without keys that are too far back. -/
def prepare? (s : Scanner) : Option Scanner := (skipSpacing (s.rest.length + 1) s).dropStale?

/-- Scanning on from the first scanner gives what scanning on from the second one does. -/
def Reaches (s s' : Scanner) : Prop :=
  ∀ fuel, s.rest.length < fuel → ∃ fuel', s'.rest.length < fuel' ∧ scan? fuel s = scan? fuel' s'

theorem Reaches.refl (s : Scanner) : Reaches s s := fun fuel hfuel => ⟨fuel, hfuel, rfl⟩

theorem Reaches.trans (h : Reaches s₁ s₂) (h' : Reaches s₂ s₃) : Reaches s₁ s₃ := by
  intro fuel hfuel
  obtain ⟨fuel', hfuel', hscan⟩ := h fuel hfuel
  obtain ⟨fuel'', hfuel'', hscan'⟩ := h' fuel' hfuel'
  exact ⟨fuel'', hfuel'', hscan.trans hscan'⟩

theorem scan?_of_prepare? {fuel : Nat} (h : s.prepare? = some s₁) :
    scan? (fuel + 1) s =
      if (s₁.unrollTo s₁.mark.column).rest.isEmpty then
        (s₁.unrollTo s₁.mark.column).finish?.map (·.tokens)
      else (s₁.unrollTo s₁.mark.column).token?.bind (scan? fuel) := by
  rw [scan?, ← prepare?, h]
  dsimp only [Option.bind_eq_bind, Option.bind_some]
  split_ifs
  · cases finish? _ <;> rfl
  · rfl

theorem reaches_of_prepare? (h : s.prepare? = some s₁) (h₁ : s₁.prepare? = some s₁)
    (hlength : s₁.rest.length ≤ s.rest.length) : Reaches s s₁ := by
  intro fuel hfuel
  refine ⟨fuel, by omega, ?_⟩
  obtain ⟨fuel, rfl⟩ := Nat.exists_eq_add_one.2 (Nat.zero_lt_of_lt hfuel)
  rw [scan?_of_prepare? h, scan?_of_prepare? h₁]

theorem reaches_of_token? (h : s.prepare? = some s) (hunroll : s.unrollTo s.mark.column = s)
    (htoken : s.token? = some s₁) (hlength : s₁.rest.length < s.rest.length) : Reaches s s₁ := by
  intro fuel hfuel
  obtain ⟨fuel, rfl⟩ := Nat.exists_eq_add_one.2 (Nat.zero_lt_of_lt hfuel)
  have hne : s.rest.isEmpty = false := by
    rw [List.isEmpty_eq_false_iff, ← List.length_pos_iff]
    omega
  refine ⟨fuel, by omega, ?_⟩
  rw [scan?_of_prepare? h, hunroll, hne, htoken]
  rfl

theorem moveTo_self (s : Scanner) : s.moveTo s.rest = s := by
  rw [moveTo, Nat.sub_self, Mark.advance]

theorem moveTo_append (cs : List Char) (h : s.rest = cs ++ rest) :
    s.moveTo rest = { s with rest, mark := s.mark.advance cs.length (cs ++ rest) } := by
  rw [moveTo, h, List.length_append, Nat.add_sub_cancel]

theorem dropWhile_indentation {p : Char → Bool} (hp : p ' ' = true)
    (h : ∀ x ∈ rest.head?, p x = false) : (indentation n ++ rest).dropWhile p = rest := by
  rw [List.dropWhile_append_of_pos]
  · cases rest with
    | nil => rfl
    | cons x rest => rw [List.dropWhile_cons_of_neg (by simp [h x rfl])]
  · intro x hx
    rwa [List.eq_of_mem_replicate hx]

theorem skipSpacing_indentation {fuel : Nat} (hs : s.rest = indentation n ++ rest)
    (h : Settled rest) : skipSpacing (fuel + 1) s = s.moveTo rest := by
  have hmark : s.rest.head? ≠ some byteOrderMark := by
    rw [hs]
    cases n with
    | zero =>
        intro hhead
        exact (h _ hhead).2.2 rfl
    | succ n => exact fun hhead => absurd (Option.some.inj hhead) (by decide)
  have hdrop : s.rest.dropWhile (fun c => c == ' ' || ((s.inFlow || !s.keyAllowed) && c == '\t')) =
      rest := by
    rw [hs]
    refine dropWhile_indentation rfl fun x hx => ?_
    have hblank := (isSpacing_eq_false.1 (h x hx).1).1
    rw [isBlank, Bool.or_eq_false_iff] at hblank
    rw [hblank.1, hblank.2, Bool.and_false, Bool.or_false]
  have hsharp : rest.head? ≠ some '#' := fun hhead => (h _ hhead).2.1 rfl
  have hbreak : lineBreak? rest = none := by
    cases rest with
    | nil => rfl
    | cons x rest =>
        exact lineBreak?_of_isBreak_eq_false (isSpacing_eq_false.1 (h x rfl).1).2 rest
  rw [skipSpacing]
  simp only [beq_eq_false_iff_ne.2 hmark, Bool.and_false, Bool.false_eq_true, if_false, hdrop,
    beq_eq_false_iff_ne.2 hsharp, hbreak]

theorem skipSpacing_newline {fuel : Nat} (hs : s.rest = '\n' :: rest) (hflow : s.inFlow = false) :
    skipSpacing (fuel + 1) s = skipSpacing fuel { s.moveTo rest with keyAllowed := true } := by
  have hmark : s.rest.head? ≠ some byteOrderMark := by
    rw [hs]
    exact fun hhead => absurd (Option.some.inj hhead) (by decide)
  have hdrop : s.rest.dropWhile (fun c => c == ' ' || ((s.inFlow || !s.keyAllowed) && c == '\t')) =
      s.rest := by
    rw [hs]
    simp
  have hsharp : s.rest.head? ≠ some '#' := by
    rw [hs]
    exact fun hhead => absurd (Option.some.inj hhead) (by decide)
  have hbreak : lineBreak? s.rest = some ('\n', rest) := by
    rw [hs, lineBreak?_newline]
  have hflow' : (s.moveTo rest).inFlow = false := hflow
  rw [skipSpacing]
  simp only [beq_eq_false_iff_ne.2 hmark, Bool.and_false, Bool.false_eq_true, if_false, hdrop,
    beq_eq_false_iff_ne.2 hsharp, moveTo_self, hbreak, hflow']

/-- The places that are too far back are forgotten. -/
theorem dropStale?_inBlock (h : ∀ k ∈ key, isStale m k = true ∧ k.required = false) :
    (inBlock allowed key ts m i is rest).dropStale? =
      some (inBlock allowed none ts m i is rest) := by
  cases key with
  | none => rfl
  | some k =>
      obtain ⟨hstale, hrequired⟩ := h k rfl
      simp [dropStale?, inBlock, hstale, hrequired]

theorem prepare?_inBlock (h : Settled rest)
    (hkey : ∀ k ∈ key, isStale m k = true ∧ k.required = false) :
    (inBlock allowed key ts m i is rest).prepare? = some (inBlock allowed none ts m i is rest) := by
  rw [prepare?, skipSpacing_indentation (n := 0) rfl h]
  have hmove := moveTo_self (inBlock allowed key ts m i is rest)
  exact (congrArg dropStale? hmove).trans (dropStale?_inBlock hkey)

theorem prepare?_inBlock_none (h : Settled rest) :
    (inBlock allowed none ts m i is rest).prepare? = some (inBlock allowed none ts m i is rest) :=
  prepare?_inBlock h nofun

theorem isStale_of_line_lt {k : KeyPlace} (h : k.mark.line < m.line) : isStale m k = true := by
  simp [isStale, h]

/-- A scalar has been read through its line and the indentation of the next one. -/
theorem reaches_settled (h : Settled rest)
    (hkey : ∀ k ∈ key, k.mark.line < m.line ∧ k.required = false) :
    Reaches (inBlock allowed key ts m i is rest) (inBlock allowed none ts m i is rest) :=
  have hstale : ∀ k ∈ key, isStale m k = true ∧ k.required = false :=
    fun k hk => ⟨isStale_of_line_lt (hkey k hk).1, (hkey k hk).2⟩
  reaches_of_prepare? (prepare?_inBlock h hstale) (prepare?_inBlock_none h) (Nat.le_refl _)

theorem moveTo_inBlock (cs : List Char) :
    (inBlock allowed key ts m i is (cs ++ rest)).moveTo rest =
      inBlock allowed key ts (m.advance cs.length (cs ++ rest)) i is rest := by
  rw [moveTo_append cs rfl]
  rfl

/-- A line ends, and the next one is indented by `n`. -/
theorem exists_reaches_line (m : Mark) (n : Nat) (h : Settled rest) :
    ∃ m', m'.column = n ∧ ∀ {allowed key ts i is},
      (∀ k ∈ key, k.mark.line ≤ m.line ∧ k.required = false) →
        Reaches (inBlock allowed key ts m i is ('\n' :: (indentation n ++ rest)))
          (inBlock true none ts m' i is rest) := by
  obtain ⟨m', hadvance, hcolumn, hline⟩ :=
    m.advance_line [] (x := '\n') (by decide) (by decide) n rest
  have hlength : (indentation n).length = n := List.length_replicate
  have hsplit := m.advance_append ['\n'] (indentation n ++ rest) n
  rw [List.length_singleton, Nat.add_comm 1 n] at hsplit
  rw [List.length_nil, Nat.zero_add, List.nil_append, ← List.singleton_append, hsplit] at hadvance
  refine ⟨m', hcolumn, fun {allowed key ts i is} hkey => ?_⟩
  have hmove : { (inBlock allowed key ts m i is (['\n'] ++ (indentation n ++ rest))).moveTo
      (indentation n ++ rest) with keyAllowed := true } =
        inBlock true key ts (m.advance 1 (['\n'] ++ (indentation n ++ rest))) i is
          (indentation n ++ rest) := by
    rw [moveTo_inBlock]
    rfl
  have hspacing : skipSpacing (('\n' :: (indentation n ++ rest)).length + 1)
      (inBlock allowed key ts m i is ('\n' :: (indentation n ++ rest))) =
        inBlock true key ts m' i is rest := by
    rw [skipSpacing_newline rfl rfl, List.length_cons, skipSpacing_indentation (n := n) rfl h]
    refine (congrArg (moveTo · rest) hmove).trans ?_
    rw [moveTo_inBlock, hlength, hadvance]
  refine reaches_of_prepare? ?_ (prepare?_inBlock_none h) ?_
  · refine (congrArg dropStale? hspacing).trans (dropStale?_inBlock fun k hk => ⟨?_, (hkey k hk).2⟩)
    exact isStale_of_line_lt (Nat.lt_of_le_of_lt (hkey k hk).1 hline)
  · simp [inBlock]
    omega

theorem exists_reaches_space (m : Mark) (h : Settled rest) :
    ∃ m', m'.column = m.column + 1 ∧ ∀ {allowed ts i is},
      Reaches (inBlock allowed none ts m i is (' ' :: rest))
        (inBlock allowed none ts m' i is rest) := by
  refine ⟨m.advance 1 (' ' :: rest), rfl, reaches_of_prepare? ?_ (prepare?_inBlock_none h) ?_⟩
  · rw [prepare?, skipSpacing_indentation (n := 1) rfl h]
    exact (congrArg dropStale? (moveTo_inBlock [' '])).trans (dropStale?_inBlock nofun)
  · exact Nat.le_succ _

theorem push_inBlock (t : Token) :
    (inBlock allowed key ts m i is rest).push t = inBlock allowed key (ts ++ [t]) m i is rest := by
  simp [push, inBlock]

theorem unroll_of_le {column : Int} (h : s.indent ≤ column) (is : List Int) :
    unroll column is s = { s with indents := is } := by
  rw [unroll.eq_def]
  exact if_pos (by simp [h])

theorem unroll_of_lt {column : Int} (hflow : s.inFlow = false) (h : column < s.indent) (j : Int)
    (is : List Int) :
    unroll column (j :: is) s = unroll column is { s.push .blockEnd with indent := j } := by
  rw [unroll.eq_def]
  exact if_neg (by simp [hflow, h])

/-- Only the columns that are handed over are looked at. -/
theorem unroll_indents {column : Int} (hflow : s.inFlow = false) (is js : List Int) :
    unroll column is { s with indents := js } = unroll column is s := by
  induction is generalizing s with
  | nil => rfl
  | cons j is ih =>
      by_cases h : s.indent ≤ column
      · rw [unroll_of_le h]
        exact unroll_of_le (s := { s with indents := js }) h (j :: is)
      · rw [Int.not_le] at h
        rw [unroll_of_lt hflow h]
        exact (unroll_of_lt (s := { s with indents := js }) hflow h j is).trans
          (ih (s := { s.push .blockEnd with indent := j }) hflow)

theorem unrollTo_of_le {column : Int} (h : i ≤ column) :
    (inBlock allowed key ts m i is rest).unrollTo column = inBlock allowed key ts m i is rest :=
  unroll_of_le h is

/-- The innermost block is closed in front of a line that is not as deep. -/
theorem unrollTo_of_lt {column : Int} (h : column < i) :
    (inBlock allowed key ts m i (j :: is) rest).unrollTo column =
      (inBlock allowed key (ts ++ [.blockEnd]) m j is rest).unrollTo column := by
  refine (unroll_of_lt rfl h j is).trans ?_
  rw [push_inBlock]
  exact (unroll_indents rfl is is).symm

/-- The place that is remembered in front of a node. -/
def placeOf (allowed : Bool) (ts : List Token) (m : Mark) (i : Int) : Option KeyPlace :=
  if allowed then some ⟨m, ts.length, i == (m.column : Int)⟩ else none

theorem saveKey?_inBlock :
    (inBlock allowed none ts m i is rest).saveKey? =
      some (inBlock allowed (placeOf allowed ts m i) ts m i is rest) := by
  cases allowed <;> rfl

/-- Deeper than the enclosing block no key is required. -/
theorem line_le_of_mem_placeOf (allowed : Bool) (ts : List Token) (h : i < m.column) :
    ∀ k ∈ placeOf allowed ts m i, k.mark.line ≤ m.line ∧ k.required = false := by
  intro k hk
  cases allowed with
  | false => cases hk
  | true =>
      cases hk
      have hne : i ≠ m.column := by omega
      exact ⟨Nat.le_refl _, beq_eq_false_iff_ne.2 hne⟩

/-- A scalar that can be a key is read as a token. -/
theorem nodePart?_inBlock {read : List Char → Option (Token × List Char)} {t : Token}
    {rest' : List Char} (h : read rest = some (t, rest')) :
    (inBlock allowed none ts m i is rest).nodePart? read =
      some ((inBlock false (placeOf allowed ts m i) (ts ++ [t]) m i is rest).moveTo rest') := by
  rw [nodePart?, saveKey?_inBlock]
  dsimp only [Option.bind_eq_bind, Option.bind_some]
  have hread : read (inBlock allowed (placeOf allowed ts m i) ts m i is rest).rest =
      some (t, rest') := h
  rw [hread]
  exact congrArg (fun s => some (moveTo s rest')) (push_inBlock t)

theorem blockScalar?_inBlock {text : String} {rest' : List Char}
    (h : block? false i (rest.drop 1) = some (text, rest')) :
    (inBlock allowed none ts m i is rest).blockScalar? .literal =
      some ((inBlock true none (ts ++ [.scalar .literal text]) m i is rest).moveTo rest') := by
  have hread : block? (Style.literal == .folded) (inBlock allowed none ts m i is rest).indent
      ((inBlock allowed none ts m i is rest).rest.drop 1) = some (text, rest') := h
  rw [blockScalar?]
  dsimp only [forgetKey?, inBlock, Option.bind_eq_bind, Option.bind_some]
  dsimp only [inBlock] at hread
  rw [hread]
  exact congrArg (fun s => some (moveTo s rest')) (push_inBlock _)

theorem plainScalar?_inBlock {es : List Element} {ended : Bool} {rest' : List Char}
    (h : plain? false (i + 1) (rest.length + 1) .inWord m.column rest = some (es, ended, rest')) :
    (inBlock allowed none ts m i is rest).plainScalar? =
      some ((inBlock ended (placeOf allowed ts m i) (ts ++ [.scalar .plain (fold (trimEnd es))]) m i
        is rest).moveTo rest') := by
  have hread : plain? (inBlock allowed (placeOf allowed ts m i) ts m i is rest).inFlow (i + 1)
      (rest.length + 1) .inWord m.column rest = some (es, ended, rest') := h
  rw [plainScalar?, saveKey?_inBlock]
  dsimp only [Option.bind_eq_bind, Option.bind_some]
  refine (congrArg (Option.bind · _) hread).trans ?_
  exact congrArg (fun s => some (moveTo s rest')) (push_inBlock _)

/-- A plain scalar is read where no other token starts. -/
theorem token?_inBlock_plain {r : List Char} (hindicator : isIndicator x = false)
    (hspacing : isSpacing x = false) (hmark : x = '?' ∨ x = ':' ∨ x = '-' → atSpacing r = false)
    (hdocument : m.column = 0 → atDocumentMark (x :: r) = false) :
    (inBlock allowed key ts m i is (x :: r)).token? =
      (inBlock allowed key ts m i is (x :: r)).plainScalar? := by
  have hstart : startsPlain false (x :: r) = true := by
    rw [startsPlain]
    split_ifs with hdash hother
    · have hatSpacing := hmark (.inr (.inr (by simpa using hdash)))
      cases r with
      | nil => rfl
      | cons y r =>
          have hblank := (isSpacing_eq_false.1 hatSpacing).1
          simp [hblank]
    · have hother' : x = '?' ∨ x = ':' := by simpa using hother
      rw [hmark (hother'.imp_right .inl)]
      rfl
    · rw [hspacing, hindicator]
      rfl
  have hquestion : (x == '?' && atSpacing r) = false := by
    rw [Bool.and_eq_false_imp, beq_iff_eq]
    exact fun hx => hmark (.inl hx)
  have hcolon : (x == ':' && atSpacing r) = false := by
    rw [Bool.and_eq_false_imp, beq_iff_eq]
    exact fun hx => hmark (.inr (.inl hx))
  have hdash : (x == '-' && atSpacing r) = false := by
    rw [Bool.and_eq_false_imp, beq_iff_eq]
    exact fun hx => hmark (.inr (.inr hx))
  have hdocument' : (m.column == 0 && atDocumentMark (x :: r)) = false := by
    rw [Bool.and_eq_false_imp, beq_iff_eq]
    exact hdocument
  simp only [isIndicator, Bool.or_eq_false_iff] at hindicator
  unfold token?
  simp only [inBlock, inFlow, hindicator, hdocument', hquestion, hcolon, hdash, hstart,
    List.length_singleton, Nat.lt_irrefl, decide_false, Bool.false_or, Bool.and_false,
    Bool.false_and, Bool.false_eq_true, if_false, if_true]

/-- Characters through a line break and the indentation behind it are passed over. -/
theorem exists_moveTo_line (m : Mark) (cs : List Char) (hx : isBreak x = true)
    (hreturn : x ≠ '\r') (n : Nat) (rest : List Char) :
    ∃ m', m'.column = n ∧ m.line < m'.line ∧ ∀ allowed key ts i is,
      (inBlock allowed key ts m i is (cs ++ x :: (indentation n ++ rest))).moveTo rest =
        inBlock allowed key ts m' i is rest := by
  obtain ⟨m', hadvance, hcolumn, hline⟩ := m.advance_line cs hx hreturn n rest
  refine ⟨m', hcolumn, hline, fun allowed key ts i is => ?_⟩
  have happend : cs ++ x :: (indentation n ++ rest) = (cs ++ x :: indentation n) ++ rest := by simp
  have hlength : (cs ++ x :: indentation n).length = cs.length + (n + 1) := by
    simp [indentation]
  rw [happend] at hadvance ⊢
  rw [moveTo_inBlock, hlength, hadvance]

theorem token?_inBlock_quote {r : List Char} (hcolumn : 0 < m.column) :
    (inBlock allowed key ts m i is ('\'' :: r)).token? =
      (inBlock allowed key ts m i is ('\'' :: r)).nodePart? fun cs =>
        (singleQuoted? false (cs.drop 1)).map fun (es, rest) =>
          (.scalar .singleQuoted (fold es), rest) := by
  have hcolumn' : m.column ≠ 0 := by omega
  unfold token?
  simp [inBlock, hcolumn']

theorem token?_inBlock_doubleQuote {r : List Char} (hcolumn : 0 < m.column) :
    (inBlock allowed key ts m i is ('"' :: r)).token? =
      (inBlock allowed key ts m i is ('"' :: r)).nodePart? fun cs =>
        (doubleQuoted? cs.length false (cs.drop 1)).map fun (es, rest) =>
          (.scalar .doubleQuoted (fold es), rest) := by
  have hcolumn' : m.column ≠ 0 := by omega
  unfold token?
  simp [inBlock, hcolumn']

theorem token?_inBlock_bar {r : List Char} (hcolumn : 0 < m.column) :
    (inBlock allowed key ts m i is ('|' :: r)).token? =
      (inBlock allowed key ts m i is ('|' :: r)).blockScalar? .literal := by
  have hcolumn' : m.column ≠ 0 := by omega
  unfold token?
  simp [inBlock, hcolumn', inFlow]

theorem reaches_token (hsettled : Settled rest) (hindent : i ≤ m.column)
    (htoken : (inBlock allowed none ts m i is rest).token? = some s₁)
    (hlength : s₁.rest.length < rest.length) : Reaches (inBlock allowed none ts m i is rest) s₁ :=
  reaches_of_token? (prepare?_inBlock_none hsettled) (unrollTo_of_le hindent) htoken hlength

/-- A scalar is read together with the end of its line. -/
theorem exists_reaches_scalar_line {t : Token} (hc : c < m.column)
    (hsettled : Settled cs) (hne : cs ≠ []) (hx : isBreak x = true) (hreturn : x ≠ '\r')
    (hbelow : Below c n rest) (hkey : ∀ k ∈ key, k.mark.line ≤ m.line ∧ k.required = false)
    (htoken : (inBlock allowed none ts m c is (cs ++ x :: (indentation n ++ rest))).token? =
      some ((inBlock true key (ts ++ [t]) m c is (cs ++ x :: (indentation n ++ rest))).moveTo
        rest)) :
    ∃ m', m'.column = n ∧
      Reaches (inBlock allowed none ts m c is (cs ++ x :: (indentation n ++ rest)))
        (inBlock true none (ts ++ [t]) m' c is rest) := by
  obtain ⟨m', hcolumn, hline, hmove⟩ := exists_moveTo_line m cs hx hreturn n rest
  rw [hmove] at htoken
  have hsettled' : Settled (cs ++ x :: (indentation n ++ rest)) := by
    obtain ⟨y, cs, rfl⟩ := List.exists_cons_of_ne_nil hne
    exact hsettled
  have hfound := reaches_token hsettled' (by omega) htoken (by simp [inBlock]; omega)
  refine ⟨m', hcolumn, hfound.trans (reaches_settled hbelow.settled fun k hk => ?_)⟩
  exact ⟨Nat.lt_of_le_of_lt (hkey k hk).1 hline, (hkey k hk).2⟩

/-- A scalar is read, and then the end of its line. -/
theorem exists_reaches_scalar_quoted {t : Token} (hc : c < m.column) (hsettled : Settled cs)
    (hne : cs ≠ []) (hbelow : Below c n rest)
    (hkey : ∀ k ∈ key, k.mark.line ≤ m.line ∧ k.required = false)
    (htoken : (inBlock allowed none ts m c is (cs ++ '\n' :: (indentation n ++ rest))).token? =
      some ((inBlock false key (ts ++ [t]) m c is (cs ++ '\n' :: (indentation n ++ rest))).moveTo
        ('\n' :: (indentation n ++ rest)))) :
    ∃ m', m'.column = n ∧
      Reaches (inBlock allowed none ts m c is (cs ++ '\n' :: (indentation n ++ rest)))
        (inBlock true none (ts ++ [t]) m' c is rest) := by
  rw [moveTo_inBlock] at htoken
  have hline := m.line_le_line_advance cs.length (cs ++ '\n' :: (indentation n ++ rest))
  obtain ⟨m', hcolumn, hreaches⟩ := exists_reaches_line
    (m.advance cs.length (cs ++ '\n' :: (indentation n ++ rest))) n hbelow.settled
  have hsettled' : Settled (cs ++ '\n' :: (indentation n ++ rest)) := by
    obtain ⟨y, cs, rfl⟩ := List.exists_cons_of_ne_nil hne
    exact hsettled
  have hpos : 0 < cs.length := List.length_pos_iff.2 hne
  have hfound := reaches_token hsettled' (by omega) htoken (by simp [inBlock]; omega)
  refine ⟨m', hcolumn, hfound.trans (hreaches fun k hk => ?_)⟩
  exact ⟨Nat.le_trans (hkey k hk).1 hline, (hkey k hk).2⟩

end Scanner

/-- A text behind which the scanner has found new tokens, in a block in the column `c` and in front
of a line that does not belong to the text. -/
def Passes (allowed : Bool) (c : Nat) (text : List Char) (new : List Token) : Prop :=
  ∀ ts m is n rest, c < m.column → Below c n rest → ∃ m', m'.column = n ∧
    Scanner.Reaches (.inBlock allowed none ts m c is (text ++ (indentation n ++ rest)))
      (.inBlock true none (ts ++ new) m' c is rest)

open Scanner

variable {allowed : Bool} {text : List Char} {new : List Token}

theorem Passes.space (h : Passes allowed c text new) (hne : text ≠ []) (hsettled : Settled text) :
    Passes allowed c (' ' :: text) new := by
  intro ts m is n rest hcolumn hbelow
  have hsettled' : Settled (text ++ (indentation n ++ rest)) := by
    obtain ⟨x, text, rfl⟩ := List.exists_cons_of_ne_nil hne
    exact hsettled
  obtain ⟨m₁, hcolumn₁, hreaches₁⟩ := exists_reaches_space m hsettled'
  obtain ⟨m₂, hcolumn₂, hreaches₂⟩ := h ts m₁ is n rest (by omega) hbelow
  exact ⟨m₂, hcolumn₂, hreaches₁.trans hreaches₂⟩

theorem isPrintable_ne_mark (h : isPrintable x = true) : x ≠ byteOrderMark := by
  rintro rfl
  cases h

theorem StandsPlain.settled (h : StandsPlain cs) : Settled cs := by
  intro x hx
  obtain ⟨r, rfl⟩ : ∃ r, cs = x :: r := by
    cases cs with
    | nil => cases hx
    | cons y r =>
        cases hx
        exact ⟨r, rfl⟩
  have hprintable := h.printable x (by simp)
  have hspace : x ≠ ' ' := by simpa [isSpace] using h.head
  refine ⟨?_, ?_, isPrintable_ne_mark hprintable⟩
  · rw [isSpacing_eq_false]
    exact ⟨by simp [isBlank, hspace, ne_tab_of_isPrintable hprintable], h.unbroken x (by simp)⟩
  · rintro rfl
    cases (startsWithIndicator_cons h.start).1

/-- A text that stands plain is found as a plain scalar. -/
theorem StandsPlain.passes (h : StandsPlain cs) (hne : cs ≠ []) (allowed : Bool) (c : Nat) :
    Passes allowed c (cs ++ ['\n']) [.scalar .plain (String.ofList cs)] := by
  intro ts m is n rest hcolumn hbelow
  obtain ⟨es, hplain, hfold⟩ := h.plain? hcolumn hbelow
  have htoken : (inBlock allowed none ts m c is (cs ++ '\n' :: (indentation n ++ rest))).token? =
      some ((inBlock true (placeOf allowed ts m c) (ts ++ [.scalar .plain (String.ofList cs)]) m c
        is (cs ++ '\n' :: (indentation n ++ rest))).moveTo rest) := by
    rw [← hfold, ← plainScalar?_inBlock hplain]
    obtain ⟨x, r, rfl⟩ := List.exists_cons_of_ne_nil hne
    obtain ⟨hindicator, hmark⟩ := startsWithIndicator_cons h.start
    refine token?_inBlock_plain hindicator (h.settled x rfl).1 (fun hx => ?_) (by omega)
    have hspacing := hmark hx
    cases r with
    | nil => cases hspacing
    | cons y r => exact hspacing
  have hkey := line_le_of_mem_placeOf allowed ts (show (c : Int) < m.column by omega)
  rw [List.append_assoc]
  exact exists_reaches_scalar_line hcolumn h.settled hne (by decide) (by decide) hbelow hkey htoken

/-- Every text is found between double quotes. -/
theorem passes_doubleQuoted (cs : List Char) (allowed : Bool) (c : Nat) :
    Passes allowed c ('"' :: cs.flatMap doubleQuotedChar ++ ['"', '\n'])
      [.scalar .doubleQuoted (String.ofList cs)] := by
  intro ts m is n rest hcolumn hbelow
  have hlength := length_le_flatMap_doubleQuotedChar cs
  have hfuel : ('"' :: (cs.flatMap doubleQuotedChar ++
      '"' :: '\n' :: (indentation n ++ rest))).length =
      cs.length + ((cs.flatMap doubleQuotedChar).length - cs.length + 2 + n + rest.length) + 1 := by
    simp only [indentation, List.length_cons, List.length_append, List.length_replicate]
    omega
  have hread := doubleQuoted?_text cs
    ((cs.flatMap doubleQuotedChar).length - cs.length + 2 + n + rest.length)
    ('\n' :: (indentation n ++ rest))
  rw [← hfuel] at hread
  have htext : '"' :: cs.flatMap doubleQuotedChar ++ ['"', '\n'] ++ (indentation n ++ rest) =
      ('"' :: cs.flatMap doubleQuotedChar ++ ['"']) ++ '\n' :: (indentation n ++ rest) := by simp
  rw [htext]
  have hkey := line_le_of_mem_placeOf allowed ts (show (c : Int) < m.column by omega)
  refine exists_reaches_scalar_quoted hcolumn (settled_cons.2 (by decide)) (by simp) hbelow hkey ?_
  rw [List.cons_append, List.cons_append, token?_inBlock_doubleQuote (by omega)]
  refine nodePart?_inBlock ?_
  rw [List.append_assoc, List.singleton_append, List.drop_one, List.tail_cons, hread,
    ← fold_elements]
  rfl

/-- A text that allows single quotes is found between them. -/
theorem passes_singleQuoted (h : allowsSingleQuotes cs = true) (hnewline : '\n' ∉ cs)
    (allowed : Bool) (c indent : Nat) :
    Passes allowed c ('\'' :: singleQuotedBody (indent + 1) false cs ++ ['\'', '\n'])
      [.scalar .singleQuoted (String.ofList cs)] := by
  intro ts m is n rest hcolumn hbelow
  have hquote : ('\n' :: (indentation n ++ rest)).head? ≠ some '\'' := by simp
  obtain ⟨es, hread, hfold⟩ := singleQuoted?_of_allowsSingleQuotes (n := indent) h hnewline hquote
  have htext : '\'' :: singleQuotedBody (indent + 1) false cs ++ ['\'', '\n'] ++
      (indentation n ++ rest) = ('\'' :: singleQuotedBody (indent + 1) false cs ++ ['\'']) ++
        '\n' :: (indentation n ++ rest) := by simp
  rw [htext]
  have hkey := line_le_of_mem_placeOf allowed ts (show (c : Int) < m.column by omega)
  refine exists_reaches_scalar_quoted hcolumn (settled_cons.2 (by decide)) (by simp) hbelow hkey ?_
  rw [List.cons_append, List.cons_append, token?_inBlock_quote (by omega)]
  refine nodePart?_inBlock ?_
  rw [List.append_assoc, List.singleton_append, List.drop_one, List.tail_cons, hread,
    ← hfold]
  rfl

/-- A text of shown characters is found as a literal block. -/
theorem passes_literal (hcs : cs ≠ []) (hprintable : ∀ x ∈ cs, isPrintable x = true)
    (allowed : Bool) (c : Nat) :
    Passes allowed c (literalHead cs ++ '\n' :: (literalBody (c + 2) true cs ++ lastBreak cs))
      [.scalar .literal (String.ofList cs)] := by
  intro ts m is n rest hcolumn hbelow
  obtain ⟨body, b, hbody, hb⟩ := exists_literalBody_eq hcs
    (fun y hy => isShownBreak_of_isPrintable (hprintable y hy)) (c + 2) true
  have hread := block?_literal hcs hprintable hbelow
  have hreturn : b ≠ '\r' := by
    rcases hb with rfl | rfl | rfl <;> decide
  have htext : literalHead cs ++ '\n' :: (literalBody (c + 2) true cs ++ lastBreak cs) ++
      (indentation n ++ rest) = (literalHead cs ++ '\n' :: body) ++
        b :: (indentation n ++ rest) := by
    rw [hbody]
    simp
  have htext' : (literalHead cs).drop 1 ++ '\n' :: (literalBody (c + 2) true cs ++
      (lastBreak cs ++ (indentation n ++ rest))) = ((literalHead cs ++ '\n' :: body) ++
        b :: (indentation n ++ rest)).drop 1 := by
    rw [← htext]
    simp [literalHead]
  rw [htext'] at hread
  rw [htext]
  have htoken : (inBlock allowed none ts m c is ((literalHead cs ++ '\n' :: body) ++
      b :: (indentation n ++ rest))).token? = _ :=
    (token?_inBlock_bar (by omega)).trans (blockScalar?_inBlock hread)
  have hkey : ∀ k ∈ (none : Option KeyPlace), k.mark.line ≤ m.line ∧ k.required = false := by
    simp
  exact exists_reaches_scalar_line hcolumn (settled_cons.2 (by decide)) (by simp) hb.isBreak
    hreturn hbelow hkey htoken

end Conformance.Yaml

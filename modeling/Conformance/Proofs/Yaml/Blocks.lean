import Conformance.Proofs.Yaml.Scalars

/-!
# Literal blocks read back

A text of printable characters is read back from its literal block
(`block?_literal`), whatever stands at its start and at its end. A block is read
line by line. `Gapped` says what is found in front of a line: the empty lines of
the text, and then either a line at the indentation of the block or what follows
the block. `Chomped` says how the lines that were read cut the text at its end,
into the text up to its last line, the break of that line and the empty lines
behind it. From both it follows that the mark in the head of the block keeps just
the breaks that the text ends in (`exists_chomping`).
-/

namespace Conformance.Yaml

variable {cs rest : List Char} {x : Char} {c n column widest indent fuel : Nat}

/-- A character that ends a line and is shown as it is. -/
def IsShownBreak (x : Char) : Prop := x = '\n' ∨ x = lineSeparator ∨ x = paragraphSeparator

theorem IsShownBreak.isBreak (h : IsShownBreak x) : isBreak x = true := by
  rcases h with rfl | rfl | rfl <;> decide

theorem lineBreak?_of_isShownBreak (h : IsShownBreak x) (r : List Char) :
    lineBreak? (x :: r) = some (x, r) := by
  rcases h with rfl | rfl | rfl <;> rfl

theorem isShownBreak_of_isPrintable (h : isPrintable x = true) (hbreak : isBreak x = true) :
    IsShownBreak x := by
  by_cases hx : x = '\n'
  · exact .inl hx
  · exact .inr (isBreak_of_isPrintable h hbreak hx)

/-- The line break that is put behind a text that does not end in one. -/
def lastBreak (cs : List Char) : List Char :=
  if cs.getLast?.any isBreak || cs.isEmpty then [] else ['\n']

theorem lastBreak_cons_of_isBreak (h : isBreak x = true) (cs : List Char) :
    lastBreak (x :: cs) = lastBreak cs := by
  cases cs with
  | nil => simp [lastBreak, h]
  | cons y cs => simp [lastBreak]

theorem lastBreak_of_breaks (h : ∀ b ∈ cs, isBreak b = true) : lastBreak cs = [] := by
  induction cs with
  | nil => rfl
  | cons x cs ih =>
      obtain ⟨hx, hcs⟩ := List.forall_mem_cons.1 h
      rw [lastBreak_cons_of_isBreak hx, ih hcs]

theorem lastBreak_append_cons (breaks : List Char) (x : Char) (cs : List Char) :
    lastBreak (breaks ++ x :: cs) = lastBreak (x :: cs) := by
  simp [lastBreak, List.getLast?_append, List.getLast?_cons]

theorem lastBreak_cons_cons (x y : Char) (cs : List Char) :
    lastBreak (x :: y :: cs) = lastBreak (y :: cs) := by
  simp [lastBreak]

theorem literalBody_of_isBreak (h : isBreak x = true) (pending : Bool) :
    literalBody indent pending (x :: cs) = x :: literalBody indent true cs := by
  rw [literalBody, if_pos h]

theorem literalBody_pending (h : isBreak x = false) :
    literalBody indent true (x :: cs) =
      indentation indent ++ x :: literalBody indent false cs := by
  rw [literalBody, if_neg (by simp [h]), if_pos rfl]

theorem literalBody_running (h : isBreak x = false) :
    literalBody indent false (x :: cs) = x :: literalBody indent false cs := by
  rw [literalBody, if_neg (by simp [h]), if_neg nofun, List.nil_append]

theorem length_le_literalBody (indent : Nat) (pending : Bool) (cs : List Char) :
    cs.length ≤ (literalBody indent pending cs).length := by
  induction cs generalizing pending with
  | nil => exact Nat.zero_le _
  | cons x cs ih =>
      rw [literalBody]
      split
      · exact Nat.succ_le_succ (ih true)
      · rw [List.length_append]
        exact Nat.le_add_left_of_le (Nat.succ_le_succ (ih false))

theorem mem_literalBody {pending : Bool} (h : x ∈ literalBody indent pending cs) :
    x ∈ cs ∨ x = ' ' := by
  induction cs generalizing pending with
  | nil => cases h
  | cons y cs ih =>
      rw [literalBody] at h
      split at h
      · rcases List.mem_cons.1 h with rfl | h
        · exact .inl List.mem_cons_self
        · exact (ih h).imp_left (List.mem_cons_of_mem y)
      · rcases List.mem_append.1 h with h | h
        · cases pending with
          | false => cases h
          | true => exact .inr (List.eq_of_mem_replicate h)
        · rcases List.mem_cons.1 h with rfl | h
          · exact .inl List.mem_cons_self
          · exact (ih h).imp_left (List.mem_cons_of_mem y)

theorem literalBody_concat (h : isBreak x = true) (indent : Nat) (pending : Bool) (cs : List Char) :
    literalBody indent pending (cs ++ [x]) = literalBody indent pending cs ++ [x] := by
  induction cs generalizing pending with
  | nil => rw [List.nil_append, literalBody_of_isBreak h, literalBody, literalBody, List.nil_append]
  | cons y cs ih =>
      rw [List.cons_append, literalBody, literalBody, ih, ih]
      split_ifs <;> simp

/-- The last character of a literal block ends its last line. -/
theorem exists_literalBody_eq (hcs : cs ≠ [])
    (hbreaks : ∀ y ∈ cs, isBreak y = true → IsShownBreak y) (indent : Nat) (pending : Bool) :
    ∃ body b, literalBody indent pending cs ++ lastBreak cs = body ++ [b] ∧ IsShownBreak b := by
  obtain ⟨init, x, rfl⟩ : ∃ init x, cs = init ++ [x] :=
    ⟨cs.dropLast, cs.getLast hcs, (List.dropLast_concat_getLast hcs).symm⟩
  cases hx : isBreak x with
  | true =>
      have hlast : lastBreak (init ++ [x]) = [] := by simp [lastBreak, hx]
      refine ⟨literalBody indent pending init, x, ?_, hbreaks x (by simp) hx⟩
      rw [literalBody_concat hx, hlast, List.append_nil]
  | false =>
      have hlast : lastBreak (init ++ [x]) = ['\n'] := by simp [lastBreak, hx]
      exact ⟨literalBody indent pending (init ++ [x]), '\n', by rw [hlast], .inl rfl⟩

theorem exists_line (indent : Nat) (hx : isBreak x = false)
    (hcs : ∀ y ∈ cs, isBreak y = true → IsShownBreak y) :
    ∃ line b cs', (∀ y ∈ line, isBreak y = false) ∧ IsShownBreak b ∧ cs'.length ≤ cs.length ∧
      (∀ y ∈ cs', y ∈ cs) ∧ cs ++ lastBreak (x :: cs) = line ++ b :: (cs' ++ lastBreak cs') ∧
      literalBody indent false cs ++ lastBreak (x :: cs) =
        line ++ b :: (literalBody indent true cs' ++ lastBreak cs') := by
  induction cs generalizing x with
  | nil =>
      refine ⟨[], '\n', [], nofun, .inl rfl, Nat.le_refl _, nofun, ?_, ?_⟩
      · simp [lastBreak, hx]
      · simp [lastBreak, hx, literalBody]
  | cons y cs ih =>
      obtain ⟨hy, hcs⟩ := List.forall_mem_cons.1 hcs
      rw [lastBreak_cons_cons]
      cases hbreak : isBreak y with
      | true =>
          refine ⟨[], y, cs, nofun, hy hbreak, Nat.le_succ _, fun z => List.mem_cons_of_mem y,
            ?_, ?_⟩
          · rw [lastBreak_cons_of_isBreak hbreak]
            rfl
          · rw [lastBreak_cons_of_isBreak hbreak, literalBody_of_isBreak hbreak]
            rfl
      | false =>
          obtain ⟨line, b, cs', hline, hb, hlength, hmem, htext, hbody⟩ := ih hbreak hcs
          refine ⟨y :: line, b, cs', List.forall_mem_cons.2 ⟨hbreak, hline⟩, hb,
            Nat.le_succ_of_le hlength, fun z hz => List.mem_cons_of_mem y (hmem z hz), ?_, ?_⟩
          · rw [List.cons_append, htext, List.cons_append]
          · rw [literalBody_running hbreak, List.cons_append, hbody, List.cons_append]

theorem blockGap?_indentation (widest : Nat) (h : column + n ≤ indent) (r : List Char) :
    ∃ widest', blockGap? (some indent) column widest (indentation n ++ r) =
      blockGap? (some indent) (column + n) widest' r := by
  induction n generalizing column widest with
  | zero => exact ⟨widest, rfl⟩
  | succ n ih =>
      obtain ⟨widest', hgap⟩ :=
        ih (max widest (column + 1)) (show column + 1 + n ≤ indent by omega)
      refine ⟨widest', ?_⟩
      have hinside : column < indent := by omega
      have hcolumn : column + (n + 1) = column + 1 + n := by omega
      rw [indentation, List.replicate_succ, List.cons_append, ← indentation, blockGap?.eq_def]
      simp only [Option.all_some, hinside, decide_true, Bool.true_and, beq_self_eq_true, if_true]
      rw [hgap, hcolumn]

theorem blockGap?_break (h : IsShownBreak x) (r : List Char) :
    blockGap? (some indent) column widest (x :: r) =
      (blockGap? (some indent) 0 widest r).map fun g => { g with breaks := x :: g.breaks } := by
  have hne : x ≠ ' ' ∧ x ≠ '\t' ∧ x ≠ '\r' := by
    rcases h with rfl | rfl | rfl <;> decide
  rw [blockGap?.eq_def]
  simp only [beq_eq_false_iff_ne.2 hne.1, beq_eq_false_iff_ne.2 hne.2.1, h.isBreak,
    Bool.and_false, Bool.false_eq_true, if_false, if_true]
  split
  next => exact absurd rfl hne.2.2
  next =>
      congr 1
      funext g
      rcases h with rfl | rfl | rfl <;> rfl

theorem blockGap?_of_isSpacing_eq_false (h : isSpacing x = false) (r : List Char)
    {indent : Option Nat} :
    blockGap? indent column widest (x :: r) = some ⟨[], column, widest, x :: r⟩ := by
  obtain ⟨hblank, hbreak⟩ := isSpacing_eq_false.1 h
  simp only [isBlank, Bool.or_eq_false_iff] at hblank
  rw [blockGap?.eq_def]
  simp [hblank, hbreak]

/-- At the indentation of a block its line starts, even with a space. -/
theorem blockGap?_at_indent (h : isBreak x = false) (r : List Char) :
    blockGap? (some indent) indent widest (x :: r) = some ⟨[], indent, widest, x :: r⟩ := by
  rw [blockGap?.eq_def]
  simp [h]

/-- What is found in front of the lines of a text: its empty lines, and then a line at the
indentation of the block, or what follows the block. -/
inductive Gapped (indent n : Nat) (rest : List Char) : List Char → BlockGap → Prop
  | done (breaks : List Char) (widest : Nat) (hbreaks : ∀ b ∈ breaks, isBreak b = true) :
      Gapped indent n rest breaks ⟨breaks, n, widest, rest⟩
  | line (breaks : List Char) (x : Char) (cs : List Char) (widest : Nat)
      (hbreaks : ∀ b ∈ breaks, isBreak b = true) (hx : isBreak x = false) :
      Gapped indent n rest (breaks ++ x :: cs) ⟨breaks, indent, widest,
        x :: (literalBody indent false cs ++ (lastBreak (x :: cs) ++ (indentation n ++ rest)))⟩

theorem Gapped.cons {g : BlockGap} (h : Gapped indent n rest cs g) (hx : isBreak x = true) :
    Gapped indent n rest (x :: cs) { g with breaks := x :: g.breaks } := by
  cases h with
  | done _ widest hbreaks => exact .done _ widest (List.forall_mem_cons.2 ⟨hx, hbreaks⟩)
  | line breaks y cs widest hbreaks hy =>
      exact .line (x :: breaks) y cs widest (List.forall_mem_cons.2 ⟨hx, hbreaks⟩) hy

/-- Empty lines and the indentation in front of a line are passed over. -/
theorem exists_gapped (widest : Nat) (hcs : ∀ y ∈ cs, isBreak y = true → IsShownBreak y)
    (hbelow : Below c n rest) (hindent : c < indent) :
    ∃ g, blockGap? (some indent) 0 widest
        (literalBody indent true cs ++ (lastBreak cs ++ (indentation n ++ rest))) = some g ∧
      Gapped indent n rest cs g := by
  induction cs with
  | nil =>
      have hle : 0 + n ≤ indent := by
        have := hbelow.column
        omega
      obtain ⟨widest', hgap⟩ := blockGap?_indentation widest hle rest
      refine ⟨⟨[], n, widest', rest⟩, ?_, .done [] widest' nofun⟩
      have hlast : lastBreak [] = [] := rfl
      rw [literalBody, List.nil_append, hlast, List.nil_append, hgap, Nat.zero_add]
      cases rest with
      | nil => rfl
      | cons y rest => exact blockGap?_of_isSpacing_eq_false (hbelow.settled y rfl).1 rest
  | cons x cs ih =>
      obtain ⟨hx, hcs'⟩ := List.forall_mem_cons.1 hcs
      cases hbreak : isBreak x with
      | true =>
          obtain ⟨g, hg, hgapped⟩ := ih hcs'
          refine ⟨_, ?_, hgapped.cons hbreak⟩
          rw [literalBody_of_isBreak hbreak, lastBreak_cons_of_isBreak hbreak, List.cons_append,
            blockGap?_break (hx hbreak), hg]
          rfl
      | false =>
          obtain ⟨widest', hgap⟩ := blockGap?_indentation widest
            (Nat.le_of_eq (Nat.zero_add indent)) (x :: (literalBody indent false cs ++
              (lastBreak (x :: cs) ++ (indentation n ++ rest))))
          refine ⟨_, ?_, .line [] x cs widest' nofun hbreak⟩
          rw [literalBody_pending hbreak, List.append_assoc, List.cons_append, hgap, Nat.zero_add,
            blockGap?_at_indent hbreak]

/-- How a text is cut at the end of a block: the text up to its last line, the break of that line,
and the empty lines behind it. -/
structure Chomped (before : Option Char) (whole text : List Char) (ending : Option Char)
    (breaks : List Char) : Prop where
  whole_eq : text ++ (ending.toList ++ breaks) = before.toList ++ whole
  isBreak_ending : ∀ b ∈ ending, isBreak b = true
  isBreak_breaks : ∀ b ∈ breaks, isBreak b = true
  last : (text = [] ∧ ending = before) ∨
    (ending.isSome = true ∧ ∃ y, text.getLast? = some y ∧ isBreak y = false)

theorem chomped_nil {before : Option Char} {breaks : List Char}
    (hbefore : ∀ b ∈ before, isBreak b = true) (hbreaks : ∀ b ∈ breaks, isBreak b = true) :
    Chomped before breaks [] before breaks :=
  ⟨rfl, hbefore, hbreaks, .inl ⟨rfl, rfl⟩⟩

/-- One more line in front of a text that is cut. -/
theorem Chomped.cons_line {before ending : Option Char} {b : Char} {whole text gap line : List Char}
    {breaks : List Char} (h : Chomped (some b) whole text ending breaks)
    (hline : ∀ y ∈ line, isBreak y = false) (hx : isBreak x = false) :
    Chomped before (gap ++ x :: (line ++ b :: whole))
      (before.toList ++ gap ++ x :: line ++ text) ending breaks where
  whole_eq := by
    rw [List.append_assoc _ text, h.whole_eq]
    simp
  isBreak_ending := h.isBreak_ending
  isBreak_breaks := h.isBreak_breaks
  last := by
    right
    rcases h.last with ⟨rfl, rfl⟩ | ⟨hending, y, hy, hbreak⟩
    · refine ⟨rfl, (x :: line).getLast (by simp), ?_, ?_⟩
      · rw [List.append_nil, List.getLast?_append, List.getLast?_eq_some_getLast (by simp)]
        rfl
      · have hall : ∀ y ∈ x :: line, isBreak y = false := List.forall_mem_cons.2 ⟨hx, hline⟩
        exact hall _ (List.getLast_mem _)
    · refine ⟨hending, y, ?_, hbreak⟩
      rw [List.getLast?_append, hy]
      rfl

/-- The lines of a literal block hold its text. -/
theorem Gapped.exists_blockLines {g : BlockGap} (hgap : Gapped indent n rest cs g)
    (hcs : ∀ y ∈ cs, isBreak y = true → IsShownBreak y) (hbelow : Below c n rest)
    (hindent : c < indent) (hfuel : cs.length < fuel) :
    ∃ lines last, blockLines? indent fuel g = some (lines, last) ∧ last.rest = rest ∧
      ∀ before blank, (∀ b ∈ before, isBreak b = true) →
        Chomped before (cs ++ lastBreak cs) (blockText false before blank lines).1
          (blockText false before blank lines).2 last.breaks := by
  induction fuel generalizing cs g with
  | zero => cases hfuel
  | succ fuel ih =>
      cases hgap with
      | done _ widest hbreaks =>
          have hcolumn : n ≠ indent := by
            have := hbelow.column
            omega
          refine ⟨[], ⟨cs, n, widest, rest⟩, ?_, rfl, fun before blank hbefore => ?_⟩
          · rw [blockLines?, if_neg (by simp [hcolumn])]
          · rw [lastBreak_of_breaks hbreaks, List.append_nil]
            exact chomped_nil hbefore hbreaks
      | line breaks x cs widest hbreaks hx =>
          obtain ⟨line, b, cs', hline, hb, hlength, hmem, htext, hbody⟩ :=
            exists_line indent hx
              fun y hy => hcs y (List.mem_append_right _ (List.mem_cons_of_mem x hy))
          have hcs' : ∀ y ∈ cs', isBreak y = true → IsShownBreak y := fun y hy =>
            hcs y (List.mem_append_right _ (List.mem_cons_of_mem x (hmem y hy)))
          obtain ⟨next, hnext, hgapped⟩ := exists_gapped 0 hcs' hbelow hindent
          have hfuel' : cs'.length < fuel := by
            simp only [List.length_append, List.length_cons] at hfuel
            omega
          obtain ⟨lines, last, hlines, hrest, hchomped⟩ := ih hgapped hcs' hfuel'
          refine ⟨⟨breaks, x :: line, some b⟩ :: lines, last, ?_, hrest, ?_⟩
          · have hall : ∀ y ∈ x :: line, (!isBreak y) = true := by
              simpa using ⟨hx, hline⟩
            have hrest' : x :: (literalBody indent false cs ++
                (lastBreak (x :: cs) ++ (indentation n ++ rest))) =
                (x :: line) ++ b :: (literalBody indent true cs' ++
                  (lastBreak cs' ++ (indentation n ++ rest))) := by
              rw [← List.append_assoc _ (lastBreak _), hbody]
              simp
            rw [blockLines?, if_pos (by simp)]
            dsimp only
            rw [hrest', List.takeWhile_append_of_pos hall, List.dropWhile_append_of_pos hall,
              List.takeWhile_cons_of_neg (by simp [hb.isBreak]),
              List.dropWhile_cons_of_neg (by simp [hb.isBreak]), lineBreak?_of_isShownBreak hb]
            dsimp only
            rw [hnext, Option.bind_eq_bind, Option.bind_some, hlines, List.append_nil]
            rfl
          · intro before blank _
            have hbefore : ∀ b' ∈ some b, isBreak b' = true := by
              rintro _ ⟨⟩
              exact hb.isBreak
            rw [lastBreak_append_cons, List.append_assoc, List.cons_append, htext]
            exact (hchomped (some b) (startsBlank (x :: line)) hbefore).cons_line hline hx

def Chomping.mark : Chomping → List Char
  | .strip => ['-']
  | .clip => []
  | .keep => ['+']

/-- What a way to chomp leaves of the breaks at the end of a block. -/
def Chomping.kept (ending : Option Char) (breaks : List Char) : Chomping → List Char
  | .strip => []
  | .clip => ending.toList
  | .keep => ending.toList ++ breaks

theorem blockHead?_mark (given : Bool) (chomping : Chomping) (r : List Char) :
    blockHead? ((if given then ['2'] else []) ++ chomping.mark ++ '\n' :: r) =
      some (⟨chomping, if given then some 2 else none⟩, r) := by
  cases given <;> cases chomping <;> rfl

section Chomped

variable {text breaks : List Char} {ending : Option Char}

theorem Chomped.strip {init : List Char} (hx : isBreak x = false)
    (h : Chomped none ((init ++ [x]) ++ ['\n']) text ending breaks) : text = init ++ [x] := by
  have hbreak : ∀ b ∈ (ending.toList ++ breaks).reverse, isBreak b = true := by
    intro b hb
    rcases List.mem_append.1 (List.mem_reverse.1 hb) with hb | hb
    · exact h.isBreak_ending b (Option.mem_toList.1 hb)
    · exact h.isBreak_breaks b hb
  have hwhole : (ending.toList ++ breaks).reverse ++ text.reverse =
      '\n' :: x :: init.reverse := by
    rw [← List.reverse_append, h.whole_eq]
    simp
  cases htail : (ending.toList ++ breaks).reverse with
  | nil =>
      rw [htail, List.nil_append] at hwhole
      rcases h.last with ⟨rfl, -⟩ | ⟨-, y, hy, hbreak⟩
      · cases hwhole
      · rw [← List.head?_reverse, hwhole] at hy
        cases hy
        cases hbreak
  | cons b bs =>
      rw [htail] at hwhole hbreak
      rw [List.cons_append, List.cons.injEq] at hwhole
      cases bs with
      | nil =>
          rw [List.nil_append] at hwhole
          rw [← List.reverse_reverse text, hwhole.2]
          simp
      | cons b' bs =>
          rw [List.cons_append, List.cons.injEq] at hwhole
          rw [← hwhole.2.1, hbreak b' (by simp)] at hx
          cases hx

theorem Chomped.clip {init : List Char} {y : Char} (hx : isBreak x = false)
    (h : Chomped none (init ++ [x, y]) text ending breaks) :
    text ++ ending.toList = init ++ [x, y] := by
  have hwhole : breaks.reverse ++ (ending.toList.reverse ++ text.reverse) =
      y :: x :: init.reverse := by
    rw [← List.append_assoc, ← List.reverse_append, ← List.reverse_append, h.whole_eq]
    simp
  have hnone : breaks = [] := by
    rw [← List.reverse_eq_nil_iff]
    cases hbreaks : breaks.reverse with
    | nil => rfl
    | cons b bs =>
        -- the break in front of the last one would be `x`
        have hbreak : isBreak x = true := by
          rw [hbreaks, List.cons_append, List.cons.injEq] at hwhole
          cases bs with
          | nil =>
              rcases h.last with ⟨rfl, rfl⟩ | ⟨hsome, -⟩
              · cases hwhole.2
              · obtain ⟨e, rfl⟩ := Option.isSome_iff_exists.1 hsome
                have he : e = x := (List.cons.inj hwhole.2).1
                exact he ▸ h.isBreak_ending e rfl
          | cons b' bs =>
              have hb' : b' = x := (List.cons.inj hwhole.2).1
              have hmem : b' ∈ breaks.reverse := by simp [hbreaks]
              exact hb' ▸ h.isBreak_breaks b' (List.mem_reverse.1 hmem)
        rw [hx] at hbreak
        cases hbreak
  have hwhole := h.whole_eq
  rwa [hnone, List.append_nil] at hwhole

/-- The mark in the head of a block keeps just the breaks of its text. -/
theorem exists_chomping (hcs : cs ≠ []) :
    ∃ chomping : Chomping, chompingMark cs = chomping.mark ∧
      ∀ {text breaks : List Char} {ending : Option Char},
        Chomped none (cs ++ lastBreak cs) text ending breaks →
          text ++ chomping.kept ending breaks = cs := by
  have hreverse := List.reverse_reverse cs
  rw [chompingMark]
  cases h : cs.reverse with
  | nil => exact absurd (List.reverse_eq_nil_iff.1 h) hcs
  | cons x r =>
      rw [h, List.reverse_cons] at hreverse
      subst hreverse
      cases hx : isBreak x with
      | false =>
          refine ⟨.strip, by cases r <;> simp [Chomping.mark, hx], fun hchomped => ?_⟩
          have hlast : lastBreak (r.reverse ++ [x]) = ['\n'] := by simp [lastBreak, hx]
          rw [hlast] at hchomped
          rw [Chomping.kept, List.append_nil, hchomped.strip hx]
      | true =>
          have hlast : lastBreak (r.reverse ++ [x]) = [] := by simp [lastBreak, hx]
          rw [hlast, List.append_nil]
          have hkeep {text breaks : List Char} {ending : Option Char}
              (hchomped : Chomped none (r.reverse ++ [x]) text ending breaks) :
              text ++ Chomping.kept ending breaks .keep = r.reverse ++ [x] := hchomped.whole_eq
          cases r with
          | nil => exact ⟨.keep, by simp [Chomping.mark, hx], hkeep⟩
          | cons y r =>
              cases hy : isBreak y with
              | true => exact ⟨.keep, by simp [Chomping.mark, hx, hy], hkeep⟩
              | false =>
                  refine ⟨.clip, by simp [Chomping.mark, hx, hy], fun hchomped => ?_⟩
                  simp only [List.reverse_cons, List.append_assoc, List.singleton_append]
                    at hchomped ⊢
                  exact hchomped.clip hy

end Chomped

/-- The indentation of a block that does not give it is that of its first line. -/
theorem blockGap?_first (indent : Nat) (hx : isSpacing x = false) (r : List Char) :
    blockGap? none 0 0 (indentation indent ++ x :: r) = some ⟨[], indent, indent, x :: r⟩ := by
  suffices hfrom : ∀ column, blockGap? none column column (indentation indent ++ x :: r) =
      some ⟨[], column + indent, column + indent, x :: r⟩ by
    simpa using hfrom 0
  induction indent with
  | zero => exact fun column => blockGap?_of_isSpacing_eq_false hx r
  | succ indent ih =>
      intro column
      have hmax : max column (column + 1) = column + 1 := by omega
      have hcolumn : column + (indent + 1) = column + 1 + indent := by omega
      rw [indentation, List.replicate_succ, List.cons_append, ← indentation, blockGap?.eq_def]
      simp only [Option.all_none, Bool.true_and, beq_self_eq_true, if_true, hmax]
      rw [ih, hcolumn]

theorem Gapped.block? {body : List Char} {chomping : Chomping} {g : BlockGap}
    (hgap : Gapped (c + 2) n rest cs g) (given : Bool)
    (hfound : blockGap? (if given then some (c + 2) else none) 0 0 body = some g)
    (hwidest : given = false → g.widest = c + 2) (hlength : cs.length ≤ body.length)
    (hbreaks : ∀ y ∈ cs, isBreak y = true → IsShownBreak y) (hbelow : Below c n rest)
    (hkept : ∀ {text breaks : List Char} {ending : Option Char},
      Chomped none (cs ++ lastBreak cs) text ending breaks →
        text ++ chomping.kept ending breaks = cs) :
    block? false c ((if given then ['2'] else []) ++ chomping.mark ++ '\n' :: body) =
      some (String.ofList cs, rest) := by
  obtain ⟨lines, last, hlines, hrest, hchomped⟩ :=
    hgap.exists_blockLines hbreaks hbelow (by omega) (Nat.lt_succ_of_le hlength)
  have htext := hkept (hchomped none false nofun)
  have hincrement : (if given then some 2 else none).map (fun n => (max (c : Int) 0).toNat + n) =
      if given then some (c + 2) else none := by
    cases given with
    | false => rfl
    | true => simp
  have hindent : (if given then some (c + 2) else none).getD
      (max (max g.widest ((c : Int) + 1).toNat) 1) = c + 2 := by
    cases given with
    | true => rfl
    | false =>
        rw [hwidest rfl]
        simp only [Bool.false_eq_true, if_false, Option.getD_none]
        omega
  rw [Yaml.block?, blockHead?_mark]
  dsimp only [Option.bind_eq_bind, Option.bind_some]
  rw [hincrement, hfound]
  dsimp only [Option.bind_some]
  rw [hindent, hlines]
  dsimp only [Option.bind_some]
  rw [hrest, ← htext]
  cases chomping <;> rfl

/-- A text is read from its literal block, below a collection in the column `c`. -/
theorem block?_literal (hcs : cs ≠ []) (hprintable : ∀ x ∈ cs, isPrintable x = true)
    (hbelow : Below c n rest) :
    block? false c ((literalHead cs).drop 1 ++ '\n' :: (literalBody (c + 2) true cs ++
      (lastBreak cs ++ (indentation n ++ rest)))) = some (String.ofList cs, rest) := by
  have hbreaks : ∀ y ∈ cs, isBreak y = true → IsShownBreak y :=
    fun y hy => isShownBreak_of_isPrintable (hprintable y hy)
  have hlength : cs.length ≤ (literalBody (c + 2) true cs ++
      (lastBreak cs ++ (indentation n ++ rest))).length := by
    rw [List.length_append]
    exact Nat.le_add_right_of_le (length_le_literalBody (c + 2) true cs)
  obtain ⟨chomping, hmark, hkept⟩ := exists_chomping hcs
  rw [literalHead, List.cons_append, List.drop_one, List.tail_cons, hmark]
  cases hgiven : cs.head?.any fun x => isSpace x || isBreak x with
  | true =>
      obtain ⟨g, hfound, hgap⟩ :=
        exists_gapped 0 hbreaks hbelow (show c < c + 2 by omega)
      exact hgap.block? true hfound (by simp) hlength hbreaks hbelow hkept
  | false =>
      obtain ⟨x, r, rfl⟩ := List.exists_cons_of_ne_nil hcs
      have hx : isSpace x = false ∧ isBreak x = false := by simpa using hgiven
      have hspacing : isSpacing x = false := by
        rw [isSpacing_eq_false]
        refine ⟨?_, hx.2⟩
        have htab := ne_tab_of_isPrintable (hprintable x (by simp))
        simpa [isBlank, htab, isSpace] using hx.1
      have hfound := blockGap?_first (c + 2) hspacing
        (literalBody (c + 2) false r ++ (lastBreak (x :: r) ++ (indentation n ++ rest)))
      have hbody : literalBody (c + 2) true (x :: r) ++
          (lastBreak (x :: r) ++ (indentation n ++ rest)) = indentation (c + 2) ++
            x :: (literalBody (c + 2) false r ++
              (lastBreak (x :: r) ++ (indentation n ++ rest))) := by
        rw [literalBody_pending hx.2, List.append_assoc, List.cons_append]
      rw [hbody] at hlength ⊢
      exact (Gapped.line [] x r (c + 2) (by simp) hx.2).block? false hfound (fun _ => rfl)
        hlength hbreaks hbelow hkept

end Conformance.Yaml

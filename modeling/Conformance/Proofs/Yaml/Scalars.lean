import Conformance.Proofs.Number.Digits
import Conformance.Yaml.Printer
import Conformance.Yaml.Scalar
import Mathlib.Tactic.SplitIfs

/-!
# Plain and quoted scalars read back

A text that is written in one of the styles that stay on a line is read back from
there: plain if it stands plain (`StandsPlain.plain?`), between single quotes if
it allows them (`singleQuoted?_of_allowsSingleQuotes`), and between double quotes
whatever it is (`doubleQuoted?_text`).

A scalar is read in pieces and folded together afterwards; the pieces of a text
without line breaks are those of its characters (`element`). A plain scalar is
read through the end of its line into the margin of the next one, which is why
`Below` says how far that line is indented and what it starts with. Between
single quotes only the two separators may end a line, and what is folded depends
on the gap behind the character before (`Gap.Follows`). Double quotes hold every
character as one of three kinds of escape (`Escaped`).
-/

namespace Conformance.Yaml

variable {cs rest : List Char} {x : Char} {c n column fuel : Nat}

theorem isSpacing_eq_false : isSpacing x = false ↔ isBlank x = false ∧ isBreak x = false := by
  rw [isSpacing, Bool.or_eq_false_iff]

theorem lineBreak?_of_isBreak_eq_false (h : isBreak x = false) (r : List Char) :
    lineBreak? (x :: r) = none := by
  have hx : x ≠ '\r' := by
    rintro rfl
    cases h
  rw [lineBreak?.eq_2 x r fun r' hx' => absurd hx' hx]
  simp only [isBreak, Bool.or_eq_false_iff] at h
  simp [isBreak, h]

theorem lineBreak?_newline (r : List Char) : lineBreak? ('\n' :: r) = some ('\n', r) := rfl

/-- Nothing that is passed over in front of a token. -/
def Settled (rest : List Char) : Prop :=
  ∀ x ∈ rest.head?, isSpacing x = false ∧ x ≠ '#' ∧ x ≠ byteOrderMark

theorem settled_cons :
    Settled (x :: rest) ↔ isSpacing x = false ∧ x ≠ '#' ∧ x ≠ byteOrderMark := by
  simp [Settled]

/-- What follows a value of a block in the column `c`: the text is at its end, or a line that does
not belong to the value starts in the column `n`. -/
structure Below (c n : Nat) (rest : List Char) : Prop where
  column : n ≤ c
  settled : Settled rest

/-- The piece that a character is read as. -/
def element (x : Char) : Element := if x = ' ' then .blank x else .char x

theorem foldFrom_elements (cs g : List Char) : foldFrom (.blanks g) (cs.map element) = g ++ cs := by
  induction cs generalizing g with
  | nil => simp [foldFrom, Gap.text]
  | cons x cs ih =>
      rw [List.map_cons, element]
      split_ifs with h
      · rw [foldFrom, Gap.blank, ih, List.append_assoc, List.singleton_append]
      · rw [foldFrom, Gap.text, ih, List.nil_append]

theorem fold_elements (cs : List Char) : fold (cs.map element) = String.ofList cs := by
  rw [fold, foldFrom_elements, List.nil_append]

/-- The gap at the end is dropped, and nothing of a text that does not end in a space. -/
theorem trimEnd_elements (gap : List Element) (hgap : ∀ e ∈ gap, e.isGap = true)
    (hlast : cs.getLast?.any isSpace = false) :
    trimEnd (cs.map element ++ gap) = cs.map element := by
  have hdrop : (cs.map element).reverse.dropWhile Element.isGap = (cs.map element).reverse := by
    rw [← List.map_reverse]
    rw [← List.head?_reverse] at hlast
    cases h : cs.reverse with
    | nil => rfl
    | cons x xs =>
        rw [h] at hlast
        have hx : x ≠ ' ' := by simpa [isSpace] using hlast
        simp [element, hx, Element.isGap]
  rw [trimEnd, List.reverse_append, List.dropWhile_append_of_pos (by simpa using hgap), hdrop,
    List.reverse_reverse]

section Plain

variable {indent : Int} {place : PlainPlace}

theorem plain?_nil :
    plain? false indent (fuel + 1) place column [] = some ([], place == .behindLines, []) := by
  rw [plain?]
  nofun

theorem plain?_newline (r : List Char) :
    plain? false indent (fuel + 1) place column ('\n' :: r) =
      (plain? false indent fuel .behindLines 0 r).map fun (es, ended, rest) =>
        (.newline '\n' :: es, ended, rest) := by
  rw [plain?, lineBreak?_newline]
  dsimp only
  cases plain? false indent fuel .behindLines 0 r <;> rfl

theorem plain?_space (r : List Char) :
    plain? false indent (fuel + 1) place column (' ' :: r) =
      (plain? false indent fuel (if place = .behindLines then .behindLines else .behindBlanks)
        (column + 1) r).map fun (es, ended, rest) => (.blank ' ' :: es, ended, rest) := by
  rw [plain?, lineBreak?_of_isBreak_eq_false (by decide)]
  cases place
  all_goals
    dsimp
    generalize plain? _ _ _ _ _ _ = a
    cases a <;> rfl

theorem plain?_stops (hx : isSpacing x = false) (r : List Char) (hplace : place ≠ .inWord)
    (h : stopsBehindGap false indent column (x :: r) = true) :
    plain? false indent (fuel + 1) place column (x :: r) =
      some ([], place == .behindLines, x :: r) := by
  obtain ⟨hblank, hbreak⟩ := isSpacing_eq_false.1 hx
  rw [plain?, lineBreak?_of_isBreak_eq_false hbreak]
  simp [hblank, hplace, h]

theorem plain?_char (hx : isSpacing x = false) (r : List Char)
    (hgap : place = .inWord ∨ stopsBehindGap false indent column (x :: r) = false)
    (hends : endsPlain false (x :: r) = false) :
    plain? false indent (fuel + 1) place column (x :: r) =
      (plain? false indent fuel .inWord (column + 1) r).map fun (es, ended, rest) =>
        (.char x :: es, ended, rest) := by
  obtain ⟨hblank, hbreak⟩ := isSpacing_eq_false.1 hx
  have hgap' : (place != .inWord && stopsBehindGap false indent column (x :: r)) = false := by
    rcases hgap with rfl | h
    · rfl
    · rw [h, Bool.and_false]
  rw [plain?, lineBreak?_of_isBreak_eq_false hbreak]
  simp only [hblank, hgap', hends, Bool.false_and, Bool.false_eq_true, if_false]
  cases plain? false indent fuel .inWord (column + 1) r <;> rfl

theorem endsPlain_eq_false {r : List Char} (h : x = ':' → atSpacing r = false) :
    endsPlain false (x :: r) = false := by
  unfold endsPlain
  split
  next heq =>
      cases heq
      exact h rfl
  next => rfl
  next heq => cases heq

/-- The indentation in front of the next line ends a plain scalar. -/
theorem plain?_indentation (hcolumn : column + n ≤ c) (h : ∀ x ∈ rest.head?, isSpacing x = false) :
    plain? false (c + 1) (n + fuel + 1) .behindLines column (indentation n ++ rest) =
      some (List.replicate n (.blank ' '), true, rest) := by
  induction n generalizing column with
  | zero =>
      rw [indentation, List.replicate_zero, List.nil_append]
      cases rest with
      | nil => exact plain?_nil
      | cons x rest =>
          refine plain?_stops (h x rfl) rest nofun ?_
          simp only [stopsBehindGap, Bool.or_eq_true, Bool.and_eq_true, decide_eq_true_eq]
          exact .inl (.inl ⟨rfl, by omega⟩)
  | succ n ih =>
      have hnext := ih (show column + 1 + n ≤ c by omega)
      have hfuel : n + 1 + fuel + 1 = n + fuel + 1 + 1 := by omega
      rw [hfuel, indentation, List.replicate_succ, List.cons_append, plain?_space, if_pos rfl]
      rw [← indentation, hnext]
      rfl

/-- A plain scalar is read through the end of its line. -/
theorem plain?_line {a : Char} (hcs : ∀ x ∈ cs, isBreak x = false ∧ x ≠ '\t')
    (hinner : hasInnerIndicator (a :: cs) = false)
    (hplace : place = .inWord ∨ place = .behindBlanks ∧ a = ' ') (hcolumn : c < column)
    (h : Below c n rest) :
    plain? false (c + 1) (cs.length + n + fuel + 2) place column
        (cs ++ '\n' :: (indentation n ++ rest)) =
      some (cs.map element ++ .newline '\n' :: List.replicate n (.blank ' '), true, rest) := by
  induction cs generalizing a place column with
  | nil =>
      have hfuel : ([] : List Char).length + n + fuel + 2 = n + fuel + 1 + 1 := by
        rw [List.length_nil]
        omega
      have hmargin : 0 + n ≤ c := by
        have := h.column
        omega
      rw [hfuel, List.nil_append, plain?_newline,
        plain?_indentation hmargin fun x hx => (h.settled x hx).1]
      rfl
  | cons x cs ih =>
      obtain ⟨⟨hbreak, htab⟩, hcs'⟩ := List.forall_mem_cons.1 hcs
      have hfuel : (x :: cs).length + n + fuel + 2 = cs.length + n + fuel + 2 + 1 := by
        rw [List.length_cons]
        omega
      rw [hfuel, List.cons_append, List.map_cons]
      simp only [hasInnerIndicator, Bool.or_eq_false_iff, Bool.and_eq_false_imp, beq_iff_eq]
        at hinner
      obtain ⟨⟨hcolon, hsharp⟩, hinner⟩ := hinner
      by_cases hx : x = ' '
      · subst hx
        rw [plain?_space, ih hcs' hinner (.inr ⟨?_, rfl⟩) (by omega)]
        · rfl
        · rcases hplace with rfl | ⟨rfl, -⟩ <;> rfl
      · have hspacing : isSpacing x = false := by
          rw [isSpacing_eq_false]
          exact ⟨by simp [isBlank, hx, htab], hbreak⟩
        have hends : endsPlain false (x :: (cs ++ '\n' :: (indentation n ++ rest))) = false := by
          refine endsPlain_eq_false fun hx => ?_
          have hcolon := hcolon hx
          cases cs with
          | nil => cases hcolon
          | cons y cs => exact hcolon
        have hgap : place = .inWord ∨ stopsBehindGap false (c + 1) column
            (x :: (cs ++ '\n' :: (indentation n ++ rest))) = false := by
          rcases hplace with hplace | ⟨-, rfl⟩
          · exact .inl hplace
          · have hx' : x ≠ '#' := fun hx => absurd (hsharp hx) (by decide)
            refine .inr ?_
            simp [stopsBehindGap, hx']
            omega
        rw [plain?_char hspacing _ hgap hends, ih hcs' hinner (.inl rfl) (by omega), element,
          if_neg hx]
        rfl

/-- A word in front of a colon is read as a plain scalar of its own. -/
theorem plain?_name (hcs : ∀ x ∈ cs, isSpacing x = false ∧ x ≠ ':')
    (hrest : atSpacing rest = true) :
    plain? false indent (cs.length + fuel + 1) .inWord column (cs ++ ':' :: rest) =
      some (cs.map .char, false, ':' :: rest) := by
  induction cs generalizing column with
  | nil =>
      rw [List.nil_append, plain?, lineBreak?_of_isBreak_eq_false (by decide)]
      simp [isBlank, endsPlain, hrest]
  | cons x cs ih =>
      obtain ⟨⟨hspacing, hcolon⟩, hcs⟩ := List.forall_mem_cons.1 hcs
      have hfuel : (x :: cs).length + fuel + 1 = cs.length + fuel + 1 + 1 := by
        rw [List.length_cons]
        omega
      rw [hfuel, List.cons_append, plain?_char hspacing _ (.inl rfl)
        (endsPlain_eq_false fun hx => absurd hx hcolon), ih hcs]
      rfl

/-- What a text written plain promises. -/
structure StandsPlain (cs : List Char) : Prop where
  printable : ∀ x ∈ cs, isPrintable x = true
  unbroken : ∀ x ∈ cs, isBreak x = false
  start : startsWithIndicator cs = false
  inner : hasInnerIndicator cs = false
  head : cs.head?.any isSpace = false
  last : cs.getLast?.any isSpace = false

theorem ne_tab_of_isPrintable (h : isPrintable x = true) : x ≠ '\t' := by
  rintro rfl
  cases h

theorem standsPlain_of_allowsPlain (h : allowsPlain cs = true) : StandsPlain cs := by
  simp only [allowsPlain, needsDoubleQuotes, Bool.not_eq_true', Bool.or_eq_false_iff,
    Bool.not_eq_false', List.all_eq_true, List.any_eq_false, Bool.not_eq_true] at h
  obtain ⟨⟨⟨⟨⟨⟨hprintable, -⟩, hbreak⟩, hstart⟩, hinner⟩, hhead⟩, hlast⟩ := h
  exact ⟨hprintable, hbreak, hstart, hinner, hhead, hlast⟩

theorem startsWithIndicator_cons {r : List Char} (h : startsWithIndicator (x :: r) = false) :
    isIndicator x = false ∧ (x = '?' ∨ x = ':' ∨ x = '-' → atSpacing r = false) := by
  unfold startsWithIndicator at h
  split at h
  next => cases h
  next => cases h
  next heq =>
      cases heq
      rw [Bool.or_eq_false_iff, Bool.and_eq_false_imp] at h
      exact ⟨h.1, fun hx => h.2 (by simpa [or_assoc] using hx)⟩
  next heq => cases heq

/-- A text that stands plain is read through the end of its line, and put together again. -/
theorem StandsPlain.plain? (h : StandsPlain cs) (hcolumn : c < column) (hbelow : Below c n rest) :
    ∃ es, plain? false (c + 1) ((cs ++ '\n' :: (indentation n ++ rest)).length + 1) .inWord column
        (cs ++ '\n' :: (indentation n ++ rest)) = some (es, true, rest) ∧
      fold (trimEnd es) = String.ofList cs := by
  have hinner : hasInnerIndicator ('a' :: cs) = false := by
    cases cs with
    | nil => rfl
    | cons x cs =>
        have hcolon : (x == ':' && atSpacing cs) = false := by
          rw [Bool.and_eq_false_imp, beq_iff_eq]
          exact fun hx => (startsWithIndicator_cons h.start).2 (.inr (.inl hx))
        have hspacing : isSpacing 'a' = false := by decide
        rw [hasInnerIndicator, h.inner, hcolon, hspacing, Bool.and_false]
        rfl
  have hfuel : (cs ++ '\n' :: (indentation n ++ rest)).length + 1 =
      cs.length + n + rest.length + 2 := by
    simp only [indentation, List.length_append, List.length_cons, List.length_replicate]
    omega
  have hunbroken : ∀ x ∈ cs, isBreak x = false ∧ x ≠ '\t' :=
    fun x hx => ⟨h.unbroken x hx, ne_tab_of_isPrintable (h.printable x hx)⟩
  refine ⟨_, hfuel ▸ plain?_line hunbroken hinner (.inl rfl) hcolumn hbelow, ?_⟩
  rw [trimEnd_elements _ _ h.last, fold_elements]
  simp [Element.isGap]

end Plain

section SingleQuoted

theorem atDocumentMark_eq_false (h : x ≠ '-') (h' : x ≠ '.') (r : List Char) :
    atDocumentMark (x :: r) = false := by
  unfold atDocumentMark
  split
  next heq => exact absurd (List.cons.inj heq).1 h
  next heq => exact absurd (List.cons.inj heq).1 h'
  next => rfl

theorem singleQuoted?_end (h : rest.head? ≠ some '\'') :
    singleQuoted? false ('\'' :: rest) = some ([], rest) := by
  rw [singleQuoted?.eq_def]
  cases rest with
  | nil => rfl
  | cons x rest =>
      have hx : x ≠ '\'' := fun hx => h (congrArg some hx)
      simp [hx]

theorem singleQuoted?_space (lineStart : Bool) (r : List Char) :
    singleQuoted? lineStart (' ' :: r) =
      (singleQuoted? false r).map fun (es, rest) => (.blank ' ' :: es, rest) := by
  rw [singleQuoted?.eq_def]
  simp only [atDocumentMark_eq_false (x := ' ') (by decide) (by decide)]
  cases lineStart <;> cases singleQuoted? false r <;> rfl

theorem singleQuoted?_char (hbreak : isBreak x = false) (htab : x ≠ '\t') (r : List Char) :
    singleQuoted? false ((if x == '\'' then ['\'', '\''] else [x]) ++ r) =
      (singleQuoted? false r).map fun (es, rest) => (element x :: es, rest) := by
  by_cases hquote : x = '\''
  · subst hquote
    rw [if_pos (beq_self_eq_true _), List.cons_append, singleQuoted?.eq_def]
    simp [element]
    cases singleQuoted? false r <;> rfl
  · by_cases hspace : x = ' '
    · subst hspace
      exact singleQuoted?_space false r
    · rw [if_neg (by simpa using hquote), List.singleton_append, singleQuoted?.eq_def]
      simp [element, isBlank, hquote, hspace, htab, hbreak]
      cases singleQuoted? false r <;> rfl

theorem singleQuoted?_separator (h : x = lineSeparator ∨ x = paragraphSeparator) (lineStart : Bool)
    (r : List Char) :
    singleQuoted? lineStart (x :: r) =
      (singleQuoted? true r).map fun (es, rest) => (.newline x :: es, rest) := by
  have hne : x ≠ '-' ∧ x ≠ '.' ∧ x ≠ '\'' ∧ x ≠ '\r' := by
    rcases h with rfl | rfl <;> decide
  have hbreak : isBlank x = false ∧ isBreak x = true := by
    rcases h with rfl | rfl <;> decide
  obtain ⟨hdash, hdot, hquote, hreturn⟩ := hne
  rw [singleQuoted?.eq_def]
  simp only [atDocumentMark_eq_false hdash hdot, beq_eq_false_iff_ne.2 hquote, hbreak,
    Bool.and_false, Bool.false_eq_true, if_false, if_true]
  split
  next => exact absurd rfl hreturn
  next =>
      rw [if_pos (by simpa using h)]
      cases singleQuoted? true r <;> rfl

theorem singleQuoted?_indentation (lineStart : Bool) (n : Nat) (r : List Char) :
    singleQuoted? lineStart (indentation (n + 1) ++ r) =
      (singleQuoted? false r).map fun (es, rest) =>
        (List.replicate (n + 1) (.blank ' ') ++ es, rest) := by
  induction n generalizing lineStart with
  | zero =>
      rw [indentation, List.replicate_one, List.singleton_append, singleQuoted?_space]
      rfl
  | succ n ih =>
      rw [indentation, List.replicate_succ, List.cons_append, singleQuoted?_space, ← indentation,
        ih]
      cases singleQuoted? false r <;> rfl

/-- The gap behind the character `a` of a text that is read from single quotes. -/
def Gap.Follows (a : Char) : Gap → Prop
  | .blanks g => isBreak a = false ∧ (g ≠ [] → a = ' ')
  | .lines first _ => isBreak a = true ∧ ∃ b, first = some b ∧ b ≠ '\n'

theorem Gap.text_lines {b : Char} (h : b ≠ '\n') (more : List Char) :
    (Gap.lines (some b) more).text = b :: more := by
  rw [Gap.text.eq_4]
  · exact fun _ => h
  · exact h

theorem foldFrom_blanks {first : Option Char} {more : List Char} (n : Nat) (es : List Element) :
    foldFrom (.lines first more) (List.replicate n (.blank ' ') ++ es) =
      foldFrom (.lines first more) es := by
  induction n with
  | zero => rfl
  | succ n ih => rw [List.replicate_succ, List.cons_append, foldFrom, Gap.blank, ih]

/-- A text without other breaks than separators and without spaces beside them is read from single
quotes, on from the gap behind the character `a`. -/
theorem singleQuoted?_body (lineStart : Bool) {a : Char}
    (hstart : lineStart = true → isBreak a = true)
    (hbreaks : ∀ x ∈ cs, x ≠ '\t' ∧
      (isBreak x = true → x = lineSeparator ∨ x = paragraphSeparator))
    (hbefore : hasNeighbours isSpace isBreak (a :: cs) = false)
    (hbehind : hasNeighbours isBreak isSpace (a :: cs) = false) (hrest : rest.head? ≠ some '\'') :
    ∃ es, singleQuoted? lineStart (singleQuotedBody (n + 1) (isBreak a) cs ++ '\'' :: rest) =
        some (es, rest) ∧
      ∀ gap : Gap, gap.Follows a → foldFrom gap es = gap.text ++ cs := by
  induction cs generalizing a lineStart with
  | nil =>
      rw [singleQuotedBody]
      cases ha : isBreak a with
      | true =>
          refine ⟨List.replicate (n + 1) (.blank ' ') ++ [], ?_, ?_⟩
          · rw [if_pos rfl, singleQuoted?_indentation, singleQuoted?_end hrest]
            rfl
          · rintro (g | ⟨first, more⟩) hgap
            · rw [hgap.1] at ha
              cases ha
            · rw [foldFrom_blanks, foldFrom, List.append_nil]
      | false =>
          have hstart : lineStart = false := by simpa [ha] using hstart
          refine ⟨[], ?_, fun gap _ => ?_⟩
          · rw [hstart, if_neg nofun, List.nil_append, singleQuoted?_end hrest]
          · rw [foldFrom, List.append_nil]
  | cons x cs ih =>
      obtain ⟨⟨htab, hbreak⟩, hbreaks'⟩ := List.forall_mem_cons.1 hbreaks
      simp only [hasNeighbours, Bool.or_eq_false_iff, Bool.and_eq_false_imp] at hbefore hbehind
      obtain ⟨hbefore, hbefore'⟩ := hbefore
      obtain ⟨hbehind, hbehind'⟩ := hbehind
      rw [singleQuotedBody]
      cases hx : isBreak x with
      | true =>
          obtain ⟨es, hes, hfold⟩ := ih true (fun _ => hx) hbreaks' hbefore' hbehind'
          rw [hx] at hes
          refine ⟨.newline x :: es, ?_, fun gap hgap => ?_⟩
          · rw [if_pos rfl, List.cons_append, singleQuoted?_separator (hbreak hx), hes]
            rfl
          · have hne : x ≠ '\n' := by
              rcases hbreak hx with rfl | rfl <;> decide
            have ha : a ≠ ' ' := by
              rintro rfl
              rw [hbefore rfl] at hx
              cases hx
            cases gap with
            | blanks g =>
                have hg : g = [] := Classical.not_not.1 fun hg => ha (hgap.2 hg)
                subst hg
                rw [foldFrom, Gap.newline, hfold (.lines _ _) ⟨hx, x, rfl, hne⟩, Gap.text_lines hne]
                rfl
            | lines first more =>
                obtain ⟨-, b, rfl, hb⟩ := hgap
                rw [foldFrom, Gap.newline, hfold (.lines _ _) ⟨hx, b, rfl, hb⟩, Gap.text_lines hb,
                  Gap.text_lines hb]
                simp
      | false =>
          obtain ⟨es, hes, hfold⟩ := ih false nofun hbreaks' hbefore' hbehind'
          rw [hx] at hes
          have hread := singleQuoted?_char hx htab
            (singleQuotedBody (n + 1) false cs ++ '\'' :: rest)
          rw [hes, Option.map_some] at hread
          cases ha : isBreak a with
          | true =>
              -- a line starts here, with a character that is no space
              have hspace : x ≠ ' ' := by
                rintro rfl
                cases hbehind ha
              rw [element, if_neg hspace] at hread
              refine ⟨List.replicate (n + 1) (.blank ' ') ++ .char x :: es, ?_, ?_⟩
              · rw [if_neg nofun, if_pos rfl, List.append_assoc, List.append_assoc,
                  singleQuoted?_indentation, hread]
                rfl
              · rintro (g | ⟨first, more⟩) hgap
                · rw [hgap.1] at ha
                  cases ha
                · rw [foldFrom_blanks, foldFrom, hfold (.blanks []) ⟨hx, nofun⟩]
                  rfl
          | false =>
              have hstart : lineStart = false := by simpa [ha] using hstart
              refine ⟨element x :: es, ?_, ?_⟩
              · rw [if_neg nofun, if_neg nofun, List.nil_append, List.append_assoc, hstart, hread]
              · rintro (g | ⟨first, more⟩) hgap
                · rw [element]
                  split_ifs with hspace
                  · rw [foldFrom, Gap.blank, hfold (.blanks _) ⟨hx, fun _ => hspace⟩]
                    simp [Gap.text]
                  · rw [foldFrom, hfold (.blanks []) ⟨hx, nofun⟩]
                    rfl
                · rw [hgap.1] at ha
                  cases ha

theorem isBreak_of_isPrintable (h : isPrintable x = true) (hbreak : isBreak x = true)
    (hnewline : x ≠ '\n') : x = lineSeparator ∨ x = paragraphSeparator := by
  have hcases : x = '\r' ∨ x = nel ∨ x = lineSeparator ∨ x = paragraphSeparator := by
    simpa [isBreak, hnewline, or_assoc] using hbreak
  rcases hcases with rfl | rfl | hx
  · cases h
  · cases h
  · exact hx

theorem singleQuoted?_of_allowsSingleQuotes (h : allowsSingleQuotes cs = true)
    (hnewline : '\n' ∉ cs) (hrest : rest.head? ≠ some '\'') :
    ∃ es, singleQuoted? false (singleQuotedBody (n + 1) false cs ++ '\'' :: rest) =
        some (es, rest) ∧ fold es = String.ofList cs := by
  simp only [allowsSingleQuotes, needsDoubleQuotes, Bool.not_eq_true', Bool.or_eq_false_iff,
    Bool.not_eq_false', List.all_eq_true] at h
  obtain ⟨⟨hprintable, hbefore⟩, hbehind⟩ := h
  have hneighbours {p q : Char → Bool} (ha : p 'a' = false) (h : hasNeighbours p q cs = false) :
      hasNeighbours p q ('a' :: cs) = false := by
    cases cs with
    | nil => rfl
    | cons x cs => rw [hasNeighbours, ha, h]; rfl
  obtain ⟨es, hes, hfold⟩ := singleQuoted?_body false (a := 'a') (n := n) nofun
    (fun x hx => ⟨ne_tab_of_isPrintable (hprintable x hx), fun hbreak =>
      isBreak_of_isPrintable (hprintable x hx) hbreak fun h => hnewline (h ▸ hx)⟩)
    (hneighbours rfl hbefore) (hneighbours (by decide) hbehind) hrest
  refine ⟨es, hes, ?_⟩
  rw [fold, hfold (.blanks []) ⟨by decide, nofun⟩]
  rfl

theorem mem_singleQuotedBody {indent : Nat} {pending : Bool}
    (h : x ∈ singleQuotedBody indent pending cs) : x ∈ cs ∨ x = ' ' ∨ x = '\'' := by
  have hmargin {pending : Bool} (h : x ∈ if pending then indentation indent else []) : x = ' ' := by
    cases pending with
    | false => cases h
    | true => exact List.eq_of_mem_replicate h
  induction cs generalizing pending with
  | nil =>
      rw [singleQuotedBody] at h
      exact .inr (.inl (hmargin h))
  | cons y cs ih =>
      rw [singleQuotedBody] at h
      split at h
      · rcases List.mem_cons.1 h with rfl | h
        · exact .inl List.mem_cons_self
        · exact (ih h).imp_left (List.mem_cons_of_mem y)
      · rcases List.mem_append.1 h with h | h
        · rcases List.mem_append.1 h with h | h
          · exact .inr (.inl (hmargin h))
          · split at h <;> simp_all
        · exact (ih h).imp_left (List.mem_cons_of_mem y)

end SingleQuoted

section DoubleQuoted

theorem digitValue?_toUpper {d : Nat} (h : d < 16) :
    digitValue? (Nat.digitChar d).toUpper = some d := by
  revert d
  decide

theorem digitsFrom?_append {base k m : Nat} {cs' : List Char}
    (h : digitsFrom? base k cs = some m) :
    digitsFrom? base k (cs ++ cs') = digitsFrom? base m cs' := by
  induction cs generalizing k with
  | nil =>
      cases h
      rfl
  | cons x cs ih =>
      rw [List.cons_append, digitsFrom?]
      rw [digitsFrom?] at h
      split at h
      next d hd =>
          split_ifs at h with hlt
          rw [if_pos hlt, ih h]
      next => cases h

theorem digitsFrom?_zeros (k : Nat) (cs : List Char) :
    digitsFrom? 16 0 (List.replicate k '0' ++ cs) = digitsFrom? 16 0 cs := by
  induction k with
  | zero => rfl
  | succ k ih =>
      rw [List.replicate_succ, List.cons_append, digitsFrom?]
      exact ih

theorem digitsFrom?_toDigits (n : Nat) :
    digitsFrom? 16 0 ((Nat.toDigits 16 n).map Char.toUpper) = some n := by
  induction n using Nat.strongRecOn with
  | ind n ih =>
      rw [Nat.toDigits_eq_if (by decide)]
      split
      next hlt => simp [digitsFrom?, digitValue?_toUpper hlt, hlt]
      next hle =>
          have hmod : n % 16 < 16 := Nat.mod_lt _ (by decide)
          rw [List.map_append, digitsFrom?_append (ih (n / 16) (by omega))]
          simp only [List.map_cons, List.map_nil, digitsFrom?, digitValue?_toUpper hmod,
            if_pos hmod, Option.some.injEq]
          omega

theorem digits?_upperHex (width n : Nat) :
    digits? 16 (Quoted.upperHex width n).toList = some n := by
  have hread : digitsFrom? 16 0 (Quoted.upperHex width n).toList = some n := by
    rw [Quoted.upperHex, String.toList_ofList, digitsFrom?_zeros, digitsFrom?_toDigits]
  cases hcs : (Quoted.upperHex width n).toList with
  | nil =>
      have hdigits : (Nat.toDigits 16 n).map Char.toUpper = [] := by
        rw [Quoted.upperHex, String.toList_ofList] at hcs
        exact (List.append_eq_nil_iff.1 hcs).2
      exact absurd (List.map_eq_nil_iff.1 hdigits) Nat.toDigits_ne_nil
  | cons x cs =>
      rw [hcs] at hread
      exact hread

theorem isPrintable_of_mem_toDigits (h : x ∈ Nat.toDigits 16 n) :
    isPrintable x.toUpper = true := by
  induction n using Nat.strongRecOn with
  | ind n ih =>
      have hdigit {d : Nat} (hd : d < 16) : isPrintable (Nat.digitChar d).toUpper = true := by
        revert d
        decide
      rw [Nat.toDigits_eq_if (by decide)] at h
      split at h
      next hlt =>
          rw [List.mem_singleton.1 h]
          exact hdigit hlt
      next hle =>
          rcases List.mem_append.1 h with h | h
          · exact ih (n / 16) (by omega) h
          · rw [List.mem_singleton.1 h]
            exact hdigit (Nat.mod_lt _ (by decide))

theorem isPrintable_of_mem_upperHex {width : Nat} (h : x ∈ (Quoted.upperHex width n).toList) :
    isPrintable x = true := by
  rw [Quoted.upperHex, String.toList_ofList] at h
  rcases List.mem_append.1 h with h | h
  · rw [List.eq_of_mem_replicate h]
    rfl
  · obtain ⟨y, hy, rfl⟩ := List.mem_map.1 h
    exact isPrintable_of_mem_toDigits hy

theorem length_upperHex {width : Nat} (hwidth : 0 < width) (h : n < Nat.pow 16 width) :
    (Quoted.upperHex width n).toList.length = width := by
  have hle := (Nat.length_toDigits_le_iff (b := 16) (by decide) hwidth).2 h
  simp only [Quoted.upperHex, String.toList_ofList, List.length_append, List.length_replicate,
    List.length_map]
  omega

/-- A character is escaped in short, escaped by number, or stands for itself. -/
inductive Escaped (x : Char) : List Char → Prop
  | short (e : Char) (hprintable : isPrintable e = true) (hbreak : isBreak e = false)
      (hwidth : escapeWidth? e = none) (hshort : shortEscape? e = some x) (hspace : x ≠ ' ') :
      Escaped x ['\\', e]
  | number (e : Char) (width : Nat) (hprintable : isPrintable e = true)
      (hbreak : isBreak e = false) (hwidth : escapeWidth? e = some width) (hpos : 0 < width)
      (hlt : x.toNat < Nat.pow 16 width) (hspace : x ≠ ' ') :
      Escaped x ('\\' :: e :: (Quoted.upperHex width x.toNat).toList)
  | itself (hquote : x ≠ '"') (hslash : x ≠ '\\') (hprintable : isPrintable x = true)
      (hbreak : isBreak x = false) : Escaped x [x]

theorem Escaped.ite_short {a : Char} (e : Char) {t : List Char}
    (he : isPrintable e = true ∧ isBreak e = false ∧ escapeWidth? e = none ∧
      shortEscape? e = some a ∧ a ≠ ' ')
    (h : x ≠ a → Escaped x t) : Escaped x (if x == a then ['\\', e] else t) := by
  split
  next heq =>
      rw [beq_iff_eq] at heq
      subst heq
      obtain ⟨hprintable, hbreak, hwidth, hshort, hspace⟩ := he
      exact .short e hprintable hbreak hwidth hshort hspace
  next hne => exact h (by simpa using hne)

theorem escaped_doubleQuotedChar (x : Char) : Escaped x (doubleQuotedChar x) := by
  unfold doubleQuotedChar
  refine .ite_short _ (by decide) fun hquote => .ite_short _ (by decide) fun hslash => ?_
  by_cases h : (isPrintable x && !isBreak x) = true
  · rw [if_pos h]
    rw [Bool.and_eq_true, Bool.not_eq_true'] at h
    exact .itself hquote hslash h.1 h.2
  · rw [if_neg h]
    have hspace : x ≠ ' ' := by
      rintro rfl
      exact h rfl
    iterate 12 refine .ite_short _ (by decide) fun _ => ?_
    split
    next hle => exact .number 'x' 2 rfl rfl rfl (by decide) (Nat.lt_succ_of_le hle) hspace
    next =>
        split
        next hle => exact .number 'u' 4 rfl rfl rfl (by decide) (Nat.lt_succ_of_le hle) hspace
        next => exact .number 'U' 8 rfl rfl rfl (by decide) x.val.toNat_lt hspace

theorem Escaped.length_pos {t : List Char} (h : Escaped x t) : 0 < t.length := by
  cases h <;> exact Nat.zero_lt_succ _

theorem Escaped.isPrintable {t : List Char} (h : Escaped x t) :
    ∀ y ∈ t, isPrintable y = true := by
  have hslash : Yaml.isPrintable '\\' = true := rfl
  cases h with
  | short e hprintable => simp [hslash, hprintable]
  | number e width hprintable =>
      simp only [List.forall_mem_cons]
      exact ⟨hslash, hprintable, fun y => isPrintable_of_mem_upperHex⟩
  | itself _ _ hprintable => simpa using hprintable

theorem Escaped.doubleQuoted? {t : List Char} (h : Escaped x t) (r : List Char) :
    doubleQuoted? (fuel + 1) false (t ++ r) =
      (doubleQuoted? fuel false r).map fun (es, rest) => (element x :: es, rest) := by
  cases h with
  | short e _ hbreak hwidth hshort hspace =>
      simp only [List.cons_append, List.nil_append, Yaml.doubleQuoted?,
        lineBreak?_of_isBreak_eq_false hbreak, hwidth, hshort, element, if_neg hspace]
      cases Yaml.doubleQuoted? fuel false r <;> rfl
  | number e width _ hbreak hwidth hpos hlt hspace =>
      have hlength := length_upperHex hpos hlt
      have hchar : charOfNat? x.toNat = some x := by
        have hvalid : x.toNat.isValidChar := x.valid
        rw [charOfNat?, if_pos hvalid, Char.ofNat_toNat]
      simp only [List.cons_append, Yaml.doubleQuoted?,
        lineBreak?_of_isBreak_eq_false hbreak, hwidth, element, if_neg hspace]
      rw [if_neg (by simp), if_neg (by decide), if_pos (by decide), if_neg (by simp [hlength]),
        List.take_left' hlength, List.drop_left' hlength, digits?_upperHex]
      dsimp only [Option.bind_eq_bind, Option.bind_some]
      rw [hchar]
      cases Yaml.doubleQuoted? fuel false r <;> rfl
  | itself hquote hslash hprintable hbreak =>
      have htab := ne_tab_of_isPrintable hprintable
      rw [List.singleton_append, Yaml.doubleQuoted?.eq_def]
      simp only [Bool.false_and, Bool.false_eq_true, if_false, beq_eq_false_iff_ne.2 hquote,
        beq_eq_false_iff_ne.2 hslash, lineBreak?_of_isBreak_eq_false hbreak, isBlank,
        beq_eq_false_iff_ne.2 htab, Bool.or_false, element, beq_iff_eq]
      split_ifs
      · cases Yaml.doubleQuoted? fuel false r <;> rfl
      · cases Yaml.doubleQuoted? fuel false r <;> rfl

/-- Every text is read from double quotes. -/
theorem doubleQuoted?_text (cs : List Char) (fuel : Nat) (rest : List Char) :
    doubleQuoted? (cs.length + fuel + 1) false (cs.flatMap doubleQuotedChar ++ '"' :: rest) =
      some (cs.map element, rest) := by
  induction cs with
  | nil =>
      rw [List.flatMap_nil, List.nil_append, doubleQuoted?.eq_def]
      rfl
  | cons x cs ih =>
      have hfuel : (x :: cs).length + fuel + 1 = cs.length + fuel + 1 + 1 := by
        rw [List.length_cons]
        omega
      rw [hfuel, List.flatMap_cons, List.append_assoc,
        (escaped_doubleQuotedChar x).doubleQuoted?, ih]
      rfl

theorem length_le_flatMap_doubleQuotedChar (cs : List Char) :
    cs.length ≤ (cs.flatMap doubleQuotedChar).length := by
  induction cs with
  | nil => exact Nat.le_refl _
  | cons x cs ih =>
      have hpos := (escaped_doubleQuotedChar x).length_pos
      rw [List.flatMap_cons, List.length_append, List.length_cons]
      omega

end DoubleQuoted

end Conformance.Yaml

import Conformance.Proofs.Yaml.Scanning
import Mathlib.Data.Bool.AllAny

/-!
# Scanning collections

The lines of a collection are found one behind the other, and where the first one
is deeper than the block around it, a new block is opened and closed again.
`Continues c` is for lines in the column `c` of a block that is open already, a
field (`Continues.field`) or an item (`Continues.item`) at a time. `Opens k` is
for a text that opens a block in the column `k`, as the first field of a record
(`opens_record`) or the first item of a list (`opens_list`) does. A collection
that is opened passes as a value, behind the name of a field (`Opens.passes`) or
behind a dash (`Opens.passesItem`); the items of a list also pass in the column
of the field that holds them (`Continues.passes`). A text that opens a collection
in the first column is scanned as a whole (`Opens.scan?`).

The names of fields are short and of plain letters (`Scanner.IsFieldName`), so that a
name is still pending as a key at its colon (`exists_reaches_key`).
-/

namespace Conformance.Yaml

namespace Scanner

variable {rest name : List Char} {x : Char} {c n : Nat} {allowed : Bool} {key : Option KeyPlace}
  {ts ts' : List Token} {m : Mark} {i j : Int} {is : List Int}

theorem unrollTo_of_lt_nil {column : Int} (h : column < i) :
    (inBlock allowed key ts m i [] rest).unrollTo column =
      inBlock allowed key (ts ++ [.blockEnd]) m (-1) [] rest := by
  have hclose : (inBlock allowed key ts m i [] rest).unrollTo column =
      { (inBlock allowed key ts m i [] rest).push .blockEnd with indent := -1, indents := [] } := by
    rw [unrollTo, unroll.eq_def]
    have hdeep : ((inBlock allowed key ts m i [] rest).inFlow ||
        decide ((inBlock allowed key ts m i [] rest).indent ≤ column)) = false :=
      decide_eq_false (Int.not_le.2 h)
    exact if_neg (ne_true_of_eq_false hdeep)
  rw [hclose, push_inBlock]
  rfl

/-- What is closed in front of a line is closed at the end of the document too. -/
theorem unrollTo_unrollTo {column : Int} (hcolumn : -1 ≤ column) :
    ((inBlock allowed key ts m i is rest).unrollTo column).unrollTo (-1) =
      (inBlock allowed key ts m i is rest).unrollTo (-1) := by
  induction is generalizing ts i with
  | nil =>
      by_cases h : i ≤ column
      · rw [unrollTo_of_le h]
      · have hend : -1 < i := by omega
        rw [unrollTo_of_lt_nil (Int.not_le.1 h), unrollTo_of_le (Int.le_refl _),
          unrollTo_of_lt_nil hend]
  | cons j is ih =>
      by_cases h : i ≤ column
      · rw [unrollTo_of_le h]
      · have hend : -1 < i := by omega
        rw [unrollTo_of_lt (Int.not_le.1 h), ih, unrollTo_of_lt hend]

theorem rest_unrollTo (column : Int) :
    ((inBlock allowed key ts m i is rest).unrollTo column).rest = rest := by
  induction is generalizing ts i with
  | nil =>
      by_cases h : i ≤ column
      · rw [unrollTo_of_le h]
        rfl
      · rw [unrollTo_of_lt_nil (Int.not_le.1 h)]
        rfl
  | cons j is ih =>
      by_cases h : i ≤ column
      · rw [unrollTo_of_le h]
        rfl
      · rw [unrollTo_of_lt (Int.not_le.1 h), ih]

/-- At the end of the document all blocks are closed. -/
theorem scan?_inBlock_nil (fuel : Nat) :
    scan? (fuel + 1) (inBlock allowed none ts m i is []) =
      (((inBlock allowed none ts m i is []).unrollTo (-1)).forgetKey?).map (·.tokens) := by
  have hcolumn : -1 ≤ (m.column : Int) := by omega
  have hempty : ((inBlock allowed none ts m i is []).unrollTo m.column).rest.isEmpty = true := by
    rw [rest_unrollTo]
    rfl
  rw [scan?_of_prepare? (prepare?_inBlock_none (by simp [Settled]))]
  refine (if_pos hempty).trans ?_
  rw [finish?, ← unrollTo_unrollTo hcolumn]
  rfl

theorem scan?_inBlock_end {fuel : Nat} (hfuel : 0 < fuel) :
    scan? fuel (inBlock allowed none ts m (-1) [] []) = some ts.toArray := by
  obtain ⟨fuel, rfl⟩ := Nat.exists_eq_add_one.2 hfuel
  rw [scan?_inBlock_nil, unrollTo_of_le (Int.le_refl _)]
  rfl

/-- The innermost block is closed in front of a line that is not as deep, or at the end of the
document. -/
theorem reaches_pop (hsettled : Settled rest) (hi : -1 < i) (h : rest = [] ∨ m.column < i) :
    Reaches (inBlock allowed none ts m i (j :: is) rest)
      (inBlock allowed none (ts ++ [.blockEnd]) m j is rest) := by
  intro fuel hfuel
  refine ⟨fuel, hfuel, ?_⟩
  obtain ⟨fuel, rfl⟩ := Nat.exists_eq_add_one.2 (Nat.zero_lt_of_lt hfuel)
  rcases h with rfl | hcolumn
  · rw [scan?_inBlock_nil, scan?_inBlock_nil, unrollTo_of_lt hi]
  · rw [scan?_of_prepare? (prepare?_inBlock_none hsettled),
      scan?_of_prepare? (prepare?_inBlock_none hsettled)]
    exact congrArg (fun s : Scanner => if s.rest.isEmpty then s.finish?.map (·.tokens)
      else s.token?.bind (scan? fuel)) (unrollTo_of_lt hcolumn)

theorem insertIdx_append {α : Type} (xs ys : List α) (y : α) :
    (xs ++ ys).insertIdx xs.length y = xs ++ y :: ys := by
  induction xs with
  | nil => rfl
  | cons x xs ih => rw [List.cons_append, List.length_cons, List.insertIdx_succ_cons, ih]; rfl

theorem roll_of_lt {column : Nat} (h : i < column) (t : Token) :
    (inBlock allowed key (ts ++ ts') m i is rest).roll column ts.length t =
      inBlock allowed key (ts ++ t :: ts') m column (i :: is) rest := by
  have hdeep : (!(inBlock allowed key (ts ++ ts') m i is rest).inFlow &&
      decide ((inBlock allowed key (ts ++ ts') m i is rest).indent < column)) = true :=
    decide_eq_true h
  refine (if_pos hdeep).trans ?_
  simp [inBlock, insertIdx_append]

theorem roll_self {column : Nat} (t : Token) (position : Nat) :
    (inBlock allowed key ts m column is rest).roll column position t =
      inBlock allowed key ts m column is rest :=
  if_neg (by simp [inBlock])

theorem skip_inBlock (x : Char) :
    (inBlock allowed key ts m i is (x :: rest)).skip 1 =
      inBlock allowed key ts (m.advance 1 (x :: rest)) i is rest :=
  moveTo_inBlock [x]

def nameChars : List Char := "abcdefghijklmnopqrstuvwxyz_".toList

/-- A name that is written as it is. -/
structure IsFieldName (name : List Char) : Prop where
  ne_nil : name ≠ []
  chars : ∀ x ∈ name, x ∈ nameChars
  length : name.length ≤ maxKeyLength

theorem isSpacing_of_mem_nameChars : ∀ x ∈ nameChars, isSpacing x = false :=
  List.all_iff_forall_prop.1 (by decide)

theorem isIndicator_of_mem_nameChars : ∀ x ∈ nameChars, isIndicator x = false :=
  List.all_iff_forall_prop.1 (by decide)

theorem isPrintable_of_mem_nameChars : ∀ x ∈ nameChars, isPrintable x = true :=
  List.all_iff_forall_prop.1 (by decide)

theorem length_encodeChar_of_mem_nameChars :
    ∀ x ∈ nameChars, (Utf8.encodeChar x).length = 1 :=
  List.all_iff_forall_prop.1 (by decide)

theorem IsFieldName.ne {y : Char} (h : IsFieldName name) (hx : x ∈ name) (hy : y ∉ nameChars) :
    x ≠ y := by
  rintro rfl
  exact hy (h.chars x hx)

theorem IsFieldName.settled (h : IsFieldName name) (rest : List Char) : Settled (name ++ rest) := by
  obtain ⟨x, r, rfl⟩ := List.exists_cons_of_ne_nil h.ne_nil
  have hx : x ∈ x :: r := List.mem_cons_self
  exact settled_cons.2 ⟨isSpacing_of_mem_nameChars x (h.chars x hx), h.ne hx (by decide),
    h.ne hx (by decide)⟩

theorem IsFieldName.advance (h : IsFieldName name) :
    m.advance name.length (name ++ rest) =
      ⟨m.line, m.column + name.length, m.index + name.length⟩ := by
  have hbytes : (name.flatMap Utf8.encodeChar).length = name.length := by
    rw [List.length_flatMap, List.map_congr_left fun x hx =>
      length_encodeChar_of_mem_nameChars x (h.chars x hx), List.map_const', List.sum_replicate_nat,
      Nat.mul_one]
  rw [m.advance_of_unbroken, hbytes]
  exact fun x hx => (isSpacing_eq_false.1 (isSpacing_of_mem_nameChars x (h.chars x hx))).2

theorem IsFieldName.fold_trimEnd (h : IsFieldName name) :
    fold (trimEnd (name.map .char)) = String.ofList name := by
  have helements : name.map Element.char = name.map element ++ [] := by
    rw [List.append_nil]
    refine List.map_congr_left fun x hx => ?_
    rw [element, if_neg (h.ne hx (by decide))]
  have hlast : name.getLast?.any isSpace = false := by
    rw [Option.any_eq_false]
    intro x hx
    simpa [isSpace] using h.ne (List.mem_of_getLast? hx) (y := ' ') (by decide)
  rw [helements, trimEnd_elements [] (by simp) hlast, fold_elements]

theorem token?_name (hname : IsFieldName name) (hrest : atSpacing rest = true) :
    (inBlock true none ts m i is (name ++ ':' :: rest)).token? =
      some (inBlock false (placeOf true ts m i) (ts ++ [.scalar .plain (String.ofList name)])
        ⟨m.line, m.column + name.length, m.index + name.length⟩ i is (':' :: rest)) := by
  have hplain : plain? false (i + 1) ((name ++ ':' :: rest).length + 1) .inWord m.column
      (name ++ ':' :: rest) = some (name.map .char, false, ':' :: rest) := by
    rw [List.length_append]
    refine plain?_name (fun x hx => ?_) hrest
    exact ⟨isSpacing_of_mem_nameChars x (hname.chars x hx), hname.ne hx (by decide)⟩
  have hread : (inBlock true none ts m i is (name ++ ':' :: rest)).plainScalar? = _ :=
    plainScalar?_inBlock hplain
  rw [moveTo_inBlock, hname.advance, hname.fold_trimEnd] at hread
  rw [← hread]
  obtain ⟨x, r, rfl⟩ := List.exists_cons_of_ne_nil hname.ne_nil
  have hx : x ∈ x :: r := List.mem_cons_self
  have hdash : x ≠ '-' := hname.ne hx (by decide)
  refine token?_inBlock_plain (isIndicator_of_mem_nameChars x (hname.chars x hx))
    (isSpacing_of_mem_nameChars x (hname.chars x hx)) (fun hmark => ?_)
    fun _ => atDocumentMark_eq_false hdash (hname.ne hx (by decide)) _
  rcases hmark with hmark | hmark | hmark
  · exact absurd hmark (hname.ne hx (by decide))
  · exact absurd hmark (hname.ne hx (by decide))
  · exact absurd hmark hdash

theorem token?_colon {place : KeyPlace} {t : Token} (hcolumn : 0 < m.column)
    (hrest : atSpacing rest = true) (hplace : place.position = ts.length) :
    (inBlock false (some place) (ts ++ [t]) m i is (':' :: rest)).token? =
      some (((inBlock false none (ts ++ [.key, t]) m i is (':' :: rest)).roll place.mark.column
        ts.length .blockMappingStart).push .value |>.skip 1) := by
  have hcolumn' : m.column ≠ 0 := by omega
  have hvalue : (inBlock false (some place) (ts ++ [t]) m i is (':' :: rest)).token? =
      (inBlock false (some place) (ts ++ [t]) m i is (':' :: rest)).value? := by
    unfold token?
    simp [inBlock, hcolumn', hrest]
  rw [hvalue]
  simp [value?, inBlock, hplace, insertIdx_append]

theorem prepare?_inBlock_fresh (h : Settled rest) (hkey : ∀ k ∈ key, isStale m k = false) :
    (inBlock allowed key ts m i is rest).prepare? = some (inBlock allowed key ts m i is rest) := by
  rw [prepare?, skipSpacing_indentation (n := 0) rfl h]
  have hmove := moveTo_self (inBlock allowed key ts m i is rest)
  refine (congrArg dropStale? hmove).trans ?_
  cases key with
  | none => rfl
  | some k => simp [dropStale?, inBlock, hkey k rfl]

/-- A name and its colon are found as a key, in front of which a mapping may be opened. -/
theorem exists_reaches_key {ts₁ : List Token} {i₁ : Int} {is₁ : List Int} (ts : List Token)
    (is : List Int) (hname : IsFieldName name) (hrest : atSpacing rest = true) (hi : i ≤ m.column)
    (hroll : ∀ m₁, (inBlock false none (ts ++ [.key, .scalar .plain (String.ofList name)]) m₁ i is
      (':' :: rest)).roll m.column ts.length .blockMappingStart =
        inBlock false none ts₁ m₁ i₁ is₁ (':' :: rest)) :
    ∃ m', m.column < m'.column ∧
      Reaches (inBlock true none ts m i is (name ++ ':' :: rest))
        (inBlock false none (ts₁ ++ [.value]) m' i₁ is₁ rest) := by
  have hpos := List.length_pos_iff.2 hname.ne_nil
  have hlength := hname.length
  let m₁ : Mark := ⟨m.line, m.column + name.length, m.index + name.length⟩
  have hfound : Reaches (inBlock true none ts m i is (name ++ ':' :: rest)) _ :=
    reaches_token (hname.settled _) hi (token?_name hname hrest) (by simp [inBlock]; omega)
  have hcolon : (inBlock false (some ⟨m, ts.length, i == (m.column : Int)⟩)
      (ts ++ [.scalar .plain (String.ofList name)]) m₁ i is (':' :: rest)).token? = _ :=
    token?_colon (Nat.add_pos_right _ hpos) hrest rfl
  rw [hroll, push_inBlock, skip_inBlock] at hcolon
  refine ⟨m₁.advance 1 (':' :: rest), ?_,
    hfound.trans (reaches_of_token? ?_ (unrollTo_of_le ?_) hcolon ?_)⟩
  · rw [m₁.advance_one (by decide)]
    exact Nat.lt_succ_of_le (Nat.le_add_right _ _)
  · refine prepare?_inBlock_fresh (settled_cons.2 (by decide)) ?_
    rintro k ⟨⟩
    simp only [isStale, Nat.lt_irrefl, decide_false, Bool.false_or, decide_eq_false_iff_not,
      Nat.not_lt]
    omega
  · exact Int.le_trans hi (Int.ofNat_le.2 (Nat.le_add_right _ _))
  · exact Nat.lt_succ_self _

/-- A dash is found as an entry, in front of which a sequence may be opened. -/
theorem exists_reaches_entry {ts₁ : List Token} {i₁ : Int} {is₁ : List Int} (ts : List Token)
    (is : List Int) (rest : List Char) (hi : i ≤ m.column)
    (hroll : (inBlock true none ts m i is ('-' :: ' ' :: rest)).roll m.column ts.length
      .blockSequenceStart = inBlock true none ts₁ m i₁ is₁ ('-' :: ' ' :: rest)) :
    ∃ m', m'.column = m.column + 1 ∧
      Reaches (inBlock true none ts m i is ('-' :: ' ' :: rest))
        (inBlock true none (ts₁ ++ [.entry]) m' i₁ is₁ (' ' :: rest)) := by
  have hentry : (inBlock true none ts m i is ('-' :: ' ' :: rest)).token? =
      Scanner.entry? (inBlock true none ts m i is ('-' :: ' ' :: rest)) := by
    have hmark : atDocumentMark ('-' :: ' ' :: rest) = false := by simp [atDocumentMark]
    have hspacing : atSpacing (' ' :: rest) = true := rfl
    unfold token?
    simp [inBlock, hmark, hspacing]
  have htoken : (inBlock true none ts m i is ('-' :: ' ' :: rest)).token? =
      some (inBlock true none (ts₁ ++ [.entry]) (m.advance 1 ('-' :: ' ' :: rest)) i₁ is₁
        (' ' :: rest)) := by
    have hroll' : (inBlock true none ts m i is ('-' :: ' ' :: rest)).roll
        (inBlock true none ts m i is ('-' :: ' ' :: rest)).mark.column
        (inBlock true none ts m i is ('-' :: ' ' :: rest)).tokens.size .blockSequenceStart =
          inBlock true none ts₁ m i₁ is₁ ('-' :: ' ' :: rest) := by
      rw [← hroll]
      simp [inBlock]
    rw [hentry, ← skip_inBlock, ← push_inBlock, entry?, hroll']
    rfl
  refine ⟨m.advance 1 ('-' :: ' ' :: rest), ?_,
    reaches_token (settled_cons.2 (by decide)) hi htoken (Nat.lt_succ_self _)⟩
  rfl

/-- A scanner in a flow collection that stands in a block. -/
def inBrackets (key : Option KeyPlace) (ts : List Token) (m : Mark) (indent : Int)
    (indents : List Int) (rest : List Char) : Scanner :=
  { inBlock true key ts m indent indents rest with keys := [none, key] }

theorem flowStart?_inBlock (x : Char) (t : Token) :
    (inBlock allowed none ts m i is (x :: rest)).flowStart? t =
      some (inBrackets (placeOf allowed ts m i) (ts ++ [t]) (m.advance 1 (x :: rest)) i is
        rest) := by
  have hskip : (inBlock true (placeOf allowed ts m i) (ts ++ [t]) m i is (x :: rest)).skip 1 = _ :=
    skip_inBlock x
  rw [flowStart?, saveKey?_inBlock, inBrackets, ← hskip, ← push_inBlock]
  rfl

theorem flowEnd?_inBrackets (x : Char) (t : Token) :
    (inBrackets key ts m i is (x :: rest)).flowEnd? t =
      some (inBlock false key (ts ++ [t]) (m.advance 1 (x :: rest)) i is rest) := by
  rw [← skip_inBlock, ← push_inBlock]
  rfl

theorem unrollTo_inBrackets (column : Int) :
    (inBrackets key ts m i is rest).unrollTo column = inBrackets key ts m i is rest := by
  rw [unrollTo, unroll.eq_def]
  exact if_pos rfl

theorem prepare?_inBrackets (h : Settled rest) (hkey : ∀ k ∈ key, isStale m k = false) :
    (inBrackets key ts m i is rest).prepare? = some (inBrackets key ts m i is rest) := by
  rw [prepare?, skipSpacing_indentation (n := 0) rfl h]
  have hmove := moveTo_self (inBrackets key ts m i is rest)
  refine (congrArg dropStale? hmove).trans ?_
  cases key with
  | none => rfl
  | some k => simp [dropStale?, inBrackets, inBlock, hkey k rfl]

/-- Right behind a character of its line a place is not too far back. -/
theorem isStale_placeOf (hx : isBreak x = false) :
    ∀ k ∈ placeOf allowed ts m i, isStale (m.advance 1 (x :: rest)) k = false := by
  intro k hk
  cases allowed with
  | false => cases hk
  | true =>
      cases hk
      have hbytes : (Utf8.encodeChar x).length ≤ maxKeyLength := by
        unfold Utf8.encodeChar
        dsimp only
        split_ifs <;> simp [maxKeyLength]
      rw [m.advance_one hx]
      simp only [isStale, Nat.lt_irrefl, decide_false, Bool.false_or, decide_eq_false_iff_not,
        Nat.not_lt]
      omega

/-- An empty flow collection is found as its two brackets. -/
theorem exists_reaches_brackets {first last : Char} {opening closing : Token} (hc : c < m.column)
    (hfirst : Settled [first]) (hlast : Settled [last])
    (hopen : ∀ (s : Scanner) r, s.mark.column ≠ 0 → s.rest = first :: r →
      s.token? = s.flowStart? opening)
    (hclose : ∀ (s : Scanner) r, s.mark.column ≠ 0 → s.rest = last :: r →
      s.token? = s.flowEnd? closing) (hbelow : Below c n rest) :
    ∃ m', m'.column = n ∧
      Reaches (inBlock allowed none ts m c is (first :: last :: '\n' :: (indentation n ++ rest)))
        (inBlock true none (ts ++ [opening, closing]) m' c is rest) := by
  rw [settled_cons] at hfirst hlast
  have hbreak := (isSpacing_eq_false.1 hfirst.1).2
  have hcolumn : (m.advance 1 (first :: last :: '\n' :: (indentation n ++ rest))).column ≠ 0 := by
    rw [m.advance_one hbreak]
    exact Nat.succ_ne_zero _
  have htoken := (hopen (inBlock allowed none ts m c is (first :: last :: '\n' :: (indentation n ++
    rest))) _ (by simp only [inBlock]; omega) rfl).trans (flowStart?_inBlock first opening)
  have htoken' := (hclose (inBrackets (placeOf allowed ts m c) (ts ++ [opening])
    (m.advance 1 (first :: last :: '\n' :: (indentation n ++ rest))) c is
      (last :: '\n' :: (indentation n ++ rest))) _ hcolumn rfl).trans
        (flowEnd?_inBrackets last closing)
  rw [List.append_assoc, List.singleton_append] at htoken'
  have hstart := reaches_token (settled_cons.2 hfirst) (by omega) htoken (Nat.lt_succ_self _)
  have hend := reaches_of_token? (prepare?_inBrackets (settled_cons.2 hlast)
    (isStale_placeOf hbreak)) (unrollTo_inBrackets _) htoken' (Nat.lt_succ_self _)
  have hkey : ∀ k ∈ placeOf allowed ts m c,
      k.mark.line ≤ ((m.advance 1 (first :: last :: '\n' :: (indentation n ++ rest))).advance 1
        (last :: '\n' :: (indentation n ++ rest))).line ∧ k.required = false := by
    intro k hk
    obtain ⟨hline, hrequired⟩ := line_le_of_mem_placeOf allowed ts (by omega) k hk
    exact ⟨Nat.le_trans hline (Nat.le_trans (Mark.line_le_line_advance _ _ _)
      (Mark.line_le_line_advance _ _ _)), hrequired⟩
  obtain ⟨m', hcolumn', hline⟩ := exists_reaches_line
    ((m.advance 1 (first :: last :: '\n' :: (indentation n ++ rest))).advance 1
      (last :: '\n' :: (indentation n ++ rest))) n hbelow.settled
  exact ⟨m', hcolumn', hstart.trans (hend.trans (hline hkey))⟩

end Scanner

open Scanner

variable {c k n : Nat} {name value text rest : List Char} {new tokens : List Token}

/-- A text behind a dash in the column `c`, behind which the scanner has found new tokens. -/
def PassesItem (c : Nat) (text : List Char) (new : List Token) : Prop :=
  ∀ ts m is n rest, m.column = c + 1 → Below c n rest → ∃ m', m'.column = n ∧
    Reaches (.inBlock true none ts m c is (text ++ (indentation n ++ rest)))
      (.inBlock true none (ts ++ new) m' c is rest)

theorem Passes.item (h : Passes true c text new) : PassesItem c text new :=
  fun ts m is n rest hcolumn hbelow => h ts m is n rest (by omega) hbelow

/-- Lines of a block in the column `c`, behind which the scanner has found new tokens. -/
def Continues (c : Nat) (text : List Char) (new : List Token) : Prop :=
  ∀ n rest, Below c n rest → ∃ n' rest', text ++ (indentation n ++ rest) = indentation n' ++ rest' ∧
    Below c n' rest' ∧ ∀ ts m is, m.column = n' → ∃ m', m'.column = n ∧
      Reaches (.inBlock true none ts m c is rest') (.inBlock true none (ts ++ new) m' c is rest)

theorem continues_nil (c : Nat) : Continues c [] [] := by
  intro n rest hbelow
  refine ⟨n, rest, rfl, hbelow, fun ts m is hcolumn => ⟨m, hcolumn, ?_⟩⟩
  rw [List.append_nil]
  exact .refl _

def fieldTokens (name : List Char) (tokens : List Token) : List Token :=
  .key :: .scalar .plain (String.ofList name) :: .value :: tokens

theorem Continues.field (h : Continues c text new) (hname : IsFieldName name)
    (hspacing : ∀ rest, atSpacing (value ++ rest) = true) (hvalue : Passes false c value tokens) :
    Continues c (indentation c ++ (name ++ ':' :: (value ++ text)))
      (fieldTokens name tokens ++ new) := by
  intro n rest hbelow
  obtain ⟨n', rest', htext, hbelow', hnext⟩ := h n rest hbelow
  refine ⟨c, name ++ ':' :: (value ++ (indentation n' ++ rest')), ?_,
    ⟨Nat.le_refl c, hname.settled _⟩, fun ts m is hcolumn => ?_⟩
  · rw [← htext]
    simp
  · subst hcolumn
    obtain ⟨m₁, hcolumn₁, hkey⟩ := exists_reaches_key ts is hname
      (hspacing (indentation n' ++ rest')) (Int.le_refl _) fun m₁ => roll_self _ _
    obtain ⟨m₂, hcolumn₂, hfound⟩ := hvalue _ m₁ is n' rest' hcolumn₁ hbelow'
    obtain ⟨m₃, hcolumn₃, hrest⟩ := hnext _ m₂ is hcolumn₂
    refine ⟨m₃, hcolumn₃, ?_⟩
    have hreaches := hkey.trans (hfound.trans hrest)
    simpa [fieldTokens] using hreaches

theorem Continues.item (h : Continues c text new) (hvalue : PassesItem c (' ' :: value) tokens) :
    Continues c (indentation c ++ ('-' :: ' ' :: (value ++ text))) (.entry :: tokens ++ new) := by
  intro n rest hbelow
  obtain ⟨n', rest', htext, hbelow', hnext⟩ := h n rest hbelow
  refine ⟨c, '-' :: ' ' :: (value ++ (indentation n' ++ rest')), ?_,
    ⟨Nat.le_refl c, settled_cons.2 (by decide)⟩, fun ts m is hcolumn => ?_⟩
  · rw [← htext]
    simp
  · subst hcolumn
    obtain ⟨m₁, hcolumn₁, hentry⟩ := exists_reaches_entry ts is
      (value ++ (indentation n' ++ rest')) (Int.le_refl _) (roll_self _ _)
    obtain ⟨m₂, hcolumn₂, hfound⟩ := hvalue _ m₁ is n' rest' hcolumn₁ hbelow'
    obtain ⟨m₃, hcolumn₃, hrest⟩ := hnext _ m₂ is hcolumn₂
    refine ⟨m₃, hcolumn₃, ?_⟩
    have hreaches := hentry.trans (hfound.trans hrest)
    simpa using hreaches

/-- A collection that is opened in the column `k`, within a block that is not as deep. -/
def Opens (k : Nat) (text : List Char) (new : List Token) : Prop :=
  ∀ ts m (i : Int) is n rest, m.column = k → -1 ≤ i → i < k → Below k n rest →
    (rest = [] ∨ n < k) → ∃ m', m'.column = n ∧
      Reaches (.inBlock true none ts m i is (text ++ (indentation n ++ rest)))
        (.inBlock true none (ts ++ new) m' i is rest)

/-- The first field of a record opens a mapping, which is closed behind the last one. -/
theorem opens_record (hname : IsFieldName name)
    (hspacing : ∀ rest, atSpacing (value ++ rest) = true)
    (hvalue : Passes false k value tokens) (h : Continues k text new) :
    Opens k (name ++ ':' :: (value ++ text))
      (.blockMappingStart :: (fieldTokens name tokens ++ new) ++ [.blockEnd]) := by
  intro ts m i is n rest hcolumn hi hk hbelow hdeep
  subst hcolumn
  obtain ⟨n', rest', htext, hbelow', hnext⟩ := h n rest hbelow
  have hwhole : name ++ ':' :: (value ++ text) ++ (indentation n ++ rest) =
      name ++ ':' :: (value ++ (indentation n' ++ rest')) := by
    rw [← htext]
    simp
  obtain ⟨m₁, hcolumn₁, hkey⟩ := exists_reaches_key ts is hname
    (hspacing (indentation n' ++ rest')) (Int.le_of_lt hk) fun m₁ => roll_of_lt hk _
  obtain ⟨m₂, hcolumn₂, hfound⟩ := hvalue _ m₁ (i :: is) n' rest' hcolumn₁ hbelow'
  obtain ⟨m₃, hcolumn₃, hrest⟩ := hnext _ m₂ (i :: is) hcolumn₂
  have hshallow : rest = [] ∨ (m₃.column : Int) < m.column := hdeep.imp_right (by omega)
  refine ⟨m₃, hcolumn₃, ?_⟩
  have hreaches := hkey.trans (hfound.trans (hrest.trans
    (reaches_pop hbelow.settled (by omega) hshallow)))
  rw [hwhole]
  simpa [fieldTokens] using hreaches

/-- The first item of a list opens a sequence, which is closed behind the last one. -/
theorem opens_list (hvalue : PassesItem k (' ' :: value) tokens) (h : Continues k text new) :
    Opens k ('-' :: ' ' :: (value ++ text))
      (.blockSequenceStart :: (.entry :: tokens ++ new) ++ [.blockEnd]) := by
  intro ts m i is n rest hcolumn hi hk hbelow hdeep
  subst hcolumn
  obtain ⟨n', rest', htext, hbelow', hnext⟩ := h n rest hbelow
  have hwhole : '-' :: ' ' :: (value ++ text) ++ (indentation n ++ rest) =
      '-' :: ' ' :: (value ++ (indentation n' ++ rest')) := by
    rw [← htext]
    simp
  have hroll : (inBlock true none (ts ++ []) m i is ('-' :: ' ' :: (value ++ (indentation n' ++
      rest')))).roll m.column ts.length .blockSequenceStart = _ := roll_of_lt hk _
  rw [List.append_nil] at hroll
  obtain ⟨m₁, hcolumn₁, hentry⟩ := exists_reaches_entry ts is (value ++ (indentation n' ++ rest'))
    (Int.le_of_lt hk) hroll
  obtain ⟨m₂, hcolumn₂, hfound⟩ := hvalue _ m₁ (i :: is) n' rest' hcolumn₁ hbelow'
  obtain ⟨m₃, hcolumn₃, hrest⟩ := hnext _ m₂ (i :: is) hcolumn₂
  have hshallow : rest = [] ∨ (m₃.column : Int) < m.column := hdeep.imp_right (by omega)
  refine ⟨m₃, hcolumn₃, ?_⟩
  have hreaches := hentry.trans (hfound.trans (hrest.trans
    (reaches_pop hbelow.settled (by omega) hshallow)))
  rw [hwhole]
  simpa using hreaches

theorem Below.deeper (h : Below c n rest) (hk : c < k) : Below k n rest :=
  ⟨Nat.le_trans h.column (Nat.le_of_lt hk), h.settled⟩

theorem settled_append (h : Settled text) (hne : text ≠ []) (rest : List Char) :
    Settled (text ++ rest) := by
  obtain ⟨x, text, rfl⟩ := List.exists_cons_of_ne_nil hne
  exact h

/-- A collection is opened on the line behind the name of its field. -/
theorem Opens.passes (h : Opens (c + 2) text new) (hne : text ≠ []) (hsettled : Settled text) :
    Passes false c ('\n' :: (indentation (c + 2) ++ text)) new := by
  intro ts m is n rest _ hbelow
  have hcolumn := hbelow.column
  obtain ⟨m₁, hcolumn₁, hline⟩ := exists_reaches_line m (c + 2)
    (settled_append hsettled hne (indentation n ++ rest))
  obtain ⟨m₂, hcolumn₂, hfound⟩ := h ts m₁ c is n rest hcolumn₁ (by omega) (by omega)
    (hbelow.deeper (by omega)) (.inr (by omega))
  refine ⟨m₂, hcolumn₂, ?_⟩
  rw [List.cons_append, List.append_assoc]
  refine (hline ?_).trans hfound
  nofun

/-- A collection is opened on the line of its dash. -/
theorem Opens.passesItem (h : Opens (c + 2) text new) (hne : text ≠ []) (hsettled : Settled text) :
    PassesItem c (' ' :: text) new := by
  intro ts m is n rest hcolumn hbelow
  have hcolumn' := hbelow.column
  obtain ⟨m₁, hcolumn₁, hspace⟩ := exists_reaches_space m
    (settled_append hsettled hne (indentation n ++ rest))
  obtain ⟨m₂, hcolumn₂, hfound⟩ := h ts m₁ c is n rest (by omega) (by omega) (by omega)
    (hbelow.deeper (by omega)) (.inr (by omega))
  exact ⟨m₂, hcolumn₂, hspace.trans hfound⟩

/-- Items follow the name of their field in its column. -/
theorem Continues.passes (h : Continues c text new) : Passes false c ('\n' :: text) new := by
  intro ts m is n rest _ hbelow
  obtain ⟨n', rest', htext, hbelow', hnext⟩ := h n rest hbelow
  obtain ⟨m₁, hcolumn₁, hline⟩ := exists_reaches_line m n' hbelow'.settled
  obtain ⟨m₂, hcolumn₂, hfound⟩ := hnext ts m₁ is hcolumn₁
  refine ⟨m₂, hcolumn₂, ?_⟩
  rw [List.cons_append, htext]
  refine (hline ?_).trans hfound
  nofun

/-- The tokens of a text that opens a collection in the first column. -/
theorem Opens.scan? (h : Opens 0 text new) {fuel : Nat} (hfuel : text.length < fuel) :
    Scanner.scan? fuel { rest := text } = some new.toArray := by
  obtain ⟨m, -, hreaches⟩ := h [] {} (-1) [] 0 [] rfl (Int.le_refl _) (by decide)
    ⟨Nat.le_refl _, by simp [Settled]⟩ (.inl rfl)
  rw [List.append_nil, indentation, List.replicate_zero, List.append_nil] at hreaches
  obtain ⟨fuel', hfuel', hscan⟩ := hreaches fuel hfuel
  exact hscan.trans (scan?_inBlock_end hfuel')

end Conformance.Yaml

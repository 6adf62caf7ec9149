import Conformance.Proofs.Json.Grammar
import Conformance.Proofs.Number.Digits
import Conformance.Proofs.Text.Utf8

/-!
# Texts that read as a value

`Reads cs x` says that the reader takes exactly `cs` for the value `x`, whatever
follows that could not go on with a number, as long as the text has no stray
character; `Body` says the same of what stands between the marks of an array or
an object. Every text of a value reads as the value (`Spells.reads`). The proof
follows the grammar: one lemma for each kind of token, then the parts of a value
with blanks wherever the reader passes over them.
-/

namespace Conformance.Json

variable {isStray : Char → Bool} {cs cs' rest ws ws' : List Char} {fuel : Nat}

section Strings

variable {e : Element} {es : List Element} {s : Option String} {n : Nat}

theorem hexValue?_of_hexDigit {c : Char} (h : HexDigit n c) : hexValue? c = some n := by
  have hdigits : ∀ n < 16, hexValue? (Nat.digitChar n) = some n ∧
      hexValue? (Nat.digitChar n).toUpper = some n := by decide
  obtain ⟨hn, rfl | rfl⟩ := h
  · exact (hdigits n hn).1
  · exact (hdigits n hn).2

theorem shortEscape?_of_mem {c d : Char} (h : (c, d) ∈ shortEscapes) :
    shortEscape? c = some d ∧ c ≠ 'u' := by
  have hall : ∀ p ∈ shortEscapes, shortEscape? p.1 = some p.2 ∧ p.1 ≠ 'u' := by decide
  exact hall _ h

theorem ElementText.elements? (h : ElementText e cs) (hstray : ∀ c ∈ cs, isStray c = false)
    (cs' : List Char) :
    elements? isStray (cs ++ cs') =
      (elements? isStray cs').bind fun (es, rest) => some (e :: es, rest) := by
  cases h with
  | plain hcontrol hquote hslash =>
      have hplain := hstray _ List.mem_cons_self
      -- a plain character is read only where neither a quote nor an escape begins
      rw [List.singleton_append, elements?.eq_5]
      · simp [Nat.not_lt.2 hcontrol, hslash, hplain]
      · exact hquote
      · exact fun _ _ _ _ _ hc => absurd hc hslash
      · exact fun _ _ hc => absurd hc hslash
  | short h =>
      obtain ⟨hshort, hu⟩ := shortEscape?_of_mem h
      rw [List.cons_append, List.singleton_append, elements?.eq_4]
      · simp [hshort]
      · intro _ _ _ _ _ hu'
        exact absurd hu' hu
  | @unit n a b c d ha hb hc hd =>
      have hdigits : (n / 4096 * 16 + n / 256 % 16) * 256 + n / 16 % 16 * 16 + n % 16 = n := by
        omega
      have hhex : hex4? a b c d = some n := by
        rw [hex4?, hexValue?_of_hexDigit ha, hexValue?_of_hexDigit hb, hexValue?_of_hexDigit hc,
          hexValue?_of_hexDigit hd, ← hdigits]
        simp [hdigits]
      simp [Json.elements?, hhex]

theorem ElementsText.elements? (h : ElementsText es cs) (hstray : ∀ c ∈ cs, isStray c = false) :
    elements? isStray (cs ++ '"' :: rest) = some (es, rest) := by
  induction h with
  | nil => rfl
  | cons he hes ih =>
      obtain ⟨hfirst, hlater⟩ := List.forall_mem_append.1 hstray
      rw [List.append_assoc, he.elements? hfirst, ih hlater, Option.bind_some]

theorem ElementsText.unit_lt (h : ElementsText es cs) (hn : .unit n ∈ es) : n < 0x10000 := by
  induction h with
  | nil => cases hn
  | cons he hes ih =>
      rcases List.mem_cons.1 hn with rfl | hn
      · cases he with
        | unit ha hb hc hd =>
            have hlt := ha.1
            omega
      · exact ih hn

theorem toNat_not_surrogate (c : Char) :
    isHigh c.toNat = false ∧ isLow c.toNat = false := by
  have hvalid : c.toNat < 0xD800 ∨ 0xDFFF < c.toNat ∧ c.toNat < 0x110000 := c.valid
  constructor
  · simp [isHigh]
    omega
  · simp [isLow]
    omega

theorem assemble?_unit (hhigh : isHigh n = false) (hlow : isLow n = false) (es : List Element) :
    assemble? (.unit n :: es) = (assemble? es).map (Char.ofNat n :: ·) := by
  rw [assemble?.eq_def]
  simp [hhigh, hlow]

theorem assemble?_pair {m : Nat} (hhigh : isHigh n = true) (hlow : isLow m = true)
    (es : List Element) :
    assemble? (.unit n :: .unit m :: es) =
      (assemble? es).map (Char.ofNat (0x10000 + (n - 0xD800) * 1024 + (m - 0xDC00)) :: ·) := by
  rw [assemble?.eq_def]
  simp [hhigh, hlow]

/-- What elements denote is put together by the reader. -/
theorem Denotes.assemble? (h : Denotes es cs) : assemble? es = some cs := by
  induction h with
  | nil => rfl
  | char h ih => rw [Json.assemble?, ih, Option.map_some]
  | @unit c es cs hc h ih =>
      obtain ⟨hhigh, hlow⟩ := toNat_not_surrogate c
      rw [assemble?_unit hhigh hlow, ih, Char.ofNat_toNat, Option.map_some]
  | @pair c es cs hc h ih =>
      have hvalid : c.toNat < 0xD800 ∨ 0xDFFF < c.toNat ∧ c.toNat < 0x110000 := c.valid
      have hhigh : isHigh (0xD800 + (c.toNat - 0x10000) / 1024) = true := by
        simp [isHigh]
        omega
      have hlow : isLow (0xDC00 + (c.toNat - 0x10000) % 1024) = true := by
        simp [isLow]
        omega
      have hcode : 0x10000 + (0xD800 + (c.toNat - 0x10000) / 1024 - 0xD800) * 1024 +
          (0xDC00 + (c.toNat - 0x10000) % 1024 - 0xDC00) = c.toNat := by omega
      rw [assemble?_pair hhigh hlow, ih, hcode, Char.ofNat_toNat, Option.map_some]

theorem denotes_of_assemble? (hunits : ∀ n, .unit n ∈ es → n < 0x10000)
    (h : assemble? es = some cs) : Denotes es cs := by
  fun_induction assemble? es generalizing cs with
  | case1 =>
      cases h
      exact .nil
  | case2 c es ih =>
      obtain ⟨cs, hes, rfl⟩ := Option.map_eq_some_iff.1 h
      exact .char (ih (fun n hn => hunits n (List.mem_cons_of_mem _ hn)) hes)
  | case3 => cases h
  | case4 n hhigh m es hlow ih =>
      obtain ⟨cs, hes, rfl⟩ := Option.map_eq_some_iff.1 h
      have hdenotes := ih (fun n hn => hunits n (by simp [hn])) hes
      obtain ⟨c, hc⟩ : ∃ c, c = Char.ofNat (0x10000 + (n - 0xD800) * 1024 + (m - 0xDC00)) :=
        ⟨_, rfl⟩
      simp only [isHigh, isLow, Bool.and_eq_true, decide_eq_true_eq] at hhigh hlow
      have hcode : c.toNat = 0x10000 + (n - 0xD800) * 1024 + (m - 0xDC00) := by
        rw [hc, Utf8.toNat_charOfNat (.inr ⟨by omega, by omega⟩)]
      have hn : 0xD800 + (c.toNat - 0x10000) / 1024 = n := by omega
      have hm : 0xDC00 + (c.toNat - 0x10000) % 1024 = m := by omega
      have hpair := Denotes.pair (c := c) (by omega) hdenotes
      rwa [hn, hm, hc] at hpair
  | case5 => cases h
  | case6 => cases h
  | case7 => cases h
  | case8 n es hhigh hlow ih =>
      obtain ⟨cs, hes, rfl⟩ := Option.map_eq_some_iff.1 h
      have hlt : n < 0x10000 := hunits n List.mem_cons_self
      have hdenotes := ih (fun n hn => hunits n (List.mem_cons_of_mem _ hn)) hes
      simp only [isHigh, isLow, Bool.and_eq_true, decide_eq_true_eq] at hhigh hlow
      have hvalid : n.isValidChar := by
        simp only [Nat.isValidChar]
        omega
      have hcode : (Char.ofNat n).toNat = n := Utf8.toNat_charOfNat hvalid
      have hunit := Denotes.unit (c := Char.ofNat n) (by omega) hdenotes
      rwa [hcode] at hunit

/-- Written elements denote the text that the reader puts together. -/
theorem ElementsText.denotes_iff (h : ElementsText es cs) (text : String) :
    (Json.assemble? es).map String.ofList = some text ↔ Denotes es text.toList := by
  rw [Option.map_eq_some_iff]
  constructor
  · rintro ⟨chars, hchars, rfl⟩
    rw [String.toList_ofList]
    exact denotes_of_assemble? (fun n => h.unit_lt) hchars
  · intro htext
    exact ⟨text.toList, htext.assemble?, String.ofList_toList⟩

theorem ElementsText.stringText (h : ElementsText es cs) :
    StringText ((Json.assemble? es).map String.ofList) ('"' :: (cs ++ ['"'])) :=
  ⟨es, cs, h, rfl, h.denotes_iff⟩

theorem StringText.of_denotes {s : String} (htext : ElementsText es cs)
    (hs : Denotes es s.toList) : StringText (some s) ('"' :: (cs ++ ['"'])) := by
  have hstring := htext.stringText
  rwa [hs.assemble?, Option.map_some, String.ofList_toList] at hstring

theorem StringText.string? (h : StringText s cs) (rest : List Char)
    (hstray : ∀ c ∈ cs, isStray c = false) :
    ∃ tail, cs ++ rest = '"' :: tail ∧ string? isStray tail = some (s, rest) := by
  obtain ⟨es, body, hbody, rfl, hs⟩ := h
  have hread : Json.elements? isStray (body ++ '"' :: rest) = some (es, rest) :=
    hbody.elements? fun c hc => hstray c (by simp [hc])
  have hvalue : (Json.assemble? es).map String.ofList = s :=
    Option.ext fun text => (hbody.denotes_iff text).trans (hs text).symm
  refine ⟨_, by rw [List.cons_append, List.append_assoc, List.singleton_append], ?_⟩
  rw [Json.string?, hread, Option.map_some]
  simp only [hvalue]

theorem hexDigit_ne_nul {c : Char} (h : HexDigit n c) : c ≠ '\x00' := by
  rintro rfl
  have hnone := hexValue?_of_hexDigit h
  cases hnone

theorem ElementText.nul_notMem (h : ElementText e cs) : '\x00' ∉ cs := by
  cases h with
  | plain hcontrol _ _ =>
      rw [List.mem_singleton]
      rintro rfl
      exact absurd hcontrol (by decide)
  | short h =>
      have hall : ∀ p ∈ shortEscapes, p.1 ≠ '\x00' := by decide
      simp [(hall _ h).symm]
  | unit ha hb hc hd =>
      simp [(hexDigit_ne_nul ha).symm, (hexDigit_ne_nul hb).symm, (hexDigit_ne_nul hc).symm,
        (hexDigit_ne_nul hd).symm]

theorem ElementsText.nul_notMem (h : ElementsText es cs) : '\x00' ∉ cs := by
  induction h with
  | nil => simp
  | cons he hes ih => simp [he.nul_notMem, ih]

theorem StringText.nul_notMem (h : StringText s cs) : '\x00' ∉ cs := by
  obtain ⟨es, body, hbody, rfl, -⟩ := h
  simp [hbody.nul_notMem]

end Strings

/-- What follows a value could not go on with it. -/
def Ends (rest : List Char) : Prop :=
  ∀ c ∈ rest.head?, Decimal.isDigit c = false ∧ c ≠ '.' ∧ c ≠ 'e' ∧ c ≠ 'E'

theorem ends_nil : Ends [] := nofun

theorem ends_cons {c : Char} :
    Ends (c :: rest) ↔ Decimal.isDigit c = false ∧ c ≠ '.' ∧ c ≠ 'e' ∧ c ≠ 'E' := by
  simp [Ends]

theorem Ends.stops (h : Ends rest) : Decimal.Stops rest := fun c hc => (h c hc).1

theorem Ends.exponent? (h : Ends rest) : exponent? rest = some (false, rest) := by
  cases rest with
  | nil => rfl
  | cons c rest =>
      obtain ⟨-, -, hlower, hupper⟩ := ends_cons.1 h
      simp [Json.exponent?, hlower, hupper]

section Numbers

variable {ds : List Char}

theorem Digits.digits? (h : Digits ds) (hrest : Decimal.Stops rest) :
    digits? (ds ++ rest) = some (ds, rest) := by
  obtain ⟨htake, hdrop⟩ := Decimal.span_digits h.2 hrest
  rw [Json.digits?, htake, hdrop]
  split
  next => exact absurd rfl h.1
  next => rfl

theorem Digits.wholeDigits? (h : Digits ds) (hzero : ∀ c tail, ds ≠ '0' :: c :: tail)
    (hrest : Decimal.Stops rest) : wholeDigits? (ds ++ rest) = some (ds, rest) := by
  rw [Json.wholeDigits?, h.digits? hrest]
  split
  next heq =>
      simp only [Option.some.injEq, Prod.mk.injEq] at heq
      exact absurd heq.1 (hzero _ _)
  next => rfl

/-- A fraction has ended where an exponent begins. -/
theorem ExponentText.follows (h : ExponentText cs) (hrest : Ends rest) :
    ∀ c ∈ (cs ++ rest).head?, Decimal.isDigit c = false ∧ c ≠ '.' := by
  intro c hc
  cases h with
  | absent => exact ⟨(hrest c hc).1, (hrest c hc).2.1⟩
  | present hmark _ _ =>
      cases hc
      rcases hmark with rfl | rfl <;> decide

theorem ExponentText.exponent? (h : ExponentText cs) (hrest : Ends rest) :
    exponent? (cs ++ rest) = some (!cs.isEmpty, rest) := by
  cases h with
  | absent => exact hrest.exponent?
  | @present mark sign ds hmark hsign hds =>
      have hread := hds.digits? hrest.stops
      obtain ⟨d, tail, hd⟩ := List.exists_cons_of_ne_nil hds.1
      have hdigit : Decimal.isDigit d = true := hds.2 d (hd ▸ List.mem_cons_self)
      have hplus : d ≠ '+' := by rintro rfl; cases hdigit
      have hminus : d ≠ '-' := by rintro rfl; cases hdigit
      rw [hd, List.cons_append] at hread
      rcases hsign with rfl | rfl | rfl <;>
        simp [Json.exponent?, hmark, hd, hplus, hminus, hread]

/-- A fraction is read up to what could not go on with it. -/
theorem FractionText.fraction? (h : FractionText cs)
    (hrest : ∀ c ∈ rest.head?, Decimal.isDigit c = false ∧ c ≠ '.') :
    fraction? (cs ++ rest) = some (!cs.isEmpty, rest) := by
  cases h with
  | absent =>
      rw [List.nil_append, Json.fraction?.eq_def]
      split
      next => exact absurd rfl (hrest '.' rfl).2
      next => rfl
  | present hds =>
      rw [List.cons_append, Json.fraction?, hds.digits? fun c hc => (hrest c hc).1]
      rfl

theorem FractionText.stops (h : FractionText cs)
    (hrest : ∀ c ∈ rest.head?, Decimal.isDigit c = false ∧ c ≠ '.') :
    Decimal.Stops (cs ++ rest) := by
  cases h with
  | absent => exact fun c hc => (hrest c hc).1
  | present _ => exact Decimal.stops_cons.2 rfl

theorem number?_of_digit {c : Char} (h : Decimal.isDigit c = true) :
    number? (c :: cs) = do
      let (digits, cs) ← wholeDigits? (c :: cs)
      let (hasFraction, cs) ← fraction? cs
      let (hasExponent, cs) ← exponent? cs
      return (⟨false, digits, !hasFraction && !hasExponent⟩, cs) := by
  rw [number?]
  intro r heq
  cases heq
  cases h

/-- A number is read up to what could not go on with it. -/
theorem NumberText.number? (n : NumberText) (h : Ends rest) :
    number? (n.text ++ rest) = some (n.number, rest) := by
  have hexponent := n.exponent_ok.exponent? h
  have hfollows := n.exponent_ok.follows h
  have hfraction := n.fraction_ok.fraction? hfollows
  have hwhole := n.digits_whole.wholeDigits? n.no_leading_zero (n.fraction_ok.stops hfollows)
  rw [text, number, List.append_assoc, List.append_assoc, List.append_assoc]
  cases n.negative with
  | true => simp [Json.number?, hwhole, hfraction, hexponent]
  | false =>
      obtain ⟨c, tail, hc⟩ := List.exists_cons_of_ne_nil n.digits_whole.1
      have hdigit : Decimal.isDigit c = true := n.digits_whole.2 c (hc ▸ List.mem_cons_self)
      rw [hc, List.cons_append] at hwhole
      simp [hc, number?_of_digit hdigit, hwhole, hfraction, hexponent]

end Numbers

theorem skipBlanks_cons {c : Char} (h : isBlank c = false) : skipBlanks (c :: cs) = c :: cs := by
  simp [skipBlanks, h]

theorem skipBlanks_skipBlanks (cs : List Char) : skipBlanks (skipBlanks cs) = skipBlanks cs := by
  induction cs with
  | nil => rfl
  | cons c cs ih =>
      by_cases hc : isBlank c = true
      · have hskip : skipBlanks (c :: cs) = skipBlanks cs := by simp [skipBlanks, hc]
        rw [hskip, ih]
      · rw [skipBlanks_cons (Bool.not_eq_true _ ▸ hc), skipBlanks_cons (Bool.not_eq_true _ ▸ hc)]

theorem value?_skipBlanks : value? isStray fuel (skipBlanks cs) = value? isStray fuel cs := by
  cases fuel with
  | zero => rfl
  | succ fuel => simp only [value?, skipBlanks_skipBlanks]

theorem items?_skipBlanks : items? isStray fuel (skipBlanks cs) = items? isStray fuel cs := by
  cases fuel with
  | zero => rfl
  | succ fuel => simp only [items?, value?_skipBlanks]

theorem members?_skipBlanks : members? isStray fuel (skipBlanks cs) = members? isStray fuel cs := by
  cases fuel with
  | zero => rfl
  | succ fuel => simp only [members?, skipBlanks_skipBlanks]

/-- The text is read as the value. -/
structure Reads (cs : List Char) (x : Json) : Prop where
  begins : ∃ c tail, cs = c :: tail ∧ isBlank c = false ∧ c ≠ ']'
  clean : '\x00' ∉ cs
  read : ∀ {isStray rest fuel}, (∀ c ∈ cs, isStray c = false) → Ends rest → cs.length ≤ fuel →
    value? isStray fuel (cs ++ rest) = some (x, rest)

/-- The text between an opening mark and the mark `close` is read as the parts of a value. -/
structure Body {α : Type} (close : Char)
    (reader? : (Char → Bool) → Nat → List Char → Option (α × List Char)) (cs : List Char) (a : α) :
    Prop where
  begins : ∃ c tail, skipBlanks cs = c :: tail ∧ c ≠ close
  clean : '\x00' ∉ cs
  read : ∀ {isStray rest fuel}, (∀ c ∈ cs, isStray c = false) → cs.length + 1 ≤ fuel →
    reader? isStray fuel (cs ++ close :: rest) = some (a, rest)

/-- A text that is not empty is read with some fuel. -/
theorem Reads.of_succ {x : Json} (begins : ∃ c tail, cs = c :: tail ∧ isBlank c = false ∧ c ≠ ']')
    (clean : '\x00' ∉ cs)
    (read : ∀ {isStray rest fuel}, (∀ c ∈ cs, isStray c = false) → Ends rest →
      cs.length ≤ fuel + 1 → value? isStray (fuel + 1) (cs ++ rest) = some (x, rest)) :
    Reads cs x where
  begins := begins
  clean := clean
  read := by
    intro isStray rest fuel hstray hrest hfuel
    cases fuel with
    | zero =>
        obtain ⟨c, tail, rfl, -, -⟩ := begins
        simp at hfuel
    | succ fuel => exact read hstray hrest hfuel

theorem StringText.reads {s : Option String} (h : StringText s cs) : Reads cs (.string s) := by
  obtain ⟨es, body, -, hcs, -⟩ := id h
  refine .of_succ ⟨_, _, hcs, rfl, by decide⟩ h.nul_notMem ?_
  intro isStray rest fuel hstray _ _
  obtain ⟨tail, htail, hread⟩ := h.string? rest hstray
  rw [htail]
  simp [value?, skipBlanks, isBlank, hread]

theorem reads_null : Reads "null".toList .null :=
  .of_succ ⟨_, _, rfl, rfl, by decide⟩ (by decide) fun _ _ _ => by
    simp [value?, skipBlanks, isBlank]

theorem reads_true : Reads "true".toList (.bool true) :=
  .of_succ ⟨_, _, rfl, rfl, by decide⟩ (by decide) fun _ _ _ => by
    simp [value?, skipBlanks, isBlank]

theorem reads_false : Reads "false".toList (.bool false) :=
  .of_succ ⟨_, _, rfl, rfl, by decide⟩ (by decide) fun _ _ _ => by
    simp [value?, skipBlanks, isBlank]

/-- A character that a whole number is written with. -/
def IsNumeral (c : Char) : Prop := c = '-' ∨ Decimal.isDigit c = true

theorem IsNumeral.ne {c d : Char} (h : IsNumeral c) (hd : ¬ IsNumeral d) : c ≠ d := by
  rintro rfl
  exact hd h

instance (c : Char) : Decidable (IsNumeral c) := inferInstanceAs (Decidable (_ ∨ _))

theorem IsNumeral.isBlank {c : Char} (h : IsNumeral c) : isBlank c = false := by
  have hspace := h.ne (d := ' ') (by decide)
  have hnewline := h.ne (d := '\n') (by decide)
  have htab := h.ne (d := '\t') (by decide)
  have hreturn := h.ne (d := '\r') (by decide)
  simp [Json.isBlank, hspace, hnewline, htab, hreturn]

theorem value?_of_isNumeral {c : Char} (h : IsNumeral c) :
    value? isStray (fuel + 1) (c :: cs) =
      (number? (c :: cs)).map fun (n, rest) => (.number n, rest) := by
  rw [value?, skipBlanks_cons h.isBlank]
  split
  all_goals first
    | rfl
    | rename_i heq
      cases heq
      exact absurd h (by decide)

theorem Digits.isNumeral {ds : List Char} (h : Digits ds) {c : Char} (hc : c ∈ ds) : IsNumeral c :=
  .inr (h.2 c hc)

theorem NumberText.begins (n : NumberText) : ∃ c tail, n.text = c :: tail ∧ IsNumeral c := by
  obtain ⟨c, tail, hc⟩ := List.exists_cons_of_ne_nil n.digits_whole.1
  rw [text, hc]
  cases n.negative with
  | true => exact ⟨_, _, rfl, .inl rfl⟩
  | false => exact ⟨_, _, rfl, n.digits_whole.isNumeral (hc ▸ List.mem_cons_self)⟩

theorem Digits.nul_notMem {ds : List Char} (h : Digits ds) : '\x00' ∉ ds :=
  fun hnul => absurd (h.2 _ hnul) (by decide)

theorem FractionText.nul_notMem (h : FractionText cs) : '\x00' ∉ cs := by
  cases h with
  | absent => simp
  | present hds => simp [hds.nul_notMem]

theorem ExponentText.nul_notMem (h : ExponentText cs) : '\x00' ∉ cs := by
  cases h with
  | absent => simp
  | present hmark hsign hds =>
      rcases hmark with rfl | rfl <;> rcases hsign with rfl | rfl | rfl <;> simp [hds.nul_notMem]

theorem NumberText.nul_notMem (n : NumberText) : '\x00' ∉ n.text := by
  have hsign : '\x00' ∉ if n.negative then ['-'] else [] := by
    split <;> decide
  simp [text, hsign, n.digits_whole.nul_notMem, n.fraction_ok.nul_notMem, n.exponent_ok.nul_notMem]

theorem NumberText.reads (n : NumberText) : Reads n.text (.number n.number) := by
  obtain ⟨c, tail, hcs, hc⟩ := n.begins
  refine .of_succ ⟨c, tail, hcs, hc.isBlank, hc.ne (by decide)⟩ n.nul_notMem ?_
  intro isStray rest fuel _ hrest _
  have hread := n.number? hrest
  rw [hcs, List.cons_append] at hread ⊢
  rw [value?_of_isNumeral hc, hread, Option.map_some]

theorem Blanks.skip (h : Blanks ws) (cs : List Char) : skipBlanks (ws ++ cs) = skipBlanks cs :=
  List.dropWhile_append_of_pos h

theorem ends_of_isBlank {c : Char} (h : isBlank c = true) : Ends (c :: rest) := by
  simp only [isBlank, Bool.or_eq_true, beq_iff_eq] at h
  rw [ends_cons]
  rcases h with ((rfl | rfl) | rfl) | rfl <;> decide

theorem Blanks.ends (h : Blanks ws) (hrest : Ends rest) : Ends (ws ++ rest) := by
  cases ws with
  | nil => exact hrest
  | cons c ws => exact ends_of_isBlank (h c List.mem_cons_self)

theorem Blanks.nul_notMem (h : Blanks ws) : '\x00' ∉ ws := by
  intro hnul
  exact absurd (h _ hnul) (by decide)

theorem Blanks.value? (h : Blanks ws) :
    value? isStray fuel (ws ++ cs) = Json.value? isStray fuel cs := by
  rw [← value?_skipBlanks, h.skip, value?_skipBlanks]

theorem Reads.skipBlanks_eq {x : Json} (h : Reads cs x) : skipBlanks (cs ++ rest) = cs ++ rest := by
  obtain ⟨c, tail, rfl, hblank, -⟩ := h.begins
  exact skipBlanks_cons hblank

theorem Reads.begins_append {x : Json} (h : Reads cs x) (hws : Blanks ws) :
    ∃ c tail, skipBlanks (ws ++ (cs ++ rest)) = c :: tail ∧ c ≠ ']' := by
  obtain ⟨c, tail, rfl, hblank, hc⟩ := h.begins
  exact ⟨c, tail ++ rest, by rw [hws.skip, h.skipBlanks_eq, List.cons_append], hc⟩

theorem Reads.value?_append {x : Json} (h : Reads cs x) (hws : Blanks ws)
    (hstray : ∀ c ∈ cs, isStray c = false) (hrest : Ends rest) (hfuel : cs.length ≤ fuel) :
    value? isStray fuel (ws ++ (cs ++ rest)) = some (x, rest) := by
  rw [hws.value?, h.read hstray hrest hfuel]

theorem skipBlanks_append_of_cons {c : Char} {tail : List Char} (h : skipBlanks cs = c :: tail) :
    skipBlanks (cs ++ rest) = c :: (tail ++ rest) := by
  rw [skipBlanks] at h
  simp [skipBlanks, List.dropWhile_append, h]

theorem body_item {x : Json} (h : Reads cs x) (hws : Blanks ws) (hws' : Blanks ws') :
    Body ']' items? (ws ++ (cs ++ ws')) [x] where
  begins := h.begins_append hws
  clean := by simp [hws.nul_notMem, h.clean, hws'.nul_notMem]
  read := by
    intro isStray rest fuel hstray hfuel
    obtain ⟨fuel, rfl⟩ := Nat.exists_eq_add_of_le' (Nat.le_trans (Nat.le_add_left 1 _) hfuel)
    have hends : Ends (ws' ++ ']' :: rest) := hws'.ends (ends_cons.2 (by decide))
    have hclose : skipBlanks (ws' ++ ']' :: rest) = ']' :: rest := hws'.skip _
    simp only [List.length_append] at hfuel
    rw [List.append_assoc, List.append_assoc, items?,
      h.value?_append hws (fun c hc => hstray c (by simp [hc])) hends (by omega)]
    simp only [hclose]

theorem Body.cons_item {x : Json} {xs : List Json} (h : Reads cs x) (hws : Blanks ws)
    (hws' : Blanks ws') (hbody : Body ']' items? cs' xs) :
    Body ']' items? (ws ++ (cs ++ (ws' ++ ',' :: cs'))) (x :: xs) where
  begins := h.begins_append hws
  clean := by simp [hws.nul_notMem, h.clean, hws'.nul_notMem, hbody.clean]
  read := by
    intro isStray rest fuel hstray hfuel
    obtain ⟨fuel, rfl⟩ := Nat.exists_eq_add_of_le' (Nat.le_trans (Nat.le_add_left 1 _) hfuel)
    have hends : Ends (ws' ++ ',' :: (cs' ++ ']' :: rest)) := hws'.ends (ends_cons.2 (by decide))
    have hcomma : skipBlanks (ws' ++ ',' :: (cs' ++ ']' :: rest)) = ',' :: (cs' ++ ']' :: rest) :=
      hws'.skip _
    simp only [List.length_append, List.length_cons] at hfuel
    rw [List.append_assoc, List.append_assoc, List.append_assoc, List.cons_append, items?,
      h.value?_append hws (fun c hc => hstray c (by simp [hc])) hends (by omega)]
    simp only [hcomma]
    rw [hbody.read (fun c hc => hstray c (by simp [hc])) (by omega), Option.map_some]

theorem Body.reads_array {xs : List Json} (h : Body ']' items? cs xs) :
    Reads ('[' :: (cs ++ [']'])) (.array xs) := by
  refine .of_succ ⟨_, _, rfl, rfl, by decide⟩ (by simp [h.clean]) ?_
  intro isStray rest fuel hstray hrest hfuel
  simp only [List.length_cons, List.length_append, List.length_nil] at hfuel
  obtain ⟨c, tail, hskip, hc⟩ := h.begins
  have hbegin : skipBlanks (cs ++ ']' :: rest) = c :: (tail ++ ']' :: rest) :=
    skipBlanks_append_of_cons hskip
  rw [List.cons_append, List.append_assoc, List.singleton_append, value?, skipBlanks_cons rfl]
  simp only
  rw [hbegin]
  split
  next heq =>
      cases heq
      exact absurd rfl hc
  next =>
      rw [← hbegin, items?_skipBlanks, h.read (fun c hc => hstray c (by simp [hc])) (by omega),
        Option.map_some]

theorem Separated.body_items {items : List (Json × List Char)} (h : Separated Prod.snd items cs)
    (hitems : ∀ i ∈ items, Reads i.2 i.1) : Body ']' items? cs (items.map Prod.fst) := by
  induction h with
  | single hws hws' => exact body_item (hitems _ List.mem_cons_self) hws hws'
  | cons hws hws' _ ih =>
      obtain ⟨hitem, hlater⟩ := List.forall_mem_cons.1 hitems
      exact Body.cons_item hitem hws hws' (ih hlater)

theorem reads_array_nil (hws : Blanks ws) : Reads ('[' :: (ws ++ [']'])) (.array []) := by
  refine .of_succ ⟨_, _, rfl, rfl, by decide⟩ (by simp [hws.nul_notMem]) ?_
  intro isStray rest fuel _ _ _
  have hclose : skipBlanks (ws ++ ']' :: rest) = ']' :: rest := hws.skip _
  rw [List.cons_append, List.append_assoc, List.singleton_append, value?, skipBlanks_cons rfl]
  simp only [hclose]

theorem Enclosed.reads_array {items : List (Json × List Char)}
    (h : Enclosed Prod.snd '[' ']' items cs) (hitems : ∀ i ∈ items, Reads i.2 i.1) :
    Reads cs (.array (items.map Prod.fst)) := by
  cases h with
  | nil hws => exact reads_array_nil hws
  | parts h => exact (h.body_items hitems).reads_array

section Members

variable {m : MemberText} {members : List MemberText}

theorem MemberText.begins (m : MemberText) (hws : Blanks ws) :
    ∃ c tail, skipBlanks (ws ++ (m.text ++ rest)) = c :: tail ∧ c ≠ '}' := by
  obtain ⟨es, body, -, hname, -⟩ := m.name_ok
  rw [hws.skip, text, hname]
  exact ⟨_, _, rfl, by decide⟩

theorem MemberText.nul_notMem (h : Reads m.valueText m.value) : '\x00' ∉ m.text := by
  simp [text, m.name_ok.nul_notMem, m.blanks_before.nul_notMem, m.blanks_after.nul_notMem, h.clean]

/-- What stands behind one member decides how to go on. -/
theorem MemberText.members? (h : Reads m.valueText m.value) (hws : Blanks ws)
    (hstray : ∀ c ∈ m.text, isStray c = false) (hrest : Ends rest)
    (hfuel : m.valueText.length ≤ fuel) :
    (∀ r, skipBlanks rest = '}' :: r →
      members? isStray (fuel + 1) (ws ++ (m.text ++ rest)) = some ([(m.name, m.value)], r)) ∧
    ∀ r, skipBlanks rest = ',' :: r →
      members? isStray (fuel + 1) (ws ++ (m.text ++ rest)) =
        (members? isStray fuel r).map fun (ms, rest) => ((m.name, m.value) :: ms, rest) := by
  have hvalue := h.value?_append m.blanks_after (fun c hc => hstray c (by simp [text, hc])) hrest
    hfuel
  obtain ⟨tail, htail, hname⟩ :=
    m.name_ok.string? (m.before ++ ':' :: (m.after ++ (m.valueText ++ rest)))
      fun c hc => hstray c (by simp [text, hc])
  have htext : m.text ++ rest = '"' :: tail := by
    rw [← htail]
    simp [text]
  have hcolon : skipBlanks (m.before ++ ':' :: (m.after ++ (m.valueText ++ rest))) =
      ':' :: (m.after ++ (m.valueText ++ rest)) := m.blanks_before.skip _
  have hopen : skipBlanks (ws ++ '"' :: tail) = '"' :: tail := hws.skip _
  rw [htext, Json.members?]
  refine ⟨fun r hr => ?_, fun r hr => ?_⟩
  · simp only [hopen, hname, hcolon, hvalue, hr]
  · simp only [hopen, hname, hcolon, hvalue, hr]

theorem length_valueText_lt (m : MemberText) : m.valueText.length < m.text.length := by
  simp only [MemberText.text, List.length_append, List.length_cons]
  omega

theorem body_member (h : Reads m.valueText m.value) (hws : Blanks ws) (hws' : Blanks ws') :
    Body '}' members? (ws ++ (m.text ++ ws')) [(m.name, m.value)] where
  begins := m.begins hws
  clean := by simp [hws.nul_notMem, m.nul_notMem h, hws'.nul_notMem]
  read := by
    intro isStray rest fuel hstray hfuel
    obtain ⟨fuel, rfl⟩ := Nat.exists_eq_add_of_le' (Nat.le_trans (Nat.le_add_left 1 _) hfuel)
    have hends : Ends (ws' ++ '}' :: rest) := hws'.ends (ends_cons.2 (by decide))
    have hclose : skipBlanks (ws' ++ '}' :: rest) = '}' :: rest := hws'.skip _
    have hlength := length_valueText_lt m
    simp only [List.length_append] at hfuel
    rw [List.append_assoc, List.append_assoc]
    exact (MemberText.members? h hws (fun c hc => hstray c (by simp [hc])) hends
      (by omega)).1 rest hclose

theorem Body.cons_member {ms : List (Option String × Json)} (h : Reads m.valueText m.value)
    (hws : Blanks ws) (hws' : Blanks ws') (hbody : Body '}' members? cs' ms) :
    Body '}' members? (ws ++ (m.text ++ (ws' ++ ',' :: cs'))) ((m.name, m.value) :: ms) where
  begins := m.begins hws
  clean := by simp [hws.nul_notMem, m.nul_notMem h, hws'.nul_notMem, hbody.clean]
  read := by
    intro isStray rest fuel hstray hfuel
    obtain ⟨fuel, rfl⟩ := Nat.exists_eq_add_of_le' (Nat.le_trans (Nat.le_add_left 1 _) hfuel)
    have hends : Ends (ws' ++ ',' :: (cs' ++ '}' :: rest)) := hws'.ends (ends_cons.2 (by decide))
    have hcomma : skipBlanks (ws' ++ ',' :: (cs' ++ '}' :: rest)) = ',' :: (cs' ++ '}' :: rest) :=
      hws'.skip _
    have hlength := length_valueText_lt m
    simp only [List.length_append, List.length_cons] at hfuel
    rw [List.append_assoc, List.append_assoc, List.append_assoc, List.cons_append,
      (MemberText.members? h hws (fun c hc => hstray c (by simp [hc])) hends (by omega)).2 _
        hcomma,
      hbody.read (fun c hc => hstray c (by simp [hc])) (by omega), Option.map_some]

theorem Separated.body_members (h : Separated MemberText.text members cs)
    (hmembers : ∀ m ∈ members, Reads m.valueText m.value) :
    Body '}' members? cs (members.map fun m => (m.name, m.value)) := by
  induction h with
  | single hws hws' => exact body_member (hmembers _ List.mem_cons_self) hws hws'
  | cons hws hws' _ ih =>
      obtain ⟨hmember, hlater⟩ := List.forall_mem_cons.1 hmembers
      exact Body.cons_member hmember hws hws' (ih hlater)

theorem reads_object_nil (hws : Blanks ws) : Reads ('{' :: (ws ++ ['}'])) (.object []) := by
  refine .of_succ ⟨_, _, rfl, rfl, by decide⟩ (by simp [hws.nul_notMem]) ?_
  intro isStray rest fuel _ _ _
  have hclose : skipBlanks (ws ++ '}' :: rest) = '}' :: rest := hws.skip _
  rw [List.cons_append, List.append_assoc, List.singleton_append, value?, skipBlanks_cons rfl]
  simp only [hclose]

theorem Body.reads_object {ms : List (Option String × Json)} (h : Body '}' members? cs ms) :
    Reads ('{' :: (cs ++ ['}'])) (.object ms) := by
  refine .of_succ ⟨_, _, rfl, rfl, by decide⟩ (by simp [h.clean]) ?_
  intro isStray rest fuel hstray hrest hfuel
  simp only [List.length_cons, List.length_append, List.length_nil] at hfuel
  obtain ⟨c, tail, hskip, hc⟩ := h.begins
  have hbegin : skipBlanks (cs ++ '}' :: rest) = c :: (tail ++ '}' :: rest) :=
    skipBlanks_append_of_cons hskip
  rw [List.cons_append, List.append_assoc, List.singleton_append, value?, skipBlanks_cons rfl]
  simp only
  rw [hbegin]
  split
  next heq =>
      cases heq
      exact absurd rfl hc
  next =>
      rw [← hbegin, members?_skipBlanks, h.read (fun c hc => hstray c (by simp [hc])) (by omega),
        Option.map_some]

theorem Enclosed.reads_object (h : Enclosed MemberText.text '{' '}' members cs)
    (hmembers : ∀ m ∈ members, Reads m.valueText m.value) :
    Reads cs (.object (members.map fun m => (m.name, m.value))) := by
  cases h with
  | nil hws => exact reads_object_nil hws
  | parts h => exact (h.body_members hmembers).reads_object

end Members

/-- A text of a value is read as the value. -/
theorem Spells.reads {x : Json} (h : Spells x cs) : Reads cs x := by
  induction h with
  | null => exact reads_null
  | true => exact reads_true
  | false => exact reads_false
  | number n => exact n.reads
  | string h => exact h.reads
  | array _ h ih => exact h.reads_array ih
  | object _ h ih => exact h.reads_object ih

theorem Reads.readWith? {x : Json} (h : Reads cs x) (hstray : ∀ c ∈ cs, isStray c = false) :
    readWith? isStray cs = some x := by
  have hread : value? isStray (2 * cs.length + 2) (cs ++ []) = some (x, []) :=
    h.read hstray ends_nil (by omega)
  rw [List.append_nil] at hread
  rw [Json.readWith?, hread]
  rfl

theorem Writes.read? {text : String} {x : Json} (h : Writes text x) : read? text = some x := by
  obtain ⟨ws, cs, ws', hws, hws', hspells, htext⟩ := h
  have hends : Ends ws' := by simpa using hws'.ends ends_nil
  have hskip : skipBlanks ws' = [] := by simpa [skipBlanks] using hws'.skip []
  have hread :
      value? (fun _ => false) (2 * text.toList.length + 2) text.toList = some (x, ws') := by
    rw [htext]
    refine hspells.reads.value?_append hws (fun _ _ => rfl) hends ?_
    simp only [List.length_append]
    omega
  rw [Json.read?, Json.readWith?, hread]
  simp [hskip]

end Conformance.Json

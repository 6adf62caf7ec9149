import Conformance.Proofs.Json.Reading
import Mathlib.Tactic.SplitIfs

/-!
# The texts that are read

The reader takes nothing but texts of values: what it has passed over when it
gives a value is a text of the value (`sound`, by induction on the depth, for
values, items and members at once). With the other direction, that every text of
a value is read, the texts that are read are known exactly (`read?_eq_some_iff`).
-/

namespace Conformance.Json

variable {isStray : Char → Bool} {cs rest : List Char} {es : List Element}

theorem hexDigit_of_hexValue? {n : Nat} {c : Char} (h : hexValue? c = some n) : HexDigit n c := by
  -- the digits are among the first 128 characters, and so few can be tried
  have hall : ∀ k < 128, ∀ m ∈ hexValue? (Char.ofNat k), HexDigit m (Char.ofNat k) := by
    decide
  have hlt : c.toNat < 128 := by
    refine Nat.lt_of_not_le fun hge => ?_
    have hle {d : Char} (hd : d.toNat < 128) : ¬ c ≤ d := fun hcd =>
      absurd (show c.toNat ≤ d.toNat from hcd) (by omega)
    have hnone : hexValue? c = none := by
      simp [hexValue?, hle (d := '9') (by decide), hle (d := 'f') (by decide),
        hle (d := 'F') (by decide)]
    rw [hnone] at h
    cases h
  have hdigit := hall c.toNat hlt n
  rw [Char.ofNat_toNat] at hdigit
  exact hdigit h

theorem mem_shortEscapes {c d : Char} (h : shortEscape? c = some d) : (c, d) ∈ shortEscapes := by
  unfold shortEscape? at h
  split at h <;> cases h <;> decide

section Strings

variable (hclean : ∀ c, isStray c = false)

include hclean

theorem elementsText_of_elements? (h : elements? isStray cs = some (es, rest)) :
    ∃ body, ElementsText es body ∧ cs = body ++ '"' :: rest := by
  fun_induction elements? isStray cs generalizing es rest with
  | case1 => cases h
  | case2 r =>
      cases h
      exact ⟨[], .nil, rfl⟩
  | case3 a b c d r ih =>
      simp only [hex4?, Option.bind_eq_bind, Option.bind_eq_some_iff, Option.pure_def,
        Option.some.injEq, Prod.exists, Prod.mk.injEq] at h
      obtain ⟨n, ⟨na, ha, nb, hb, nc, hc, nd, hd, rfl⟩, es, r', hr, rfl, rfl⟩ := h
      obtain ⟨body, hbody, rfl⟩ := ih hr
      -- each digit is one of base sixteen, so the unit determines all four
      replace ha := hexDigit_of_hexValue? ha
      replace hb := hexDigit_of_hexValue? hb
      replace hc := hexDigit_of_hexValue? hc
      replace hd := hexDigit_of_hexValue? hd
      have hna := ha.1
      have hnb := hb.1
      have hnc := hc.1
      have hnd := hd.1
      refine ⟨_, .cons (.unit ?_ ?_ ?_ ?_) hbody, rfl⟩
      · rwa [show ((na * 16 + nb) * 256 + nc * 16 + nd) / 4096 = na by omega]
      · rwa [show ((na * 16 + nb) * 256 + nc * 16 + nd) / 256 % 16 = nb by omega]
      · rwa [show ((na * 16 + nb) * 256 + nc * 16 + nd) / 16 % 16 = nc by omega]
      · rwa [show ((na * 16 + nb) * 256 + nc * 16 + nd) % 16 = nd by omega]
  | case4 c r hne ih =>
      simp only [Option.bind_eq_bind, Option.bind_eq_some_iff, Option.pure_def, Option.some.injEq,
        Prod.exists, Prod.mk.injEq] at h
      obtain ⟨e, he, es, r', hr, rfl, rfl⟩ := h
      obtain ⟨body, hbody, rfl⟩ := ih hr
      exact ⟨_, .cons (.short (mem_shortEscapes he)) hbody, rfl⟩
  | case5 => cases h
  | case6 c r hquote _ _ hplain ih =>
      simp only [hclean, Bool.false_eq_true, if_false, Option.bind_eq_bind, Option.bind_eq_some_iff,
        Option.pure_def, Option.some.injEq, Prod.exists, Prod.mk.injEq] at h
      obtain ⟨es, r', hr, rfl, rfl⟩ := h
      obtain ⟨body, hbody, rfl⟩ := ih hr
      simp only [Bool.or_eq_true, decide_eq_true_eq, beq_iff_eq, not_or] at hplain
      exact ⟨_, .cons (.plain (Nat.le_of_not_lt hplain.1) hquote hplain.2) hbody, rfl⟩

theorem stringText_of_string? {s : Option String} (h : string? isStray cs = some (s, rest)) :
    ∃ body, StringText s ('"' :: body) ∧ cs = body ++ rest := by
  obtain ⟨⟨es, r⟩, hes, heq⟩ := Option.map_eq_some_iff.1 h
  cases heq
  obtain ⟨body, hbody, rfl⟩ := elementsText_of_elements? hclean hes
  exact ⟨body ++ ['"'], hbody.stringText, by simp⟩

end Strings

section Numbers

variable {ds : List Char}

theorem digits_of_digits? (h : digits? cs = some (ds, rest)) : Digits ds ∧ cs = ds ++ rest := by
  rw [digits?] at h
  split at h
  next => cases h
  next hne =>
      cases h
      exact ⟨⟨hne, List.all_eq_true.1 List.all_takeWhile⟩, List.takeWhile_append_dropWhile.symm⟩

theorem digits_of_wholeDigits? (h : wholeDigits? cs = some (ds, rest)) :
    Digits ds ∧ (∀ c tail, ds ≠ '0' :: c :: tail) ∧ cs = ds ++ rest := by
  rw [wholeDigits?] at h
  split at h
  next => cases h
  next hzero =>
      obtain ⟨hds, hcs⟩ := digits_of_digits? h
      refine ⟨hds, ?_, hcs⟩
      rintro c tail rfl
      exact hzero _ _ _ h

theorem fractionText_of_fraction? {b : Bool} (h : fraction? cs = some (b, rest)) :
    ∃ fraction, FractionText fraction ∧ b = !fraction.isEmpty ∧ cs = fraction ++ rest := by
  rw [fraction?.eq_def] at h
  split at h
  next r =>
      obtain ⟨⟨ds, r'⟩, hread, heq⟩ := Option.map_eq_some_iff.1 h
      cases heq
      obtain ⟨hds, rfl⟩ := digits_of_digits? hread
      exact ⟨_, .present hds, rfl, rfl⟩
  next =>
      cases h
      exact ⟨[], .absent, rfl, rfl⟩

theorem exponentText_of_exponent? {b : Bool} (h : exponent? cs = some (b, rest)) :
    ∃ exponent, ExponentText exponent ∧ b = !exponent.isEmpty ∧ cs = exponent ++ rest := by
  rw [exponent?.eq_def] at h
  split at h
  next c r =>
      split at h
      next hmark =>
          obtain ⟨⟨ds, r'⟩, hread, heq⟩ := Option.map_eq_some_iff.1 h
          cases heq
          obtain ⟨hds, hr⟩ := digits_of_digits? hread
          have hmark' : c = 'e' ∨ c = 'E' := by simpa using hmark
          split at hr
          next => exact ⟨_, .present hmark' (.inr (.inl rfl)) hds, rfl, by simp [hr]⟩
          next => exact ⟨_, .present hmark' (.inr (.inr rfl)) hds, rfl, by simp [hr]⟩
          next => exact ⟨_, .present hmark' (.inl rfl) hds, rfl, by simp [hr]⟩
      next =>
          cases h
          exact ⟨[], .absent, rfl, rfl⟩
  next =>
      cases h
      exact ⟨[], .absent, rfl, rfl⟩

theorem numberText_of_number? {n : Number} (h : number? cs = some (n, rest)) :
    ∃ t : NumberText, t.number = n ∧ cs = t.text ++ rest := by
  simp only [number?, Option.bind_eq_bind, Option.bind_eq_some_iff, Option.pure_def,
    Option.some.injEq, Prod.exists, Prod.mk.injEq] at h
  obtain ⟨ds, cs', hwhole, fractional, cs'', hfraction, exponential, r, hexponent, rfl, rfl⟩ := h
  obtain ⟨hds, hzero, hcs⟩ := digits_of_wholeDigits? hwhole
  obtain ⟨fraction, hfractionText, rfl, rfl⟩ := fractionText_of_fraction? hfraction
  obtain ⟨exponent, hexponentText, rfl, rfl⟩ := exponentText_of_exponent? hexponent
  split at hcs
  next tail =>
      have htail : tail = ds ++ (fraction ++ (exponent ++ r)) := hcs
      exact ⟨⟨true, ds, fraction, exponent, hds, hzero, hfractionText, hexponentText⟩,
        by simp [NumberText.number], by simp [NumberText.text, htail]⟩
  next hsign =>
      have htail : cs = ds ++ (fraction ++ (exponent ++ r)) := hcs
      exact ⟨⟨false, ds, fraction, exponent, hds, hzero, hfractionText, hexponentText⟩,
        by simp [NumberText.number], by simp [NumberText.text, htail]⟩

end Numbers

theorem exists_skipBlanks (cs : List Char) : ∃ ws, Blanks ws ∧ cs = ws ++ skipBlanks cs :=
  ⟨cs.takeWhile isBlank, List.all_eq_true.1 List.all_takeWhile,
    List.takeWhile_append_dropWhile.symm⟩

theorem Blanks.append {ws ws' : List Char} (h : Blanks ws) (h' : Blanks ws') : Blanks (ws ++ ws') :=
  List.forall_mem_append.2 ⟨h, h'⟩

theorem Separated.append {α : Type} {text : α → List Char} {as : List α} {ws : List Char}
    (hws : Blanks ws) (h : Separated text as cs) : Separated text as (ws ++ cs) := by
  cases h with
  | single hfirst hlast =>
      rw [← List.append_assoc]
      exact .single (hws.append hfirst) hlast
  | cons hfirst hlast h =>
      rw [← List.append_assoc]
      exact .cons (hws.append hfirst) hlast h

theorem SpellsItems.append {xs : List Json} {ws : List Char} (hws : Blanks ws)
    (h : SpellsItems xs cs) : SpellsItems xs (ws ++ cs) := by
  obtain ⟨items, rfl, hitems, hcs⟩ := h
  exact ⟨items, rfl, hitems, hcs.append hws⟩

theorem SpellsMembers.append {ms : List (Option String × Json)} {ws : List Char} (hws : Blanks ws)
    (h : SpellsMembers ms cs) : SpellsMembers ms (ws ++ cs) := by
  obtain ⟨members, rfl, hmembers, hcs⟩ := h
  exact ⟨members, rfl, hmembers, hcs.append hws⟩

/-- What is passed over for a value is a text of the value, and so are the parts of a value. -/
structure Sound (isStray : Char → Bool) (fuel : Nat) : Prop where
  value : ∀ {cs x rest}, value? isStray fuel cs = some (x, rest) →
    ∃ ws t, Blanks ws ∧ Spells x t ∧ cs = ws ++ (t ++ rest)
  items : ∀ {cs xs rest}, items? isStray fuel cs = some (xs, rest) →
    ∃ t, SpellsItems xs t ∧ cs = t ++ ']' :: rest
  members : ∀ {cs ms rest}, members? isStray fuel cs = some (ms, rest) →
    ∃ t, SpellsMembers ms t ∧ cs = t ++ '}' :: rest

section Steps

variable {x : Json} {xs : List Json} {ms : List (Option String × Json)} {fuel : Nat}
  (hclean : ∀ c, isStray c = false)

include hclean

theorem Sound.value_succ (ih : Sound isStray fuel)
    (h : value? isStray (fuel + 1) cs = some (x, rest)) :
    ∃ t, Spells x t ∧ skipBlanks cs = t ++ rest := by
  rw [value?] at h
  split at h
  next r heq =>
      obtain ⟨ws, hws, hr⟩ := exists_skipBlanks r
      split at h
      next r' hclose =>
          cases h
          exact ⟨_, spells_object_nil hws, by rw [heq, hr, hclose]; simp⟩
      next r' hne =>
          obtain ⟨⟨ms, r''⟩, hread, hms⟩ := Option.map_eq_some_iff.1 h
          cases hms
          obtain ⟨t, ht, hbody⟩ := ih.members hread
          exact ⟨_, (ht.append hws).object, by rw [heq, hr, hbody]; simp⟩
  next r heq =>
      obtain ⟨ws, hws, hr⟩ := exists_skipBlanks r
      split at h
      next r' hclose =>
          cases h
          exact ⟨_, spells_array_nil hws, by rw [heq, hr, hclose]; simp⟩
      next r' hne =>
          obtain ⟨⟨xs, r''⟩, hread, hxs⟩ := Option.map_eq_some_iff.1 h
          cases hxs
          obtain ⟨t, ht, hbody⟩ := ih.items hread
          exact ⟨_, (ht.append hws).array, by rw [heq, hr, hbody]; simp⟩
  next r heq =>
      obtain ⟨⟨s, r'⟩, hread, hs⟩ := Option.map_eq_some_iff.1 h
      cases hs
      obtain ⟨body, hbody, rfl⟩ := stringText_of_string? hclean hread
      exact ⟨_, .string hbody, heq⟩
  next r heq =>
      cases h
      exact ⟨_, .true, heq⟩
  next r heq =>
      cases h
      exact ⟨_, .false, heq⟩
  next r heq =>
      cases h
      exact ⟨_, .null, heq⟩
  next =>
      obtain ⟨⟨n, r⟩, hread, hn⟩ := Option.map_eq_some_iff.1 h
      cases hn
      obtain ⟨t, rfl, hcs⟩ := numberText_of_number? hread
      exact ⟨_, .number t, hcs⟩

omit hclean in
theorem Sound.items_succ (ih : Sound isStray fuel)
    (h : items? isStray (fuel + 1) cs = some (xs, rest)) :
    ∃ t, SpellsItems xs t ∧ cs = t ++ ']' :: rest := by
  rw [items?] at h
  split at h
  next => cases h
  next x r hvalue =>
      obtain ⟨ws, t, hws, ht, rfl⟩ := ih.value hvalue
      obtain ⟨ws', hws', hr⟩ := exists_skipBlanks r
      split at h
      next r' hcomma =>
          obtain ⟨⟨xs, r''⟩, hread, hxs⟩ := Option.map_eq_some_iff.1 h
          cases hxs
          obtain ⟨t', ht', rfl⟩ := ih.items hread
          exact ⟨_, ht'.cons ht hws hws', by rw [hr, hcomma]; simp⟩
      next r' hclose =>
          cases h
          exact ⟨_, ht.items hws hws', by rw [hr, hclose]; simp⟩
      next => cases h

theorem Sound.members_succ (ih : Sound isStray fuel)
    (h : members? isStray (fuel + 1) cs = some (ms, rest)) :
    ∃ t, SpellsMembers ms t ∧ cs = t ++ '}' :: rest := by
  obtain ⟨ws, hws, hcs⟩ := exists_skipBlanks cs
  rw [members?] at h
  split at h
  next r hquote =>
      split at h
      next => cases h
      next k r hname =>
          obtain ⟨body, hbody, rfl⟩ := stringText_of_string? hclean hname
          obtain ⟨before, hbefore, hr⟩ := exists_skipBlanks r
          split at h
          next r' hcolon =>
              split at h
              next => cases h
              next x r'' hvalue =>
                  obtain ⟨after, t, hafter, ht, rfl⟩ := ih.value hvalue
                  obtain ⟨ws', hws', hr''⟩ := exists_skipBlanks r''
                  split at h
                  next tail hcomma =>
                      obtain ⟨⟨ms, tail'⟩, hread, hms⟩ := Option.map_eq_some_iff.1 h
                      cases hms
                      obtain ⟨t', ht', rfl⟩ := ih.members hread
                      refine ⟨_, ht'.cons ht hbody hbefore hafter hws hws', ?_⟩
                      rw [hcs, hquote, hr, hcolon, hr'', hcomma]
                      simp
                  next tail hclose =>
                      cases h
                      refine ⟨_, ht.members hbody hbefore hafter hws hws', ?_⟩
                      rw [hcs, hquote, hr, hcolon, hr'', hclose]
                      simp
                  next => cases h
          next => cases h
  next => cases h

theorem sound (fuel : Nat) : Sound isStray fuel := by
  induction fuel with
  | zero => exact ⟨nofun, nofun, nofun⟩
  | succ fuel ih =>
      refine ⟨fun {cs x rest} h => ?_, ih.items_succ, ih.members_succ hclean⟩
      obtain ⟨ws, hws, hcs⟩ := exists_skipBlanks cs
      obtain ⟨t, ht, hrest⟩ := ih.value_succ hclean h
      exact ⟨ws, t, hws, ht, by rw [← hrest, ← hcs]⟩

end Steps

/-- The texts that are read are those of values, with blanks around them. -/
theorem read?_eq_some_iff {text : String} {x : Json} : read? text = some x ↔ Writes text x := by
  refine ⟨fun h => ?_, Writes.read?⟩
  rw [read?, readWith?] at h
  split at h
  next y ws' hread =>
      split at h
      next hskip =>
          cases h
          obtain ⟨ws, t, hws, ht, htext⟩ := (sound (fun _ => rfl) _).value hread
          obtain ⟨ws'', hws'', hws'⟩ := exists_skipBlanks ws'
          rw [hskip, List.append_nil] at hws'
          exact ⟨ws, t, ws', hws, hws' ▸ hws'', ht, htext⟩
      next => cases h
  next => cases h

end Conformance.Json

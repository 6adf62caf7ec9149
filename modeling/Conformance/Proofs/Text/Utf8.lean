import Conformance.Text.Utf8
import Mathlib.Tactic.SplitIfs

/-!
# Encoding and decoding

The bytes of a character are those that `pieces` takes for it, and no others:
`Spells bs c` lists the four shapes they can have, and both directions of the
codec go through it. The first byte of a shape restricts the second one
(`lead?_eq_some_iff`), so that no character is spelled twice and surrogates are
not spelled at all.
-/

namespace Conformance.Utf8

inductive Spells : Bytes → Char → Prop where
  | one {a : UInt8} (ha : a < 0x80) : Spells [a] (Char.ofNat a.toNat)
  | two {a b lo hi : UInt8} (hlead : lead? a = some (lo, hi, 1))
      (hb : (lo ≤ b && b ≤ hi) = true) : Spells [a, b] (char2 a b)
  | three {a b c lo hi : UInt8} (hlead : lead? a = some (lo, hi, 2))
      (hb : (lo ≤ b && b ≤ hi) = true) (hc : isTail c = true) : Spells [a, b, c] (char3 a b c)
  | four {a b c d lo hi : UInt8} (hlead : lead? a = some (lo, hi, 3))
      (hb : (lo ≤ b && b ≤ hi) = true) (hc : isTail c = true) (hd : isTail d = true) :
      Spells [a, b, c, d] (char4 a b c d)

theorem isTail_iff {b : UInt8} : isTail b = true ↔ 0x80 ≤ b.toNat ∧ b.toNat ≤ 0xBF := by
  simp [isTail, UInt8.le_iff_toNat_le]

theorem between_iff {lo b hi : UInt8} :
    (lo ≤ b && b ≤ hi) = true ↔ lo.toNat ≤ b.toNat ∧ b.toNat ≤ hi.toNat := by
  simp [UInt8.le_iff_toNat_le]

/-- What a first byte asks of the others. -/
theorem lead?_eq_some_iff {a lo hi : UInt8} {n : Nat} :
    lead? a = some (lo, hi, n) ↔
      (n = 1 ∧ 0xC2 ≤ a.toNat ∧ a.toNat ≤ 0xDF ∧ lo.toNat = 0x80 ∧ hi.toNat = 0xBF) ∨
      (n = 2 ∧ 0xE0 ≤ a.toNat ∧ a.toNat ≤ 0xEF ∧
        lo.toNat = (if a.toNat = 0xE0 then 0xA0 else 0x80) ∧
        hi.toNat = (if a.toNat = 0xED then 0x9F else 0xBF)) ∨
      (n = 3 ∧ 0xF0 ≤ a.toNat ∧ a.toNat ≤ 0xF4 ∧
        lo.toNat = (if a.toNat = 0xF0 then 0x90 else 0x80) ∧
        hi.toNat = (if a.toNat = 0xF4 then 0x8F else 0xBF)) := by
  simp only [lead?, Bool.and_eq_true, decide_eq_true_eq, beq_iff_eq, UInt8.le_iff_toNat_le,
    ← UInt8.toNat_inj, UInt8.reduceToNat]
  split_ifs <;> simp [← UInt8.toNat_inj, Prod.ext_iff] <;> omega

theorem not_lt_of_lead? {a lo hi : UInt8} {n : Nat} (h : lead? a = some (lo, hi, n)) :
    ¬ a < 0x80 := by
  rw [lead?_eq_some_iff] at h
  simp only [UInt8.lt_iff_toNat_lt, UInt8.reduceToNat]
  omega

theorem Spells.pieces_append {bs : Bytes} {c : Char} (h : Spells bs c) (rest : Bytes) :
    pieces (bs ++ rest) = .char c :: pieces rest := by
  cases h with
  | one ha => simp [pieces, ha]
  | two hlead hb => simp [pieces, not_lt_of_lead? hlead, hlead, hb]
  | three hlead hb hc => simp [pieces, not_lt_of_lead? hlead, hlead, hb, hc]
  | four hlead hb hc hd => simp [pieces, not_lt_of_lead? hlead, hlead, hb, hc, hd]

theorem toNat_toUInt8 {n : Nat} (h : n < 256) : n.toUInt8.toNat = n := by
  simp only [Nat.toUInt8, UInt8.toNat_ofNat']
  omega

theorem toNat_charOfNat {n : Nat} (h : n.isValidChar) : (Char.ofNat n).toNat = n := by
  rw [Char.ofNat, dif_pos h]
  rfl

/-- A byte in front of two others is one of three. -/
theorem lead?_three {a : UInt8} (ha : 0xE0 ≤ a.toNat ∧ a.toNat ≤ 0xEF) :
    lead? a = some (if a.toNat = 0xE0 then 0xA0 else 0x80,
      if a.toNat = 0xED then 0x9F else 0xBF, 2) := by
  refine lead?_eq_some_iff.2 (.inr (.inl ⟨rfl, ha.1, ha.2, ?_, ?_⟩)) <;> split <;> rfl

theorem lead?_four {a : UInt8} (ha : 0xF0 ≤ a.toNat ∧ a.toNat ≤ 0xF4) :
    lead? a = some (if a.toNat = 0xF0 then 0x90 else 0x80,
      if a.toNat = 0xF4 then 0x8F else 0xBF, 3) := by
  refine lead?_eq_some_iff.2 (.inr (.inr ⟨rfl, ha.1, ha.2, ?_, ?_⟩)) <;> split <;> rfl

theorem spells_encodeChar (c : Char) : Spells (encodeChar c) c := by
  have hvalid : c.toNat < 0xD800 ∨ 0xDFFF < c.toNat ∧ c.toNat < 0x110000 := c.valid
  unfold encodeChar
  simp only
  split_ifs with h1 h2 h3
  · have ha := toNat_toUInt8 (n := c.toNat) (by omega)
    have hspells : Spells [c.toNat.toUInt8] (Char.ofNat c.toNat.toUInt8.toNat) := by
      refine .one ?_
      rw [UInt8.lt_iff_toNat_lt, ha]
      exact h1
    rwa [ha, Char.ofNat_toNat] at hspells
  · have ha := toNat_toUInt8 (n := 0xC0 + c.toNat / 64) (by omega)
    have hb := toNat_toUInt8 (n := 0x80 + c.toNat % 64) (by omega)
    generalize (0xC0 + c.toNat / 64).toUInt8 = a at ha
    generalize (0x80 + c.toNat % 64).toUInt8 = b at hb
    have hspells : Spells [a, b] (char2 a b) := by
      have hlead : lead? a = some (0x80, 0xBF, 1) :=
        lead?_eq_some_iff.2 (.inl ⟨rfl, by omega, by omega, rfl, rfl⟩)
      exact .two hlead (isTail_iff.2 (by omega))
    rwa [char2, payload, show a.toNat % 32 * 64 + b.toNat % 64 = c.toNat by omega,
      Char.ofNat_toNat] at hspells
  · have ha := toNat_toUInt8 (n := 0xE0 + c.toNat / 4096) (by omega)
    have hb := toNat_toUInt8 (n := 0x80 + c.toNat / 64 % 64) (by omega)
    have hd := toNat_toUInt8 (n := 0x80 + c.toNat % 64) (by omega)
    generalize (0xE0 + c.toNat / 4096).toUInt8 = a at ha
    generalize (0x80 + c.toNat / 64 % 64).toUInt8 = b at hb
    generalize (0x80 + c.toNat % 64).toUInt8 = d at hd
    have hspells : Spells [a, b, d] (char3 a b d) := by
      refine .three (lead?_three (by omega)) (between_iff.2 ?_) (isTail_iff.2 (by omega))
      split_ifs <;> simp only [UInt8.reduceToNat] <;> omega
    rwa [char3, payload, payload, show a.toNat % 16 * 4096 + b.toNat % 64 * 64 + d.toNat % 64 =
      c.toNat by omega, Char.ofNat_toNat] at hspells
  · have ha := toNat_toUInt8 (n := 0xF0 + c.toNat / 262144) (by omega)
    have hb := toNat_toUInt8 (n := 0x80 + c.toNat / 4096 % 64) (by omega)
    have hd := toNat_toUInt8 (n := 0x80 + c.toNat / 64 % 64) (by omega)
    have he := toNat_toUInt8 (n := 0x80 + c.toNat % 64) (by omega)
    generalize (0xF0 + c.toNat / 262144).toUInt8 = a at ha
    generalize (0x80 + c.toNat / 4096 % 64).toUInt8 = b at hb
    generalize (0x80 + c.toNat / 64 % 64).toUInt8 = d at hd
    generalize (0x80 + c.toNat % 64).toUInt8 = e at he
    have hspells : Spells [a, b, d, e] (char4 a b d e) := by
      refine .four (lead?_four (by omega)) (between_iff.2 ?_) (isTail_iff.2 (by omega))
        (isTail_iff.2 (by omega))
      split_ifs <;> simp only [UInt8.reduceToNat] <;> omega
    rwa [char4, payload, payload, payload, show a.toNat % 8 * 262144 + b.toNat % 64 * 4096 +
      d.toNat % 64 * 64 + e.toNat % 64 = c.toNat by omega, Char.ofNat_toNat] at hspells

theorem toUInt8_eq {n : Nat} {a : UInt8} (h : n = a.toNat) : n.toUInt8 = a := by
  rw [h, Nat.toUInt8, UInt8.ofNat_toNat]

/-- A character is spelled in one way. -/
theorem Spells.encodeChar_eq {bs : Bytes} {c : Char} (h : Spells bs c) : encodeChar c = bs := by
  cases h with
  | @one a ha =>
      have hlt : a.toNat < 0x80 := UInt8.lt_iff_toNat_lt.1 ha
      have hv : (Char.ofNat a.toNat).toNat = a.toNat := toNat_charOfNat (.inl (by omega))
      simp only [encodeChar, hv]
      rw [if_pos hlt, toUInt8_eq rfl]
  | @two a b lo hi hlead hb =>
      rw [lead?_eq_some_iff] at hlead
      rw [between_iff] at hb
      have hv : (char2 a b).toNat = a.toNat % 32 * 64 + b.toNat % 64 :=
        toNat_charOfNat (.inl (by simp only [payload]; omega))
      simp only [encodeChar, hv]
      rw [if_neg (by omega), if_pos (by omega)]
      simp only [List.cons.injEq, and_true]
      exact ⟨toUInt8_eq (by omega), toUInt8_eq (by omega)⟩
  | @three a b c lo hi hlead hb hc =>
      rw [lead?_eq_some_iff] at hlead
      rw [between_iff] at hb
      rw [isTail_iff] at hc
      have hrange : (0x80 ≤ b.toNat ∧ b.toNat ≤ 0xBF) ∧
          0x800 ≤ a.toNat % 16 * 4096 + b.toNat % 64 * 64 + c.toNat % 64 ∧
          (a.toNat % 16 * 4096 + b.toNat % 64 * 64 + c.toNat % 64).isValidChar := by
        rw [Nat.isValidChar]
        split_ifs at hlead <;> omega
      have hv : (char3 a b c).toNat =
          a.toNat % 16 * 4096 + b.toNat % 64 * 64 + c.toNat % 64 :=
        toNat_charOfNat hrange.2.2
      simp only [encodeChar, hv]
      rw [if_neg (by omega), if_neg (by omega), if_pos (by omega)]
      simp only [List.cons.injEq, and_true]
      exact ⟨toUInt8_eq (by omega), toUInt8_eq (by omega), toUInt8_eq (by omega)⟩
  | @four a b c d lo hi hlead hb hc hd =>
      rw [lead?_eq_some_iff] at hlead
      rw [between_iff] at hb
      rw [isTail_iff] at hc hd
      have hrange : (0x80 ≤ b.toNat ∧ b.toNat ≤ 0xBF) ∧
          0x10000 ≤ a.toNat % 8 * 262144 + b.toNat % 64 * 4096 + c.toNat % 64 * 64 +
            d.toNat % 64 ∧
          (a.toNat % 8 * 262144 + b.toNat % 64 * 4096 + c.toNat % 64 * 64 +
            d.toNat % 64).isValidChar := by
        rw [Nat.isValidChar]
        split_ifs at hlead <;> omega
      have hv : (char4 a b c d).toNat =
          a.toNat % 8 * 262144 + b.toNat % 64 * 4096 + c.toNat % 64 * 64 + d.toNat % 64 :=
        toNat_charOfNat hrange.2.2
      simp only [encodeChar, hv]
      rw [if_neg (by omega), if_neg (by omega), if_neg (by omega)]
      simp only [List.cons.injEq, and_true]
      exact ⟨toUInt8_eq (by omega), toUInt8_eq (by omega), toUInt8_eq (by omega),
        toUInt8_eq (by omega)⟩

theorem pieces_encode (s : String) : pieces (encode s) = s.toList.map .char := by
  rw [encode]
  induction s.toList with
  | nil => rfl
  | cons c cs ih => rw [List.flatMap_cons, (spells_encodeChar c).pieces_append, ih, List.map_cons]

theorem decode?_encode (s : String) : decode? (encode s) = some s := by
  have hchars : (s.toList.map Piece.char).mapM Piece.char? = some s.toList := by
    induction s.toList with
    | nil => rfl
    | cons c cs ih => simp [List.mapM_cons, Piece.char?, ih]
  rw [decode?, pieces_encode, hchars, Option.map_some, String.ofList_toList]

def Piece.bytes : Piece → Bytes
  | .char c => encodeChar c
  | .broken bs => bs

theorem Spells.flatMap_bytes {bs rest : Bytes} {c : Char} {ps : List Piece} (h : Spells bs c)
    (hps : ps.flatMap Piece.bytes = rest) :
    (.char c :: ps).flatMap Piece.bytes = bs ++ rest := by
  rw [List.flatMap_cons, hps, Piece.bytes, h.encodeChar_eq]

/-- The pieces are all of the bytes. -/
theorem flatMap_bytes_pieces (bs : Bytes) : (pieces bs).flatMap Piece.bytes = bs := by
  fun_induction pieces bs with
  | case1 => rfl
  | case2 a r ha ih => exact (Spells.one ha).flatMap_bytes ih
  | case5 a ha lo hi n hlead b r hb hn ih =>
      rw [beq_iff_eq] at hn
      exact (Spells.two (hn ▸ hlead) hb).flatMap_bytes ih
  | case7 a ha lo hi n hlead b hb hn c r hc hn' ih =>
      rw [beq_iff_eq] at hn'
      exact (Spells.three (hn' ▸ hlead) hb hc).flatMap_bytes ih
  | case9 a ha lo hi n hlead b hb hn c hc hn' d r hd ih =>
      have hthree : n = 3 := by
        rw [beq_iff_eq] at hn hn'
        have hcases := lead?_eq_some_iff.1 hlead
        omega
      exact (Spells.four (hthree ▸ hlead) hb hc hd).flatMap_bytes ih
  | _ => simp_all [Piece.bytes]

/-- Bytes without a broken piece are those of their characters. -/
theorem encode_ofList_of_pieces {bs : Bytes} {cs : List Char} (h : pieces bs = cs.map .char) :
    encode (String.ofList cs) = bs := by
  rw [encode, String.toList_ofList, ← flatMap_bytes_pieces bs, h, List.flatMap_map]
  rfl

theorem eq_map_char_of_mapM {ps : List Piece} {cs : List Char}
    (h : ps.mapM Piece.char? = some cs) : ps = cs.map .char := by
  induction ps generalizing cs with
  | nil =>
      cases h
      rfl
  | cons p ps ih =>
      rw [List.mapM_cons] at h
      obtain ⟨c, hc, hrest⟩ := Option.bind_eq_some_iff.1 h
      obtain ⟨cs', hcs', heq⟩ := Option.bind_eq_some_iff.1 hrest
      cases heq
      cases p with
      | char c' =>
          cases hc
          rw [ih hcs', List.map_cons]
      | broken bs => cases hc

theorem encode_of_decode? {bs : Bytes} {s : String} (h : decode? bs = some s) : encode s = bs := by
  rw [decode?] at h
  obtain ⟨cs, hcs, rfl⟩ := Option.map_eq_some_iff.1 h
  exact encode_ofList_of_pieces (eq_map_char_of_mapM hcs)

end Conformance.Utf8

import Conformance.Proofs.Path.Names
import Conformance.Proofs.Text.Utf8

/-!
# What is shown for bytes

A character of one byte is a piece by itself: the byte is part of no longer
character and of no broken piece (`Spells.pieces_append_cons`). Bytes can
therefore be cut at such a byte before they are decoded, or the shown text at the
character afterwards (`Spells.splitAt_decodeLossy`). Nothing else is shown as that
character, since broken pieces are shown as U+FFFD, and a text in which U+FFFD
does not occur is shown for its own bytes only (`encode_of_decodeLossy`).
-/

namespace Conformance.Utf8

variable {a : UInt8} {c : Char}

theorem isTail_eq_false (ha : a < 0x80) : isTail a = false := by
  have hlt : a.toNat < 0x80 := UInt8.lt_iff_toNat_lt.1 ha
  rw [Bool.eq_false_iff, Ne, isTail_iff]
  omega

theorem between_eq_false {b lo hi : UInt8} {n : Nat} (hlead : lead? b = some (lo, hi, n))
    (ha : a < 0x80) : (lo ≤ a && a ≤ hi) = false := by
  have hlt : a.toNat < 0x80 := UInt8.lt_iff_toNat_lt.1 ha
  rw [Bool.eq_false_iff, Ne, between_iff]
  rw [lead?_eq_some_iff] at hlead
  split_ifs at hlead <;> omega

/-- A character of one byte ends what stands before it. -/
theorem Spells.pieces_append_cons (h : Spells [a] c) (bs rest : Bytes) :
    pieces (bs ++ a :: rest) = pieces bs ++ .char c :: pieces rest := by
  have hself : pieces (a :: rest) = .char c :: pieces rest := h.pieces_append rest
  obtain ⟨ha⟩ := h
  -- where a longer character is not finished, `a` does not go on with it
  fun_induction pieces bs with
  | case1 => exact hself
  | case2 b r hb ih => simp [pieces, hb, ih]
  | case3 b r hb hlead ih => simp [pieces, hb, hlead, ih]
  | case4 b hb lo hi n hlead => simp [pieces, hb, hlead, between_eq_false hlead ha, hself]
  | case5 b hb lo hi n hlead d r hd hn ih => simp [pieces, hb, hlead, hd, hn, ih]
  | case6 b hb lo hi n hlead d hd hn =>
      simp [pieces, hb, hlead, hd, hn, isTail_eq_false ha, hself]
  | case7 b hb lo hi n hlead d hd hn e r he hn' ih =>
      simp [pieces, hb, hlead, hd, hn, he, hn', ih]
  | case8 b hb lo hi n hlead d hd hn e he hn' =>
      simp [pieces, hb, hlead, hd, hn, he, hn', isTail_eq_false ha, hself]
  | case9 b hb lo hi n hlead d hd hn e he hn' f r hf ih =>
      simp [pieces, hb, hlead, hd, hn, he, hn', hf, ih]
  | case10 b hb lo hi n hlead d hd hn e he hn' f r hf ih =>
      have hfirst : pieces (b :: d :: e :: f :: (r ++ a :: rest)) =
          .broken [b, d, e] :: pieces (f :: (r ++ a :: rest)) := by
        rw [pieces]
        simp only [hb, hlead, hd, hn, he, hn', hf, if_true, if_false, Bool.false_eq_true]
      exact hfirst.trans (congrArg _ ih)
  | case11 b hb lo hi n hlead d hd hn e r he ih =>
      have hfirst : pieces (b :: d :: e :: (r ++ a :: rest)) =
          .broken [b, d] :: pieces (e :: (r ++ a :: rest)) := by
        rw [pieces]
        simp only [hb, hlead, hd, hn, he, if_true, if_false, Bool.false_eq_true]
      exact hfirst.trans (congrArg _ ih)
  | case12 b hb lo hi n hlead d r hd ih =>
      have hfirst : pieces (b :: d :: (r ++ a :: rest)) =
          .broken [b] :: pieces (d :: (r ++ a :: rest)) := by
        rw [pieces]
        simp only [hb, hlead, hd, if_false, Bool.false_eq_true]
      exact hfirst.trans (congrArg _ ih)

theorem toList_decodeLossy (bs : Bytes) :
    (decodeLossy bs).toList = (pieces bs).map Piece.shown := by
  rw [decodeLossy, String.toList_ofList]

theorem decodeLossy_encode (s : String) : decodeLossy (encode s) = s := by
  rw [decodeLossy, pieces_encode, List.map_map]
  exact (congrArg String.ofList (List.map_id _)).trans String.ofList_toList

theorem eq_map_char_of_map_shown {ps : List Piece} {cs : List Char} (h : ps.map Piece.shown = cs)
    (hcs : replacement ∉ cs) : ps = cs.map .char := by
  subst h
  induction ps with
  | nil => rfl
  | cons p ps ih =>
      rw [List.map_cons, List.mem_cons, not_or] at hcs
      cases p with
      | char c => rw [List.map_cons, List.map_cons, ← ih hcs.2, Piece.shown]
      | broken bs => exact absurd rfl hcs.1

/-- A text without U+FFFD is shown for its own bytes only. -/
theorem encode_of_decodeLossy {bs : Bytes} {s : String} (h : decodeLossy bs = s)
    (hs : replacement ∉ s.toList) : encode s = bs := by
  have hpieces : pieces bs = s.toList.map .char := by
    refine eq_map_char_of_map_shown ?_ hs
    rw [← toList_decodeLossy, h]
  rw [← encode_ofList_of_pieces hpieces, String.ofList_toList]

theorem Spells.toList_decodeLossy_append (h : Spells [a] c) (bs rest : Bytes) :
    (decodeLossy (bs ++ a :: rest)).toList =
      (decodeLossy bs).toList ++ c :: (decodeLossy rest).toList := by
  simp only [toList_decodeLossy, h.pieces_append_cons, List.map_append, List.map_cons, Piece.shown]

theorem Spells.ne_replacement (h : Spells [a] c) : c ≠ replacement := by
  rintro rfl
  have hlength : (encodeChar replacement).length = 3 := by decide
  rw [h.encodeChar_eq] at hlength
  cases hlength

theorem Spells.bytes_of_shown (h : Spells [a] c) {p : Piece} (hp : p.shown = c) :
    p.bytes = [a] := by
  cases p with
  | char c' =>
      rw [Piece.shown] at hp
      rw [hp, Piece.bytes, h.encodeChar_eq]
  | broken bs => exact absurd hp.symm h.ne_replacement

theorem Spells.mem_of_mem_decodeLossy (h : Spells [a] c) {bs : Bytes}
    (hc : c ∈ (decodeLossy bs).toList) : a ∈ bs := by
  rw [toList_decodeLossy, List.mem_map] at hc
  obtain ⟨p, hp, hshown⟩ := hc
  rw [← flatMap_bytes_pieces bs, List.mem_flatMap]
  refine ⟨p, hp, ?_⟩
  rw [h.bytes_of_shown hshown]
  exact List.mem_singleton_self a

theorem Spells.head?_of_head?_decodeLossy (h : Spells [a] c) {bs : Bytes}
    (hc : (decodeLossy bs).toList.head? = some c) : bs.head? = some a := by
  rw [toList_decodeLossy, List.head?_map, Option.map_eq_some_iff] at hc
  obtain ⟨p, hp, hshown⟩ := hc
  obtain ⟨ps, hpieces⟩ := List.head?_eq_some_iff.1 hp
  have hbytes := flatMap_bytes_pieces bs
  rw [hpieces, List.flatMap_cons, h.bytes_of_shown hshown] at hbytes
  rw [← hbytes]
  rfl

/-- Parts are joined before or after they are decoded. -/
theorem Spells.toList_decodeLossy_joinWith (h : Spells [a] c) (parts : List Bytes) :
    (decodeLossy (Split.joinWith a parts)).toList =
      Split.joinWith c (parts.map fun part => (decodeLossy part).toList) := by
  induction parts with
  | nil => rfl
  | cons part parts ih =>
      cases parts with
      | nil => rfl
      | cons next parts =>
          rw [Split.joinWith_cons_cons, h.toList_decodeLossy_append, ih]
          rfl

/-- Bytes are cut before or after they are decoded. -/
theorem Spells.splitAt_decodeLossy (h : Spells [a] c) (bs : Bytes) :
    Split.splitAt c (decodeLossy bs).toList =
      (Split.splitAt a bs).map fun part => (decodeLossy part).toList := by
  have hparts : ∀ part ∈ (Split.splitAt a bs).map fun part => (decodeLossy part).toList,
      c ∉ part := by
    rw [List.forall_mem_map]
    intro part hpart hc
    exact Split.notMem_of_mem_splitAt hpart (h.mem_of_mem_decodeLossy hc)
  have hne : (Split.splitAt a bs).map (fun part => (decodeLossy part).toList) ≠ [] := by
    simpa using Split.splitAt_ne_nil a bs
  calc
    Split.splitAt c (decodeLossy bs).toList =
        Split.splitAt c (decodeLossy (Split.joinWith a (Split.splitAt a bs))).toList := by
      rw [Split.joinWith_splitAt]
    _ = (Split.splitAt a bs).map fun part => (decodeLossy part).toList := by
      rw [h.toList_decodeLossy_joinWith, Split.splitAt_joinWith hne hparts]

/-- Leading characters of one byte are dropped before or after decoding. -/
theorem Spells.dropWhile_decodeLossy (h : Spells [a] c) (bs : Bytes) :
    (decodeLossy bs).toList.dropWhile (· == c) =
      (decodeLossy (bs.dropWhile (· == a))).toList := by
  induction bs with
  | nil => rfl
  | cons b bs ih =>
      by_cases hb : b = a
      · subst hb
        have hfirst : (decodeLossy (b :: bs)).toList = c :: (decodeLossy bs).toList :=
          h.toList_decodeLossy_append [] bs
        simp only [hfirst, List.dropWhile_cons, beq_self_eq_true, if_true, ih]
      · rw [List.dropWhile_cons_of_neg (by simpa using hb)]
        cases htext : (decodeLossy (b :: bs)).toList with
        | nil => rfl
        | cons c' cs =>
            refine List.dropWhile_cons_of_neg ?_
            rw [beq_iff_eq]
            rintro rfl
            have hshown : (decodeLossy (b :: bs)).toList.head? = some c' := by
              rw [htext]
              rfl
            exact hb (Option.some.inj (h.head?_of_head?_decodeLossy hshown))

end Conformance.Utf8

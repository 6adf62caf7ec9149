import Conformance.Proofs.Yaml.Layout
import Conformance.Yaml.View

/-!
# The nodes of printed data

`ofData d` is the node of report data, in which every text has the style it is
written in. The tokens of a value are read as its node, whatever comes behind
them (`node_valueTokens`); only the items of a list that has no tokens around it
must not be followed by another item. Each call takes a token within three steps,
so three times the number of tokens is fuel enough. With the tokens that are
found in a printed record, it follows that the record is read from its own text
(`exists_text_read?`).
-/

namespace Conformance.Yaml

mutual

/-- The node of report data. -/
def ofData : Data → Node
  | .null => .scalar none .plain "null"
  | .bool b => .scalar none .plain (if b then "true" else "false")
  | .int n => .scalar none .plain (Decimal.intText n)
  | .text s => .scalar none (styleOf s) s
  | .path p =>
    match p.text? with
    | some s => .scalar none (styleOf s) s
    -- such a path is never written, and no text is found in this node
    | none => .sequence none []
  | .list items => .sequence none (ofItems items)
  | .record fields => .mapping none (ofFields fields)

def ofItems : List Data → List Node
  | [] => []
  | x :: xs => ofData x :: ofItems xs

def ofFields : List (String × Data) → List (Node × Node)
  | [] => []
  | (name, x) :: fields => (.scalar none .plain name, ofData x) :: ofFields fields

end

namespace Reader

variable {handles : Handles} {belowKey : Bool} {fuel : Nat} {a : Anchors} {r : List Token}
  {s s' : Reading} {t : Token} {x : Node} {xs : List Node} {es : List (Node × Node)}

theorem bind_of_eq_some {α β : Type} {f : Reader α} {y : α} (h : f s = some (y, s'))
    (g : α → Reader β) : (f >>= g) s = g y s' := by
  change (f s).bind _ = _
  rw [h]
  rfl

theorem node_scalar (style : Style) (text : String) :
    node handles true belowKey (fuel + 2) ⟨.scalar style text :: r, a⟩ =
      some (.scalar none style text, ⟨r, a⟩) := rfl

theorem node_emptyList :
    node handles true belowKey (fuel + 3) ⟨.flowSequenceStart :: .flowSequenceEnd :: r, a⟩ =
      some (.sequence none [], ⟨r, a⟩) := rfl

theorem node_emptyRecord :
    node handles true belowKey (fuel + 3) ⟨.flowMappingStart :: .flowMappingEnd :: r, a⟩ =
      some (.mapping none [], ⟨r, a⟩) := rfl

theorem node_blockSequence (h : blockEntries handles fuel ⟨r, a⟩ = some (xs, s)) :
    node handles true belowKey (fuel + 2) ⟨.blockSequenceStart :: r, a⟩ =
      some (.sequence none xs, s) := by
  have hnode : node handles true belowKey (fuel + 2) ⟨.blockSequenceStart :: r, a⟩ =
      (do return Node.sequence none (← blockEntries handles fuel) : Reader Node) ⟨r, a⟩ := by
    cases belowKey <;> rfl
  rw [hnode, bind_of_eq_some h]
  rfl

theorem node_flushSequence (h : flushEntries handles fuel ⟨.entry :: r, a⟩ = some (xs, s)) :
    node handles true true (fuel + 2) ⟨.entry :: r, a⟩ = some (.sequence none xs, s) := by
  have hnode : node handles true true (fuel + 2) ⟨.entry :: r, a⟩ =
      (do return Node.sequence none (← flushEntries handles fuel) : Reader Node)
        ⟨.entry :: r, a⟩ := rfl
  rw [hnode, bind_of_eq_some h]
  rfl

theorem node_blockMapping (h : blockFields handles fuel ⟨r, a⟩ = some (es, s)) :
    node handles true belowKey (fuel + 2) ⟨.blockMappingStart :: r, a⟩ =
      some (.mapping none es, s) := by
  have hnode : node handles true belowKey (fuel + 2) ⟨.blockMappingStart :: r, a⟩ =
      (do return Node.mapping none (← blockFields handles fuel) : Reader Node) ⟨r, a⟩ := by
    cases belowKey <;> rfl
  rw [hnode, bind_of_eq_some h]
  rfl

/-- A token that a value starts with: it does not show that the value was left out. -/
structure StartsValue (belowKey : Bool) (t : Token) : Prop where
  not_end : endsBlockValue (some t) = false
  not_entry : belowKey = false → t ≠ .entry

theorem blockEntries_entry (ht : StartsValue false t)
    (hnode : node handles true false fuel ⟨t :: r, a⟩ = some (x, s))
    (hentries : blockEntries handles fuel s = some (xs, s')) :
    blockEntries handles (fuel + 1) ⟨.entry :: t :: r, a⟩ = some (x :: xs, s') := by
  have hends : endsBlockEntry (some t) = false := by
    have hentry := ht.not_entry rfl
    have hend := ht.not_end
    cases t <;> first | rfl | exact absurd rfl hentry | exact hend
  have hread : blockEntries handles (fuel + 1) ⟨.entry :: t :: r, a⟩ =
      (if endsBlockEntry (some t) then do return .empty :: (← blockEntries handles fuel)
        else do return (← node handles true false fuel) :: (← blockEntries handles fuel) :
        Reader (List Node)) ⟨t :: r, a⟩ := rfl
  rw [hread, hends, if_neg Bool.false_ne_true, bind_of_eq_some hnode, bind_of_eq_some hentries]
  rfl

theorem flushEntries_entry (ht : StartsValue false t)
    (hnode : node handles true false fuel ⟨t :: r, a⟩ = some (x, s))
    (hentries : flushEntries handles fuel s = some (xs, s')) :
    flushEntries handles (fuel + 1) ⟨.entry :: t :: r, a⟩ = some (x :: xs, s') := by
  have hends : (some t == some .entry || endsBlockValue (some t)) = false := by
    rw [ht.not_end, Bool.or_false, beq_eq_false_iff_ne]
    exact fun h => ht.not_entry rfl (Option.some.inj h)
  have hread : flushEntries handles (fuel + 1) ⟨.entry :: t :: r, a⟩ =
      (if some t == some .entry || endsBlockValue (some t) then
          do return .empty :: (← flushEntries handles fuel)
        else do return (← node handles true false fuel) :: (← flushEntries handles fuel) :
        Reader (List Node)) ⟨t :: r, a⟩ := rfl
  rw [hread, hends, if_neg Bool.false_ne_true, bind_of_eq_some hnode, bind_of_eq_some hentries]
  rfl

theorem flushEntries_stop (h : r.head? ≠ some .entry) :
    flushEntries handles (fuel + 1) ⟨r, a⟩ = some ([], ⟨r, a⟩) := by
  cases r with
  | nil => rfl
  | cons t r =>
      cases t
      case entry => exact absurd rfl h
      all_goals rfl

theorem blockValue_value (ht : StartsValue true t)
    (hnode : node handles true true fuel ⟨t :: r, a⟩ = some (x, s)) :
    blockValue handles (fuel + 1) ⟨.value :: t :: r, a⟩ = some (x, s) := by
  have hread : blockValue handles (fuel + 1) ⟨.value :: t :: r, a⟩ =
      (if endsBlockValue (some t) then pure .empty else node handles true true fuel :
        Reader Node) ⟨t :: r, a⟩ := rfl
  rw [hread, ht.not_end, if_neg Bool.false_ne_true, hnode]

theorem blockFields_key (name : String)
    (hvalue : blockValue handles (fuel + 2) ⟨r, a⟩ = some (x, s))
    (hfields : blockFields handles (fuel + 2) s = some (es, s')) :
    blockFields handles (fuel + 3) ⟨.key :: .scalar .plain name :: r, a⟩ =
      some ((.scalar none .plain name, x) :: es, s') := by
  have hread : blockFields handles (fuel + 3) ⟨.key :: .scalar .plain name :: r, a⟩ =
      (do
        let v ← blockValue handles (fuel + 2)
        return (.scalar none .plain name, v) :: (← blockFields handles (fuel + 2)) :
        Reader (List (Node × Node))) ⟨r, a⟩ := rfl
  rw [hread, bind_of_eq_some hvalue, bind_of_eq_some hfields]
  rfl

/-- The tokens of a value do not look like a value that was left out. -/
theorem exists_valueTokens_eq_cons (belowKey : Bool) (d : Data)
    (hpaths : ∀ p ∈ d.paths, p.text?.isSome) :
    ∃ t r, valueTokens belowKey d = t :: r ∧ StartsValue belowKey t := by
  match d with
  | .null => exact ⟨_, _, rfl, rfl, nofun⟩
  | .bool b => exact ⟨_, _, rfl, rfl, nofun⟩
  | .int n => exact ⟨_, _, rfl, rfl, nofun⟩
  | .text s => exact ⟨_, _, rfl, rfl, nofun⟩
  | .path p =>
      obtain ⟨s, hs⟩ := Option.isSome_iff_exists.1 (hpaths p (by simp [Data.paths]))
      exact ⟨.scalar (styleOf s) s, [], by rw [valueTokens, hs]; rfl, rfl, nofun⟩
  | .list [] => exact ⟨_, _, rfl, rfl, nofun⟩
  | .list (x :: xs) =>
      cases belowKey with
      | false => exact ⟨_, _, rfl, rfl, nofun⟩
      | true => exact ⟨_, _, rfl, rfl, nofun⟩
  | .record [] => exact ⟨_, _, rfl, rfl, nofun⟩
  | .record (f :: fields) => exact ⟨_, _, rfl, rfl, nofun⟩

theorem node_atom {d : Data} {style : Style} {text : String}
    (htokens : valueTokens belowKey d = [.scalar style text])
    (hdata : ofData d = .scalar none style text)
    (hfuel : 3 * (valueTokens belowKey d).length ≤ fuel) :
    node handles true belowKey fuel ⟨valueTokens belowKey d ++ r, a⟩ =
      some (ofData d, ⟨r, a⟩) := by
  rw [htokens] at hfuel ⊢
  obtain ⟨fuel, rfl⟩ := Nat.exists_eq_add_of_le' (Nat.le_of_succ_le hfuel)
  rw [hdata]
  exact node_scalar style text

theorem length_listTokens_cons (x : Data) (xs : List Data) :
    (listTokens (x :: xs)).length =
      (valueTokens false x).length + (listTokens xs).length + 1 := by
  simp [listTokens]

theorem length_recordTokens_cons (name : String) (x : Data) (fields : List (String × Data)) :
    (recordTokens ((name, x) :: fields)).length =
      (valueTokens true x).length + (recordTokens fields).length + 3 := by
  simp [recordTokens, fieldTokens]

theorem head?_recordTokens_ne_entry (fields : List (String × Data)) (rest : List Token) :
    (recordTokens fields ++ .blockEnd :: rest).head? ≠ some .entry := by
  cases fields <;> simp [recordTokens, fieldTokens]

mutual

/-- The tokens of a value are read as its node. A sequence that needs no tokens around its items
must not be followed by another item. -/
theorem node_valueTokens (belowKey : Bool) (d : Data) (hpaths : ∀ p ∈ d.paths, p.text?.isSome)
    {fuel : Nat} (hfuel : 3 * (valueTokens belowKey d).length ≤ fuel) (rest : List Token)
    (hrest : belowKey = true → rest.head? ≠ some .entry) (a : Anchors) :
    node handles true belowKey fuel ⟨valueTokens belowKey d ++ rest, a⟩ =
      some (ofData d, ⟨rest, a⟩) := by
  match d with
  | .null => exact node_atom rfl rfl hfuel
  | .bool b => exact node_atom rfl rfl hfuel
  | .int n => exact node_atom rfl rfl hfuel
  | .text s => exact node_atom rfl rfl hfuel
  | .path p =>
      obtain ⟨s, hs⟩ := Option.isSome_iff_exists.1 (hpaths p (by simp [Data.paths]))
      exact node_atom (by rw [valueTokens, hs]; rfl) (by rw [ofData, hs]) hfuel
  | .list [] =>
      obtain ⟨fuel, rfl⟩ := Nat.exists_eq_add_of_le' (Nat.le_of_add_left_le hfuel)
      exact node_emptyList
  | .list (x :: xs) =>
      cases belowKey with
      | false =>
          rw [valueTokens, if_neg Bool.false_ne_true] at hfuel ⊢
          rw [List.length_append, List.length_cons, List.length_singleton] at hfuel
          rw [List.cons_append, List.cons_append, List.append_assoc]
          obtain ⟨fuel, rfl⟩ := Nat.exists_eq_add_of_le' (show 2 ≤ fuel by omega)
          exact node_blockSequence (blockEntries_listTokens (x :: xs) hpaths (by omega) rest a)
      | true =>
          have hlength := length_listTokens_cons x xs
          rw [valueTokens, if_pos rfl] at hfuel ⊢
          obtain ⟨fuel, rfl⟩ := Nat.exists_eq_add_of_le' (show 3 ≤ fuel by omega)
          exact node_flushSequence
            (flushEntries_listTokens (x :: xs) hpaths hfuel rest (hrest rfl) a)
  | .record [] =>
      obtain ⟨fuel, rfl⟩ := Nat.exists_eq_add_of_le' (Nat.le_of_add_left_le hfuel)
      exact node_emptyRecord
  | .record (f :: fields) =>
      rw [valueTokens] at hfuel ⊢
      rw [List.length_append, List.length_cons, List.length_singleton] at hfuel
      rw [List.cons_append, List.cons_append, List.append_assoc]
      obtain ⟨fuel, rfl⟩ := Nat.exists_eq_add_of_le' (show 2 ≤ fuel by omega)
      exact node_blockMapping (blockFields_recordTokens (f :: fields) hpaths (by omega) rest a)

theorem blockEntries_listTokens (items : List Data)
    (hpaths : ∀ p ∈ Data.pathsOfItems items, p.text?.isSome) {fuel : Nat}
    (hfuel : 3 * (listTokens items).length < fuel) (rest : List Token) (a : Anchors) :
    blockEntries handles fuel ⟨listTokens items ++ .blockEnd :: rest, a⟩ =
      some (ofItems items, ⟨rest, a⟩) := by
  obtain ⟨fuel, rfl⟩ := Nat.exists_eq_add_one_of_ne_zero (Nat.ne_zero_of_lt hfuel)
  match items with
  | [] => rfl
  | x :: xs =>
      obtain ⟨hx, hxs⟩ := List.forall_mem_append.1 hpaths
      have hlength := length_listTokens_cons x xs
      obtain ⟨t, r, hcons, hstarts⟩ := exists_valueTokens_eq_cons false x hx
      have hnode := node_valueTokens false x hx (show _ ≤ fuel by omega)
        (listTokens xs ++ .blockEnd :: rest) nofun a
      rw [hcons] at hnode
      rw [listTokens, hcons, List.append_assoc]
      exact blockEntries_entry hstarts hnode (blockEntries_listTokens xs hxs (by omega) rest a)

theorem flushEntries_listTokens (items : List Data)
    (hpaths : ∀ p ∈ Data.pathsOfItems items, p.text?.isSome) {fuel : Nat}
    (hfuel : 3 * (listTokens items).length ≤ fuel + 3) (rest : List Token)
    (hrest : rest.head? ≠ some .entry) (a : Anchors) :
    flushEntries handles (fuel + 1) ⟨listTokens items ++ rest, a⟩ =
      some (ofItems items, ⟨rest, a⟩) := by
  match items with
  | [] => exact flushEntries_stop hrest
  | x :: xs =>
      obtain ⟨hx, hxs⟩ := List.forall_mem_append.1 hpaths
      have hlength := length_listTokens_cons x xs
      obtain ⟨t, r, hcons, hstarts⟩ := exists_valueTokens_eq_cons false x hx
      -- a value has a token, which leaves a step for the items behind it
      have hpos : 0 < (valueTokens false x).length := by simp [hcons]
      obtain ⟨fuel, rfl⟩ := Nat.exists_eq_add_one_of_ne_zero (show fuel ≠ 0 by omega)
      have hnode := node_valueTokens false x hx (show _ ≤ fuel + 1 by omega)
        (listTokens xs ++ rest) nofun a
      rw [hcons] at hnode
      rw [listTokens, hcons, List.append_assoc]
      exact flushEntries_entry hstarts hnode
        (flushEntries_listTokens xs hxs (by omega) rest hrest a)

theorem blockFields_recordTokens (fields : List (String × Data))
    (hpaths : ∀ p ∈ Data.pathsOfFields fields, p.text?.isSome) {fuel : Nat}
    (hfuel : 3 * (recordTokens fields).length < fuel) (rest : List Token) (a : Anchors) :
    blockFields handles fuel ⟨recordTokens fields ++ .blockEnd :: rest, a⟩ =
      some (ofFields fields, ⟨rest, a⟩) := by
  match fields with
  | [] =>
      obtain ⟨fuel, rfl⟩ := Nat.exists_eq_add_one_of_ne_zero (Nat.ne_zero_of_lt hfuel)
      rfl
  | (name, x) :: fields =>
      obtain ⟨hx, hfields⟩ := List.forall_mem_append.1 hpaths
      have hlength := length_recordTokens_cons name x fields
      obtain ⟨fuel, rfl⟩ := Nat.exists_eq_add_of_le' (show 3 ≤ fuel by omega)
      obtain ⟨t, r, hcons, hstarts⟩ := exists_valueTokens_eq_cons true x hx
      have hnode := node_valueTokens true x hx (show _ ≤ fuel + 1 by omega)
        (recordTokens fields ++ .blockEnd :: rest)
        (fun _ => head?_recordTokens_ne_entry fields rest) a
      rw [hcons] at hnode
      rw [recordTokens, fieldTokens, hcons, String.ofList_toList, List.append_assoc]
      exact blockFields_key name (blockValue_value hstarts hnode)
        (blockFields_recordTokens fields hfields (by omega) rest a)

end

end Reader

theorem document?_valueTokens (f : String × Data) (fields : List (String × Data))
    (hpaths : ∀ p ∈ (Data.record (f :: fields)).paths, p.text?.isSome) :
    document? (valueTokens false (.record (f :: fields))) =
      some ⟨ofData (.record (f :: fields)), {}⟩ := by
  have hfuel : 3 * (valueTokens false (.record (f :: fields))).length ≤
      4 * (valueTokens false (.record (f :: fields))).length + 8 := by omega
  have hroot : root? (valueTokens false (.record (f :: fields)) ++ []) =
      some (ofData (.record (f :: fields)), ⟨[], {}⟩) :=
    Reader.node_valueTokens false _ hpaths (by rwa [List.append_nil]) [] nofun {}
  rw [List.append_nil] at hroot
  simp [document?, hroot]

/-- A record is written, and read from what was written. -/
theorem exists_text_read? (f : String × Data) (fields : List (String × Data))
    (hpaths : ∀ p ∈ (Data.record (f :: fields)).paths, p.text?.isSome)
    (hnames : ∀ s ∈ (Data.record (f :: fields)).names, Scanner.IsFieldName s.toList) :
    ∃ text, text? (.record (f :: fields)) = some text ∧
      read? text.toList = some ⟨ofData (.record (f :: fields)), {}⟩ := by
  obtain ⟨text, htext, htokens⟩ := exists_text f fields hpaths hnames
  refine ⟨text, htext, ?_⟩
  rw [read?, htokens, Option.bind_some, document?_valueTokens f fields hpaths]

end Conformance.Yaml

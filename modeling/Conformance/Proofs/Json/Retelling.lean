import Conformance.Json.View
import Conformance.Proofs.Report.Records

/-!
# Other ways to tell a record

`Retells x y` says that `y` tells the same as the report value `x`: the members
of its objects in any order, with any further members among them and without
some that are null, or the bare list of their values. A reader that does not
notice the difference is `Indifferent`, and so is one that is put together from
such readers field by field (`Retells.exists_fields`, `Retold.required`).

`Spoilt omissible x y` says that `y` looks like `x` except that somewhere a known
member stands more than once, or one that may not be left out does not stand at all.
Nothing is asked of its other members. The reader of a record refuses it
(`Spoilt.exists_unusable`, `Unusable.required`).
-/

namespace Conformance.Json

variable {β : Type} {x y : Json} {fields fs : Fields Json} {k : String} {read : Json → Option β}

/-- `y` tells the same as `x`. -/
inductive Retells : Json → Json → Prop
  | null : Retells .null .null
  | bool (b : Bool) : Retells (.bool b) (.bool b)
  | number (n : Number) : Retells (.number n) (.number n)
  | string (s : Option String) : Retells (.string s) (.string s)
  | array {xs ys : List Json} (hlength : ys.length = xs.length)
      (h : ∀ p ∈ xs.zip ys, Retells p.1 p.2) : Retells (.array xs) (.array ys)
  | bare {fields : List (Option String × Json)} {ys : List Json}
      (hlength : ys.length = fields.length) (h : ∀ p ∈ fields.zip ys, Retells p.1.2 p.2) :
      Retells (.object fields) (.array ys)
  | object {fields members : List (Option String × Json)} (hnamed : ∀ m ∈ members, m.1.isSome)
      (honce : ∀ f ∈ fields, members.countP (·.1 = f.1) ≤ 1)
      (habsent : ∀ f ∈ fields, (∀ m ∈ members, m.1 ≠ f.1) → f.2 = .null)
      (h : ∀ f ∈ fields, ∀ m ∈ members, m.1 = f.1 → Retells f.2 m.2) :
      Retells (.object fields) (.object members)

/-- `y` looks like `x`, but a known member is repeated or, unless its name is one of `omissible`,
missing. -/
inductive Spoilt (omissible : List String) : Json → Json → Prop
  | item {xs ys : List Json} {i : Nat} {x y : Json} (hx : xs[i]? = some x) (hy : ys[i]? = some y)
      (h : Spoilt omissible x y) : Spoilt omissible (.array xs) (.array ys)
  | bareField {fields : List (Option String × Json)} {ys : List Json} {i : Nat}
      {f : Option String × Json} {y : Json} (hf : fields[i]? = some f) (hy : ys[i]? = some y)
      (h : Spoilt omissible f.2 y) : Spoilt omissible (.object fields) (.array ys)
  | field {fields members : List (Option String × Json)} {f : Option String × Json} {y : Json}
      (hf : f ∈ fields) (hy : (f.1, y) ∈ members) (h : Spoilt omissible f.2 y) :
      Spoilt omissible (.object fields) (.object members)
  | repeated {fields members : List (Option String × Json)} {f : Option String × Json}
      (hf : f ∈ fields) (h : 2 ≤ members.countP (·.1 = f.1)) :
      Spoilt omissible (.object fields) (.object members)
  | missing {fields members : List (Option String × Json)} {k : String} {x : Json}
      (hf : (some k, x) ∈ fields) (hk : k ∉ omissible) (h : ∀ m ∈ members, m.1 ≠ some k) :
      Spoilt omissible (.object fields) (.object members)

/-- A value that is no record, no list and not null. -/
def isLeaf : Json → Bool
  | .bool _ => true
  | .number _ => true
  | .string _ => true
  | .null => false
  | .array _ => false
  | .object _ => false

theorem Retells.eq_of_isLeaf (h : Retells x y) (hx : x.isLeaf = true) : y = x := by
  cases h <;> first | rfl | cases hx

theorem Retells.eq_of_null (h : Retells .null y) : y = .null := by
  cases h
  rfl

/-- The reader gives the same for everything that tells the same. -/
def Indifferent (read : Json → Option β) (x : Json) : Prop := ∀ y, Retells x y → read y = read x

theorem indifferent_of_isLeaf (hx : x.isLeaf = true) : Indifferent read x := by
  intro y h
  rw [h.eq_of_isLeaf hx]

def ofNamed (fields : Fields Json) : List (Option String × Json) :=
  fields.map fun f => (some f.1, f.2)

theorem members_ofNamed (fs : Fields Json) : members (ofNamed fs) = some fs := by
  induction fs with
  | nil => rfl
  | cons f fs ih =>
      have hcons : ofNamed (f :: fs) = (some f.1, f.2) :: ofNamed fs := rfl
      rw [hcons, members, ih, Option.map_some]

theorem exists_ofNamed {ms : List (Option String × Json)} (h : ∀ m ∈ ms, m.1.isSome) :
    ∃ fs, ms = ofNamed fs := by
  induction ms with
  | nil => exact ⟨[], rfl⟩
  | cons m ms ih =>
      obtain ⟨hm, hms⟩ := List.forall_mem_cons.1 h
      obtain ⟨fs, rfl⟩ := ih hms
      obtain ⟨k, hk⟩ := Option.isSome_iff_exists.1 hm
      exact ⟨(k, m.2) :: fs, by rw [← Prod.eta m, hk]; rfl⟩

theorem isSome_of_members {ms : List (Option String × Json)} (h : members ms = some fs) :
    ∀ m ∈ ms, m.1.isSome := by
  induction ms generalizing fs with
  | nil => simp
  | cons m ms ih =>
      obtain ⟨_ | k, x⟩ := m
      · cases h
      · obtain ⟨fs, hfs, -⟩ := Option.map_eq_some_iff.1 h
        exact List.forall_mem_cons.2 ⟨rfl, ih hfs⟩

theorem eq_ofNamed_of_members {ms : List (Option String × Json)} (h : members ms = some fs) :
    ms = ofNamed fs := by
  obtain ⟨fs', rfl⟩ := exists_ofNamed (isSome_of_members h)
  rw [members_ofNamed] at h
  cases h
  rfl

theorem mem_ofNamed {x : Json} : (some k, x) ∈ ofNamed fs ↔ (k, x) ∈ fs := by
  simp [ofNamed]

theorem countP_ofNamed (fs : Fields Json) (k : String) :
    (ofNamed fs).countP (·.1 = some k) = fs.countP (·.1 = k) := by
  simp [ofNamed, List.countP_map, Function.comp_def]

/-- The fields found are those of the record: each is there once, or it is null and not there. -/
structure Retold (fields fs : Fields Json) : Prop where
  nodup : (fields.map (·.1)).Nodup
  found : ∀ f ∈ fields, (∃ y, Fields.occurrence f.1 fs = .once y ∧ Retells f.2 y) ∨
    (Fields.occurrence f.1 fs = .never ∧ f.2 = .null)

/-- The fields of a bare list have their names by their places. -/
theorem fields?_bare {ys : List Json} (hlength : ys.length = fields.length) :
    fields? (fields.map (·.1)) 0 (.array ys) = some ((fields.map (·.1)).zip ys) := by
  rw [fields?, positionalFields, if_pos]
  simp [hlength]

theorem occurrence_bare {ys : List Json} (hlength : ys.length = fields.length)
    (hnodup : (fields.map (·.1)).Nodup) {i : Nat} {f : String × Json} {y : Json}
    (hf : fields[i]? = some f) (hy : ys[i]? = some y) :
    Fields.occurrence f.1 ((fields.map (·.1)).zip ys) = .once y := by
  have hnames : ((fields.map (·.1)).zip ys).map (·.1) = fields.map (·.1) :=
    List.map_fst_zip (by simp [hlength])
  refine Fields.occurrence_of_nodup (by rwa [hnames]) (List.mem_of_getElem? (i := i) ?_)
  rw [List.getElem?_zip_eq_some]
  exact ⟨by rw [List.getElem?_map, hf, Option.map_some], hy⟩

theorem Retells.exists_fields (h : Retells (.object (ofNamed fields)) y)
    (hnodup : (fields.map (·.1)).Nodup) :
    ∃ fs, fields? (fields.map (·.1)) 0 y = some fs ∧ Retold fields fs := by
  -- a bare list has every field at its place, an object has a field once or lacks a null
  cases h with
  | @bare _ ys hlength h =>
      have hlength' := hlength.trans (List.length_map _)
      refine ⟨_, fields?_bare hlength', hnodup, fun f hf => .inl ?_⟩
      obtain ⟨i, hi⟩ := List.mem_iff_getElem?.1 hf
      obtain ⟨y, hy⟩ : ∃ y, ys[i]? = some y := by
        have hlt := (List.getElem?_eq_some_iff.1 hi).1
        exact ⟨_, List.getElem?_eq_getElem (hlength' ▸ hlt)⟩
      refine ⟨y, occurrence_bare hlength' hnodup hi hy, h ((some f.1, f.2), y) ?_⟩
      refine List.mem_of_getElem? (i := i) ?_
      rw [List.getElem?_zip_eq_some]
      exact ⟨by rw [ofNamed, List.getElem?_map, hi, Option.map_some], hy⟩
  | object hnamed honce habsent h =>
      obtain ⟨fs, rfl⟩ := exists_ofNamed hnamed
      refine ⟨fs, members_ofNamed fs, hnodup, fun f hf => ?_⟩
      have hf' : (some f.1, f.2) ∈ ofNamed fields := mem_ofNamed.2 hf
      cases hoccurrence : Fields.occurrence f.1 fs with
      | never =>
          refine .inr ⟨rfl, habsent _ hf' fun m hm hk => ?_⟩
          obtain ⟨g, hg, rfl⟩ := List.mem_map.1 hm
          exact Fields.occurrence_eq_never_iff.1 hoccurrence g hg (Option.some.inj hk)
      | once y =>
          have hy : (f.1, y) ∈ fs := (Fields.mem_iff_of_occurrence_eq_once hoccurrence).2 rfl
          exact .inl ⟨y, rfl, h _ hf' _ (mem_ofNamed.2 hy) rfl⟩
      | repeatedly =>
          have htwice := Fields.occurrence_eq_repeatedly_iff.1 hoccurrence
          have hcount := honce _ hf'
          rw [countP_ofNamed] at hcount
          omega

section Readers

variable {omissible : List String} {xs : List Json}

theorem Retold.required (h : Retold fields fs) (hx : (k, x) ∈ fields) (hnull : x ≠ .null)
    (hread : Indifferent read x) : Fields.required fs k read = Fields.required fields k read := by
  have hself : Fields.occurrence k fields = .once x := Fields.occurrence_of_nodup h.nodup hx
  obtain ⟨y, hy, hretells⟩ | ⟨-, hx⟩ := h.found _ hx
  · simp only [Fields.required, hy, hself, hread y hretells]
  · exact absurd hx hnull

theorem Retold.required_leaf (h : Retold fields fs) (read : Json → Option β)
    (hx : (k, x) ∈ fields) (hleaf : x.isLeaf = true) :
    Fields.required fs k read = Fields.required fields k read := by
  refine h.required hx ?_ (indifferent_of_isLeaf hleaf)
  rintro rfl
  cases hleaf

theorem Retold.optional (h : Retold fields fs) (read : Json → Option β) (hx : (k, x) ∈ fields)
    (hleaf : x = .null ∨ x.isLeaf = true) :
    Fields.optional view fs k read = Fields.optional view fields k read := by
  have hself : Fields.occurrence k fields = .once x := Fields.occurrence_of_nodup h.nodup hx
  obtain ⟨y, hy, hretells⟩ | ⟨hnever, hnull⟩ := h.found _ hx
  · have hyx : y = x := by
      rcases hleaf with rfl | hleaf
      · exact hretells.eq_of_null
      · exact hretells.eq_of_isLeaf hleaf
    simp only [Fields.optional, Fields.withDefault, hy, hself, hyx]
  · obtain rfl : x = .null := hnull
    simp only [Fields.optional, Fields.withDefault, hnever, hself]
    rfl

theorem mapM_eq_of_zip {ys : List Json} (hlength : ys.length = xs.length)
    (h : ∀ p ∈ xs.zip ys, read p.2 = read p.1) : ys.mapM read = xs.mapM read := by
  induction xs generalizing ys with
  | nil => rw [List.length_eq_zero_iff.1 hlength]
  | cons x xs ih =>
      obtain ⟨y, ys, rfl⟩ := List.exists_cons_of_length_eq_add_one hlength
      obtain ⟨hx, hxs⟩ := List.forall_mem_cons.1 h
      rw [List.mapM_cons, List.mapM_cons, ih (Nat.succ.inj hlength) hxs]
      rw [show read y = read x from hx]

theorem indifferent_list (h : ∀ x ∈ xs, Indifferent read x) :
    Indifferent (fun a => (view.list? a).bind fun items => items.mapM read) (.array xs) := by
  intro y hy
  cases hy with
  | array hlength hzip =>
      exact mapM_eq_of_zip hlength fun p hp => h _ (List.of_mem_zip hp).1 _ (hzip p hp)

/-- The field is repeated, missing though it may not be left out, or spoilt itself. -/
def Unusable (omissible : List String) (fs : Fields Json) (f : String × Json) : Prop :=
  Fields.occurrence f.1 fs = .repeatedly ∨
    (Fields.occurrence f.1 fs = .never ∧ f.1 ∉ omissible) ∨
    ∃ y, Fields.occurrence f.1 fs = .once y ∧ Spoilt omissible f.2 y

/-- Nothing that is spoilt is read. -/
def Refuses (omissible : List String) (read : Json → Option β) (x : Json) : Prop :=
  ∀ y, Spoilt omissible x y → read y = none

theorem not_spoilt_of_isLeaf (hx : x.isLeaf = true) : ¬ Spoilt omissible x y := by
  intro h
  cases h <;> cases hx

theorem not_spoilt_null : ¬ Spoilt omissible .null y := nofun

theorem refuses_of_isLeaf (hx : x.isLeaf = true) : Refuses omissible read x :=
  fun _ h => absurd h (not_spoilt_of_isLeaf hx)

theorem Unusable.required (h : Unusable omissible fs (k, x)) (hread : Refuses omissible read x) :
    Fields.required fs k read = none := by
  obtain hoccurrence | ⟨hoccurrence, -⟩ | ⟨y, hoccurrence, hspoilt⟩ := h
  · simp only [Fields.required, hoccurrence]
  · simp only [Fields.required, hoccurrence]
  · simp only [Fields.required, hoccurrence, hread y hspoilt]

theorem Unusable.required_leaf (h : Unusable omissible fs (k, x)) (read : Json → Option β)
    (hleaf : x.isLeaf = true) : Fields.required fs k read = none :=
  h.required (refuses_of_isLeaf hleaf)

theorem Unusable.optional (h : Unusable omissible fs (k, x)) (read : Json → Option β)
    (hk : k ∈ omissible) (hleaf : x = .null ∨ x.isLeaf = true) :
    Fields.optional view fs k read = none := by
  obtain hoccurrence | ⟨-, hrequired⟩ | ⟨y, -, hspoilt⟩ := h
  · simp only [Fields.optional_eq, Fields.withDefault, hoccurrence]
  · exact absurd hk hrequired
  · rcases hleaf with rfl | hleaf
    · exact absurd hspoilt not_spoilt_null
    · exact absurd hspoilt (not_spoilt_of_isLeaf hleaf)

theorem Spoilt.exists_unusable (h : Spoilt omissible (.object (ofNamed fields)) y)
    (hnodup : (fields.map (·.1)).Nodup) (hfs : fields? (fields.map (·.1)) 0 y = some fs) :
    ∃ f ∈ fields, Unusable omissible fs f := by
  cases h with
  | @bareField _ ys i f y hf hy h =>
      obtain ⟨g, hg, rfl⟩ : ∃ g, fields[i]? = some g ∧ (some g.1, g.2) = f := by
        rwa [ofNamed, List.getElem?_map, Option.map_eq_some_iff] at hf
      have hlength : ys.length = fields.length := by
        rw [fields?, positionalFields] at hfs
        split at hfs
        next hlengths =>
            rw [List.length_map] at hlengths
            omega
        next => cases hfs
      rw [fields?_bare hlength] at hfs
      cases hfs
      exact ⟨g, List.mem_of_getElem? hg, .inr (.inr ⟨y, occurrence_bare hlength hnodup hg hy, h⟩)⟩
  | @field _ members f y hf hy h =>
      obtain ⟨g, hg, rfl⟩ := List.mem_map.1 hf
      rw [eq_ofNamed_of_members hfs, mem_ofNamed] at hy
      refine ⟨g, hg, ?_⟩
      cases hoccurrence : Fields.occurrence g.1 fs with
      | never => exact absurd rfl (Fields.occurrence_eq_never_iff.1 hoccurrence (g.1, y) hy)
      | once z =>
          rw [(Fields.mem_iff_of_occurrence_eq_once hoccurrence).1 hy] at h
          exact .inr (.inr ⟨z, hoccurrence, h⟩)
      | repeatedly => exact .inl hoccurrence
  | @repeated _ members f hf h =>
      obtain ⟨g, hg, rfl⟩ := List.mem_map.1 hf
      rw [eq_ofNamed_of_members hfs, countP_ofNamed] at h
      exact ⟨g, hg, .inl (Fields.occurrence_eq_repeatedly_iff.2 h)⟩
  | @missing _ members k x hf hk h =>
      rw [eq_ofNamed_of_members hfs] at h
      refine ⟨(k, x), mem_ofNamed.1 hf, .inr (.inl ⟨?_, hk⟩)⟩
      refine Fields.occurrence_eq_never_iff.2 fun f hf heq => ?_
      exact h (some f.1, f.2) (mem_ofNamed.2 hf) (congrArg some heq)

theorem mapM_eq_none {ys : List Json} (hy : y ∈ ys) (h : read y = none) : ys.mapM read = none := by
  induction ys with
  | nil => cases hy
  | cons z ys ih =>
      rcases List.mem_cons.1 hy with rfl | hys
      · rw [List.mapM_cons, h]
        rfl
      · rw [List.mapM_cons, ih hys]
        cases read z <;> rfl

theorem refuses_list (h : ∀ x ∈ xs, Refuses omissible read x) :
    Refuses omissible (fun a => (view.list? a).bind fun items => items.mapM read) (.array xs) := by
  intro y hy
  cases hy with
  | item hx hy hspoilt =>
      exact mapM_eq_none (List.mem_of_getElem? hy) (h _ (List.mem_of_getElem? hx) _ hspoilt)

end Readers

end Conformance.Json

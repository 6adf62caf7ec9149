import Conformance.CommandLine
import Conformance.Proofs.Number.Digits
import Conformance.Proofs.Text.Utf8
import Mathlib.Data.List.Perm.Subperm
import Mathlib.Data.List.TakeWhile

/-!
# Settings in any order

A setting is written as one token (`Setting.token`): the long name of its option
and, behind an equals sign, its value. Such tokens never leave an option pending,
so each is settled where it stands, and a command line of them is refused only
for an option that is given twice (`options_map_token`).

`Spells` says how the settings of a `run` command may be arranged. The order of
different options does not matter, that of the filters does, and a setting that
is the default may be left out.
-/

namespace Conformance.CommandLine

def Setting.token : Setting → Bytes
  | .flag k => separator ++ Utf8.encode k.long
  | .text k value => separator ++ Utf8.encode k.long ++ equals :: Utf8.encode value
  | .count k n =>
    separator ++ Utf8.encode k.long ++ equals :: Utf8.encode (Decimal.natText n.toNat)

/-- The setting has a value of the kind that its option takes. -/
inductive Setting.Fits : Setting → Prop where
  | flag {k : Key} (h : k.takesValue = false) (hhelp : k ≠ .help) (hversion : k ≠ .version) :
      Fits (.flag k)
  | text {k : Key} (value : String) (h : k.takesValue = true) (hcount : k ≠ .concurrent) :
      Fits (.text k value)
  | count (n : UInt64) : Fits (.count .concurrent n)

/-- No option is given twice, except those that may be repeated. -/
def Once (settings : List Setting) : Prop :=
  ((settings.map Setting.key).filter fun k => !k.isRepeatable).Nodup

variable {keys : List Key} {found items : List Setting} {s : Setting} {a : RunArguments}
  {verbose : Bool} {front behind : List Setting}

theorem encode_injective {x y : String} (h : Utf8.encode x = Utf8.encode y) : x = y := by
  have hdecode := congrArg Utf8.decode? h
  rwa [Utf8.decode?_encode, Utf8.decode?_encode, Option.some.injEq] at hdecode

theorem Key.long_injective {k k' : Key} (h : k.long = k'.long) : k = k' := by
  cases k <;> cases k' <;> first | rfl | simp [long] at h

theorem equals_notMem_long (k : Key) : equals ∉ Utf8.encode k.long := by
  cases k <;> decide

theorem ne_equals_of_mem_long (k : Key) : ∀ b ∈ Utf8.encode k.long, (b != equals) = true := by
  intro b hb
  rw [bne_iff_ne]
  rintro rfl
  exact equals_notMem_long k hb

theorem encode_long_ne_nil (k : Key) : Utf8.encode k.long ≠ [] := by
  cases k <;> decide

theorem find?_long {k : Key} (h : k ∈ keys) :
    (keys.find? fun k' => Utf8.encode k'.long == Utf8.encode k.long) = some k := by
  cases hfind : keys.find? fun k' => Utf8.encode k'.long == Utf8.encode k.long with
  | none => simpa using List.find?_eq_none.1 hfind k h
  | some k' =>
      have hlong := List.find?_some hfind
      rw [beq_iff_eq] at hlong
      rw [Key.long_injective (encode_injective hlong)]

theorem word?_natText (n : UInt64) : word? (Decimal.natText n.toNat).toList = some n := by
  have hdigits : ∀ c ∈ Nat.toDigits 10 n.toNat, Decimal.isDigit c = true :=
    fun c => Decimal.isDigit_of_mem_toDigits
  have hvalue := Decimal.value_toDigits n.toNat
  obtain ⟨c, cs, hcs, hc⟩ := Decimal.exists_toDigits_eq_cons n.toNat
  rw [Decimal.natText, String.toList_ofList]
  rw [hcs] at hdigits hvalue ⊢
  have hsign : c ≠ '+' := by
    rintro rfl
    cases hc
  have hword : Word.unsigned? (Decimal.value (c :: cs)) = some n := by
    rw [hvalue, Word.unsigned?, if_pos n.toNat_lt, UInt64.ofNat_toNat]
  unfold word?
  split
  next heq => exact absurd (List.cons.inj heq).1 hsign
  next =>
      have hall : (c :: cs).all Decimal.isDigit = true := List.all_eq_true.2 hdigits
      simp only [ne_eq, reduceCtorEq, not_false_eq_true, decide_true, hall, Bool.and_self, if_true,
        hword]

theorem now_of_checked {k : Key} {value : Bytes} (hvalue : k.takesValue = true)
    (hchecked : checked k value = .ok s) (found : List Setting) :
    State.now { found } k (some value) =
      if !k.isRepeatable && found.any (·.key = k) then .error .argumentConflict
      else .ok { found := found ++ [s] } := by
  have hhelp : k ≠ .help := by
    rintro rfl
    cases hvalue
  have hversion : k ≠ .version := by
    rintro rfl
    cases hvalue
  simp only [State.now, State.settled, settle, hhelp, hversion, if_false, Option.isNone_some,
    Bool.and_false, hchecked, Bool.false_eq_true]
  split <;> rfl

theorem now_flag {k : Key} (h : k.takesValue = false) (hhelp : k ≠ .help)
    (hversion : k ≠ .version) (found : List Setting) :
    State.now { found } k none =
      if !k.isRepeatable && found.any (·.key = k) then .error .argumentConflict
      else .ok { found := found ++ [.flag k] } := by
  simp only [State.now, State.settled, settle, hhelp, hversion, if_false, h, Bool.false_and,
    Bool.false_eq_true]
  split <;> rfl

/-- A long option is cut at the first equals sign, so a value may hold others. -/
theorem longOption_value {k : Key} (hmem : k ∈ keys) (hvalue : k.takesValue = true)
    (state : State) (value : Bytes) :
    longOption keys state (Utf8.encode k.long ++ equals :: value) = state.now k (some value) := by
  have hname := ne_equals_of_mem_long k
  simp only [longOption, List.takeWhile_append_of_pos hname, List.dropWhile_append_of_pos hname]
  simp [find?_long hmem, hvalue]

theorem longOption_flag {k : Key} (hmem : k ∈ keys) (h : k.takesValue = false) (state : State) :
    longOption keys state (Utf8.encode k.long) = state.now k none := by
  have hname := ne_equals_of_mem_long k
  simp [longOption, List.takeWhile_eq_self_iff.2 hname, List.dropWhile_eq_nil_iff.2 hname,
    find?_long hmem, h]

theorem token_token (h : s.Fits) (hmem : s.key ∈ keys) (found : List Setting) :
    token keys { found } s.token =
      if !s.key.isRepeatable && found.any (·.key = s.key) then .error .argumentConflict
      else .ok { found := found ++ [s] } := by
  cases h with
  | flag h hhelp hversion =>
      exact (longOption_flag hmem h _).trans (now_flag h hhelp hversion found)
  | @text k value h hcount =>
      refine (longOption_value hmem h _ _).trans (now_of_checked h ?_ found)
      simp [checked, Utf8.decode?_encode, hcount]
  | count n =>
      refine (longOption_value hmem rfl _ _).trans (now_of_checked rfl ?_ found)
      simp [checked, Utf8.decode?_encode, word?_natText, Setting.key]

theorem token_ne_separator (s : Setting) : s.token ≠ separator := by
  cases s with
  | flag k => simpa [Setting.token] using encode_long_ne_nil k
  | text k value => simp [Setting.token]
  | count k n => simp [Setting.token]

theorem once_append_singleton (hfound : Once found) :
    Once (found ++ [s]) ↔ (!s.key.isRepeatable && found.any (·.key = s.key)) = false := by
  unfold Once at hfound ⊢
  rw [List.map_append, List.filter_append]
  cases hrepeat : s.key.isRepeatable with
  | true => simp [hrepeat, hfound]
  | false =>
      simp only [List.map_cons, List.map_nil, hrepeat, Bool.not_false, List.filter_cons_of_pos,
        List.filter_nil, Bool.true_and]
      rw [(List.perm_append_singleton s.key _).nodup_iff, List.nodup_cons, and_iff_left hfound,
        List.mem_filter, List.mem_map, List.any_eq_false, hrepeat]
      simp

theorem Once.of_append (h : Once (found ++ items)) : Once found := by
  unfold Once at h ⊢
  rw [List.map_append, List.filter_append] at h
  exact (List.nodup_append.1 h).1

theorem once_perm (h : found.Perm items) : Once found ↔ Once items :=
  ((h.map Setting.key).filter _).nodup_iff

open Classical in
/-- Tokens are settled in turn, and only a repeated option is refused. -/
theorem options_map_token (hitems : ∀ s ∈ items, s.Fits ∧ s.key ∈ keys) (hfound : Once found) :
    options keys { found } (items.map Setting.token) =
      if Once (found ++ items) then .ok (found ++ items) else .error .argumentConflict := by
  induction items generalizing found with
  | nil =>
      rw [List.append_nil, if_pos hfound]
      rfl
  | cons s items ih =>
      obtain ⟨⟨hfits, hmem⟩, hrest⟩ := List.forall_mem_cons.1 hitems
      have hsplit : found ++ s :: items = found ++ [s] ++ items := by simp
      have hseparator : (s.token == separator) = false :=
        beq_eq_false_iff_ne.2 (token_ne_separator s)
      rw [List.map_cons, options, hseparator, token_token hfits hmem, hsplit]
      cases hconflict : !s.key.isRepeatable && found.any (·.key = s.key) with
      | true =>
          have hnot : ¬ Once (found ++ [s] ++ items) := by
            intro honce
            rw [(once_append_singleton hfound).1 honce.of_append] at hconflict
            cases hconflict
          rw [if_neg hnot]
          rfl
      | false => exact ih hrest ((once_append_singleton hfound).2 hconflict)

/-- The tokens of a command line for a `run` command: what stands in front of the command and what
stands behind it. -/
def tokens (front behind : List Setting) : List Bytes :=
  front.map Setting.token ++ Utf8.encode "run" :: behind.map Setting.token

def settingsOf (a : RunArguments) (verbose : Bool) : List Setting :=
  (if a.parallel then [Setting.flag .parallel] else []) ++
    [Setting.count .concurrent a.concurrent, Setting.text .format a.format,
      Setting.text .extension a.extension] ++
    a.output.toList.map (Setting.text .output) ++
    (if a.noColor then [Setting.flag .noColor] else []) ++
    if verbose then [Setting.flag .verbose] else []

/-- The settings are those of a `run` command in some order. -/
structure Spells (front behind : List Setting) (a : RunArguments) (verbose : Bool) : Prop where
  /-- Only the verbosity can be given in front of the command. -/
  inFront : ∀ s ∈ front, s = .flag .verbose
  /-- Every option is given at most once, and as it is to be set. -/
  given : ((front ++ behind).filter fun s => s.key ≠ .filter).Subperm (settingsOf a verbose)
  /-- What is left out is the default. -/
  omitted : ∀ s ∈ settingsOf a verbose, s ∈ front ++ behind ∨ s ∈ settingsOf {} false
  /-- The filters keep their order. -/
  filters : (behind.filter fun s => s.key = .filter) = a.filter.map (.text .filter)

theorem flag_mem_settingsOf {k : Key} : .flag k ∈ settingsOf a verbose ↔
    (k = .parallel ∧ a.parallel = true) ∨ (k = .noColor ∧ a.noColor = true) ∨
      (k = .verbose ∧ verbose = true) := by
  simp only [settingsOf]
  cases a.parallel <;> cases a.noColor <;> cases verbose <;> simp

theorem text_mem_settingsOf {k : Key} {value : String} : .text k value ∈ settingsOf a verbose ↔
    (k = .format ∧ value = a.format) ∨ (k = .extension ∧ value = a.extension) ∨
      (k = .output ∧ a.output = some value) := by
  simp only [settingsOf]
  cases a.parallel <;> cases a.noColor <;> cases verbose <;> simp [eq_comm, and_comm]

theorem count_mem_settingsOf {k : Key} {n : UInt64} : .count k n ∈ settingsOf a verbose ↔
    k = .concurrent ∧ n = a.concurrent := by
  simp only [settingsOf]
  cases a.parallel <;> cases a.noColor <;> cases verbose <;> simp

theorem nodup_keys_settingsOf (a : RunArguments) (verbose : Bool) :
    ((settingsOf a verbose).map Setting.key).Nodup := by
  simp only [settingsOf]
  cases a.parallel <;> cases a.output <;> cases a.noColor <;> cases verbose <;>
    simp [Setting.key]

theorem fits_of_mem_settingsOf (h : s ∈ settingsOf a verbose) : s.Fits ∧ s.key ∈ runKeys := by
  cases s with
  | flag k =>
      rcases flag_mem_settingsOf.1 h with ⟨rfl, -⟩ | ⟨rfl, -⟩ | ⟨rfl, -⟩ <;>
        exact ⟨.flag rfl (by decide) (by decide), by simp [Setting.key, runKeys]⟩
  | text k value =>
      rcases text_mem_settingsOf.1 h with ⟨rfl, -⟩ | ⟨rfl, -⟩ | ⟨rfl, -⟩ <;>
        exact ⟨.text value rfl (by decide), by simp [Setting.key, runKeys]⟩
  | count k n =>
      obtain ⟨rfl, -⟩ := count_mem_settingsOf.1 h
      exact ⟨.count n, by simp [Setting.key, runKeys]⟩

theorem mem_texts {k : Key} {value : String} : value ∈ texts found k ↔ .text k value ∈ found := by
  rw [texts, List.mem_filterMap]
  constructor
  · rintro ⟨s, hs, hvalue⟩
    cases s with
    | text k' value' =>
        obtain ⟨rfl, hsame⟩ := Option.ite_none_right_eq_some.1 hvalue
        cases hsame
        exact hs
    | flag k' => cases hvalue
    | count k' n => cases hvalue
  · exact fun hs => ⟨_, hs, if_pos rfl⟩

theorem mem_counts {k : Key} {n : UInt64} : n ∈ counts found k ↔ .count k n ∈ found := by
  rw [counts, List.mem_filterMap]
  constructor
  · rintro ⟨s, hs, hn⟩
    cases s with
    | count k' n' =>
        obtain ⟨rfl, hsame⟩ := Option.ite_none_right_eq_some.1 hn
        cases hsame
        exact hs
    | flag k' => cases hn
    | text k' value => cases hn
  · exact fun hs => ⟨_, hs, if_pos rfl⟩

theorem texts_filter (found : List Setting) (k : Key) :
    texts (found.filter fun s => s.key = k) k = texts found k := by
  rw [texts, texts, List.filterMap_filter]
  congr 1
  funext s
  cases s with
  | text k' value => by_cases hk : k' = k <;> simp [Setting.key, hk]
  | flag k' => simp
  | count k' n => simp

theorem texts_map_text (k : Key) (values : List String) :
    texts (values.map (.text k)) k = values := by
  rw [texts, List.filterMap_map]
  simp

theorem head?_getD_eq {α : Type} {l : List α} {x default : α} (hmem : ∀ y ∈ l, y = x)
    (hnil : l = [] → default = x) : l.head?.getD default = x := by
  cases l with
  | nil => exact hnil rfl
  | cons y l => exact hmem y List.mem_cons_self

namespace Spells

theorem mem_settingsOf (h : Spells front behind a verbose) (hs : s ∈ front ++ behind)
    (hkey : s.key ≠ .filter) : s ∈ settingsOf a verbose :=
  h.given.subset (List.mem_filter.2 ⟨hs, by simpa using hkey⟩)

theorem eq_text_of_mem (h : Spells front behind a verbose) (hs : s ∈ behind)
    (hkey : s.key = .filter) : ∃ value, s = .text .filter value := by
  have hmem : s ∈ a.filter.map (.text .filter) := by
    rw [← h.filters]
    exact List.mem_filter.2 ⟨hs, by simpa using hkey⟩
  obtain ⟨value, -, rfl⟩ := List.mem_map.1 hmem
  exact ⟨value, rfl⟩

theorem fits (h : Spells front behind a verbose) (hs : s ∈ behind) :
    s.Fits ∧ s.key ∈ runKeys := by
  by_cases hkey : s.key = .filter
  · obtain ⟨value, rfl⟩ := h.eq_text_of_mem hs hkey
    exact ⟨.text value rfl (by decide), by simp [Setting.key, runKeys]⟩
  · exact fits_of_mem_settingsOf (h.mem_settingsOf (List.mem_append_right _ hs) hkey)

theorem nodup_keys (h : Spells front behind a verbose) :
    (((front ++ behind).filter fun s => s.key ≠ .filter).map Setting.key).Nodup := by
  obtain ⟨shown, hperm, hsublist⟩ := h.given
  refine (hperm.map Setting.key).nodup_iff.1 ?_
  exact (nodup_keys_settingsOf a verbose).sublist (hsublist.map Setting.key)

theorem once (h : Spells front behind a verbose) : Once behind := by
  have hnodup := h.nodup_keys
  rw [List.filter_append, List.map_append] at hnodup
  have hkeys : (behind.map Setting.key).filter (fun k => !k.isRepeatable) =
      (behind.filter fun s => s.key ≠ .filter).map Setting.key := by
    rw [List.filter_map]
    congr 2
    funext s
    cases hkey : s.key <;> simp [hkey, Key.isRepeatable]
  rw [Once, hkeys]
  exact (List.nodup_append.1 hnodup).2.1

theorem front_cases (h : Spells front behind a verbose) :
    front = [] ∨ front = [.flag .verbose] := by
  have hnodup := h.nodup_keys
  cases front with
  | nil => exact .inl rfl
  | cons s front =>
      obtain ⟨rfl, hrest⟩ := List.forall_mem_cons.1 h.inFront
      cases front with
      | nil => exact .inr rfl
      | cons s front =>
          obtain ⟨rfl, -⟩ := List.forall_mem_cons.1 hrest
          simp [Setting.key] at hnodup

/-- What is to be set otherwise than by default is given behind the command, the verbosity apart. -/
theorem mem_behind (h : Spells front behind a verbose) (hs : s ∈ settingsOf a verbose)
    (hdefault : s ∉ settingsOf {} false) (hne : s ≠ .flag .verbose) : s ∈ behind := by
  rcases List.mem_append.1 ((h.omitted s hs).resolve_right hdefault) with hfront | hbehind
  · exact absurd (h.inFront s hfront) hne
  · exact hbehind

theorem hasFlag_eq (h : Spells front behind a verbose) {k : Key} {b : Bool}
    (hflag : .flag k ∈ settingsOf a verbose ↔ b = true) (hfilter : k ≠ .filter)
    (hverbose : k ≠ .verbose) : hasFlag behind k = b := by
  have hdefault : .flag k ∉ settingsOf {} false := by simp [flag_mem_settingsOf]
  rw [Bool.eq_iff_iff, ← hflag, hasFlag, List.contains_iff_mem]
  constructor
  · exact fun hmem => h.mem_settingsOf (List.mem_append_right _ hmem) hfilter
  · exact fun hmem => h.mem_behind hmem hdefault (by simpa using hverbose)

theorem text_eq (h : Spells front behind a verbose) {k : Key} {value default : String}
    (hvalue : ∀ v, .text k v ∈ settingsOf a verbose ↔ v = value)
    (hdefault : ∀ v, .text k v ∈ settingsOf {} false ↔ v = default) (hfilter : k ≠ .filter) :
    (texts behind k).head?.getD default = value := by
  refine head?_getD_eq (fun v hv => ?_) (fun hnil => ?_)
  · exact (hvalue v).1 (h.mem_settingsOf (List.mem_append_right _ (mem_texts.1 hv)) hfilter)
  · by_contra hne
    have hmem : .text k value ∈ behind := by
      refine h.mem_behind ((hvalue value).2 rfl) ?_ (by simp)
      rw [hdefault]
      exact fun heq => hne heq.symm
    rw [← mem_texts, hnil] at hmem
    cases hmem

theorem concurrent_eq (h : Spells front behind a verbose) :
    (counts behind .concurrent).head?.getD ({} : RunArguments).concurrent = a.concurrent := by
  refine head?_getD_eq (fun n hn => ?_) (fun hnil => ?_)
  · exact (count_mem_settingsOf.1
      (h.mem_settingsOf (List.mem_append_right _ (mem_counts.1 hn)) (by simp [Setting.key]))).2
  · by_contra hne
    have hmem : .count .concurrent a.concurrent ∈ behind := by
      refine h.mem_behind (count_mem_settingsOf.2 ⟨rfl, rfl⟩) ?_ (by simp)
      rw [count_mem_settingsOf]
      exact fun heq => hne heq.2.symm
    rw [← mem_counts, hnil] at hmem
    cases hmem

theorem output_eq (h : Spells front behind a verbose) :
    (texts behind .output).head? = a.output := by
  have hmem : ∀ value ∈ texts behind .output, a.output = some value := by
    intro value hvalue
    have hsetting := h.mem_settingsOf (List.mem_append_right _ (mem_texts.1 hvalue))
      (by simp [Setting.key])
    simpa using text_mem_settingsOf.1 hsetting
  cases htexts : texts behind .output with
  | cons value values => exact (hmem value (by simp [htexts])).symm
  | nil =>
      cases houtput : a.output with
      | none => rfl
      | some value =>
          have hgiven : .text .output value ∈ behind := by
            refine h.mem_behind (text_mem_settingsOf.2 ?_) ?_ (by simp)
            · exact .inr (.inr ⟨rfl, houtput⟩)
            · simp [text_mem_settingsOf]
          rw [← mem_texts, htexts] at hgiven
          cases hgiven

theorem runArguments_eq (h : Spells front behind a verbose) : runArguments behind = a := by
  have hfilter : texts behind .filter = a.filter := by
    rw [← texts_filter, h.filters, texts_map_text]
  have hparallel : hasFlag behind .parallel = a.parallel :=
    h.hasFlag_eq (by simp [flag_mem_settingsOf]) (by decide) (by decide)
  have hnoColor : hasFlag behind .noColor = a.noColor :=
    h.hasFlag_eq (by simp [flag_mem_settingsOf]) (by decide) (by decide)
  have hformat : (texts behind .format).head?.getD ({} : RunArguments).format = a.format :=
    h.text_eq (by simp [text_mem_settingsOf]) (by simp [text_mem_settingsOf]) (by decide)
  have hextension :
      (texts behind .extension).head?.getD ({} : RunArguments).extension = a.extension :=
    h.text_eq (by simp [text_mem_settingsOf]) (by simp [text_mem_settingsOf]) (by decide)
  simp only [runArguments, hparallel, h.concurrent_eq, hformat, hfilter, hextension, h.output_eq,
    hnoColor]

theorem verbose_eq (h : Spells front behind a verbose) :
    (!front.isEmpty || hasFlag behind .verbose) = verbose := by
  have hflag : .flag .verbose ∈ front ++ behind ↔ verbose = true := by
    have hsettings : .flag .verbose ∈ settingsOf a verbose ↔ verbose = true := by
      simp [flag_mem_settingsOf]
    have hdefault : .flag .verbose ∉ settingsOf {} false := by simp [flag_mem_settingsOf]
    rw [← hsettings]
    exact ⟨fun hmem => h.mem_settingsOf hmem (by simp [Setting.key]),
      fun hmem => (h.omitted _ hmem).resolve_right hdefault⟩
  rw [Bool.eq_iff_iff, ← hflag, hasFlag]
  rcases h.front_cases with rfl | rfl <;> simp

end Spells

/-- The command is found behind the verbosity or at once. -/
theorem parse_tokens (hfront : front = [] ∨ front = [.flag .verbose]) :
    parse (tokens front behind) = commandOf .run (!front.isEmpty) (behind.map Setting.token) := by
  rcases hfront with rfl | rfl <;> rfl

theorem exists_spells (a : RunArguments) (verbose : Bool) :
    ∃ front behind, Spells front behind a verbose := by
  have hsettings : ∀ s ∈ settingsOf a verbose, s.key ≠ .filter := by
    intro s hs
    cases s with
    | flag k => rcases flag_mem_settingsOf.1 hs with ⟨rfl, -⟩ | ⟨rfl, -⟩ | ⟨rfl, -⟩ <;> nofun
    | text k value =>
        rcases text_mem_settingsOf.1 hs with ⟨rfl, -⟩ | ⟨rfl, -⟩ | ⟨rfl, -⟩ <;> nofun
    | count k n =>
        obtain ⟨rfl, -⟩ := count_mem_settingsOf.1 hs
        nofun
  have hfilters : ∀ s ∈ a.filter.map (Setting.text .filter), s.key = .filter := by
    simp [Setting.key]
  refine ⟨[], settingsOf a verbose ++ a.filter.map (.text .filter), nofun, ?_, ?_, ?_⟩
  · rw [List.nil_append, List.filter_append, List.filter_eq_self.2 (by simpa using hsettings),
      List.filter_eq_nil_iff.2 (by simpa using hfilters), List.append_nil]
  · exact fun s hs => .inl (List.mem_append_right _ (List.mem_append_left _ hs))
  · rw [List.filter_append, List.filter_eq_nil_iff.2 (by simpa using hsettings),
      List.filter_eq_self.2 (by simpa using hfilters), List.nil_append]

/-- Every `run` command can be written down, and is read back from every arrangement of its
settings. One more setting of an option that is given behind the command and may not be repeated
makes a conflict, wherever it stands there and whatever its value is. -/
theorem parse_spelled (a : RunArguments) (verbose : Bool) :
    (∃ front behind, Spells front behind a verbose) ∧
      ∀ front behind, Spells front behind a verbose →
        parse (tokens front behind) = .ok ⟨.run a, verbose⟩ ∧
        ∀ before after s extra, behind = before ++ after → s ∈ behind →
          s.key.isRepeatable = false → extra.Fits → extra.key = s.key →
            parse (tokens front (before ++ extra :: after)) = .error .argumentConflict := by
  refine ⟨exists_spells a verbose, fun front behind h => ⟨?_, ?_⟩⟩
  · have hoptions := @options_map_token runKeys [] behind (fun s hs => h.fits hs) List.nodup_nil
    rw [List.nil_append, if_pos h.once] at hoptions
    rw [parse_tokens h.front_cases, commandOf, hoptions, Except.map, h.runArguments_eq,
      h.verbose_eq]
  · rintro before after s extra rfl hs hrepeat hextra hkey
    have hfits : ∀ x ∈ before ++ extra :: after, x.Fits ∧ x.key ∈ runKeys := by
      intro x hx
      rw [List.mem_append, List.mem_cons, or_left_comm, ← List.mem_append] at hx
      rcases hx with rfl | hx
      · exact ⟨hextra, hkey ▸ (h.fits hs).2⟩
      · exact h.fits hx
    have htwice : ¬ Once (before ++ extra :: after) := by
      rw [once_perm List.perm_middle, Once, List.map_cons, List.filter_cons_of_pos
        (by rw [hkey, hrepeat, Bool.not_false]), List.nodup_cons, not_and_or, not_not]
      refine .inl (List.mem_filter.2 ⟨hkey ▸ List.mem_map_of_mem hs, ?_⟩)
      rw [hkey, hrepeat, Bool.not_false]
    have hoptions := @options_map_token runKeys [] _ hfits List.nodup_nil
    rw [List.nil_append, if_neg htwice] at hoptions
    rw [parse_tokens h.front_cases, commandOf, hoptions, Except.map]

/-- Values that are empty, start with a dash or hold an equals sign, and the verbosity in front. The
format is the default and is left out. A second concurrency is refused. -/
theorem parse_spelled_awkward_values :
    let a : RunArguments :=
      ⟨true, 18446744073709551615, "table", ["-a=b", ""], "--", some "", false⟩
    parse (["--verbose", "run", "--filter=-a=b", "--output=", "--concurrent=18446744073709551615",
        "--filter=", "--extension=--", "--parallel"].map Utf8.encode) = .ok ⟨.run a, true⟩ ∧
      parse (["--verbose", "run", "--filter=-a=b", "--concurrent=4", "--output=",
        "--concurrent=18446744073709551615", "--filter=", "--extension=--", "--parallel"].map
        Utf8.encode) = .error .argumentConflict := by
  intro a
  let first : List Setting := [.text .filter "-a=b"]
  let rest : List Setting := [.text .output "", .count .concurrent 18446744073709551615,
    .text .filter "", .text .extension "--", .flag .parallel]
  have hspells : Spells [.flag .verbose] (first ++ rest) a true :=
    ⟨by decide, by decide, by decide, by decide⟩
  obtain ⟨hparse, hconflict⟩ := (parse_spelled a true).2 _ _ hspells
  have htwice := hconflict first rest (.count .concurrent 18446744073709551615)
    (.count .concurrent 4) rfl (by decide) rfl (.count 4) rfl
  have htokens : tokens [.flag .verbose] (first ++ rest) = ["--verbose", "run", "--filter=-a=b",
      "--output=", "--concurrent=18446744073709551615", "--filter=", "--extension=--",
      "--parallel"].map Utf8.encode := by decide +kernel
  have htokens' : tokens [.flag .verbose] (first ++ .count .concurrent 4 :: rest) = ["--verbose",
      "run", "--filter=-a=b", "--concurrent=4", "--output=", "--concurrent=18446744073709551615",
      "--filter=", "--extension=--", "--parallel"].map Utf8.encode := by decide +kernel
  exact ⟨htokens ▸ hparse, htokens' ▸ htwice⟩

end Conformance.CommandLine

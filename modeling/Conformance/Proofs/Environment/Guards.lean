import Conformance.Environment
import Conformance.Proofs.Text.Utf8
import Mathlib.Logic.Basic

/-!
# Guards of the environment

Changes are applied under a guard and taken back when the guard is dropped.
`Scoped` carries the guards that are still kept along as a stack, so that scopes
can be opened inside others and change the same variables again. A sequence of
steps is `Nested` if every guard that it takes is dropped in it, the latest one
first.

A guard takes its values before any of its changes is applied, so it does not
matter how often a variable is changed or in which order the values are put back
(`get?_restore_guard`). What a guard cannot remember is a value that is no text
(`Stray`). Steps only ever write texts, so a variable that holds a text or
nothing never comes to hold anything else (`Scoped.not_stray_of_run`), and inside
a scope that names a variable no value of it is lost.
-/

namespace Conformance

namespace Environment

variable {env : Environment} {changes : List Change} {name : String}

theorem get?_unset (env : Environment) (name other : String) :
    (env.unset name).get? other = if other = name then none else env.get? other := by
  obtain ⟨vars⟩ := env
  rw [get?, unset, get?]
  induction vars with
  | nil => simp
  | cons x vars ih =>
      obtain ⟨key, value⟩ := x
      by_cases hkey : key = name
      · rw [List.filter_cons_of_neg (by simp [hkey]), ih]
        by_cases hother : other = name
        · rw [if_pos hother, if_pos hother]
        · have hne : (other == key) = false := by simpa [hkey] using hother
          rw [if_neg hother, if_neg hother, List.lookup_cons, hne]
      · rw [List.filter_cons_of_pos (by simpa using hkey), List.lookup_cons, List.lookup_cons]
        cases hother : other == key with
        | false => exact ih
        | true =>
            obtain rfl : other = key := by simpa using hother
            rw [if_neg hkey]

theorem get?_set (env : Environment) (name : String) (value : Bytes) (other : String) :
    (env.set name value).get? other = if other = name then some value else env.get? other := by
  rw [get?, set, List.lookup_cons]
  by_cases hother : other = name
  · rw [if_pos hother, beq_iff_eq.2 hother]
  · rw [if_neg hother, beq_eq_false_iff_ne.2 hother]
    have hunset := get?_unset env name other
    rwa [if_neg hother] at hunset

theorem get?_change (env : Environment) (c : Change) (name : String) :
    (env.change c).get? name =
      if name = c.name then c.value.map Utf8.encode else env.get? name := by
  rw [change]
  cases c.value with
  | none => exact get?_unset env c.name name
  | some value => exact get?_set env c.name _ name

/-- What the last change of a variable makes of it, if any change names it. -/
def lastValue? (changes : List Change) (name : String) : Option (Option String) :=
  (changes.reverse.find? fun c => name = c.name).map (·.value)

theorem lastValue?_cons (c : Change) (changes : List Change) (name : String) :
    lastValue? (c :: changes) name =
      (lastValue? changes name).or (if name = c.name then some c.value else none) := by
  rw [lastValue?, List.reverse_cons, List.find?_append, Option.map_or, lastValue?]
  by_cases hname : name = c.name <;> simp [hname]

theorem get?_apply (env : Environment) (changes : List Change) (name : String) :
    (env.apply changes).get? name =
      match lastValue? changes name with
      | some value => value.map Utf8.encode
      | none => env.get? name := by
  induction changes generalizing env with
  | nil => rfl
  | cons c changes ih =>
      have happly : env.apply (c :: changes) = (env.change c).apply changes := rfl
      rw [happly, ih, lastValue?_cons, get?_change]
      cases lastValue? changes name with
      | some value => rfl
      | none => by_cases hname : name = c.name <;> simp [hname]

def Names (changes : List Change) (name : String) : Prop := ∃ c ∈ changes, name = c.name

theorem lastValue?_eq_none_iff : lastValue? changes name = none ↔ ¬ Names changes name := by
  simp [lastValue?, Names]

theorem get?_apply_of_not_names (h : ¬ Names changes name) :
    (env.apply changes).get? name = env.get? name := by
  rw [get?_apply, lastValue?_eq_none_iff.2 h]

/-- The variable holds bytes that are no text. -/
def Stray (env : Environment) (name : String) : Prop :=
  ∃ value, env.get? name = some value ∧ ∀ text, Utf8.encode text ≠ value

theorem not_stray_of_eq (value : Option String) (h : env.get? name = value.map Utf8.encode) :
    ¬ Stray env name := by
  rintro ⟨bytes, hbytes, hstray⟩
  rw [h] at hbytes
  obtain ⟨text, -, htext⟩ := Option.map_eq_some_iff.1 hbytes
  exact hstray text htext

theorem stray_congr {env' : Environment} (h : env'.get? name = env.get? name) :
    Stray env' name ↔ Stray env name := by
  rw [Stray, Stray, h]

theorem not_stray_apply_of_names (env : Environment) (h : Names changes name) :
    ¬ Stray (env.apply changes) name := by
  obtain ⟨value, hvalue⟩ := Option.ne_none_iff_exists'.1 fun hnone =>
    lastValue?_eq_none_iff.1 hnone h
  apply not_stray_of_eq value
  rw [get?_apply, hvalue]

theorem not_stray_apply (h : ¬ Stray env name) (changes : List Change) :
    ¬ Stray (env.apply changes) name := by
  by_cases hnames : Names changes name
  · exact not_stray_apply_of_names env hnames
  · rwa [stray_congr (get?_apply_of_not_names hnames)]

theorem names_previous_iff (env : Environment) (changes : List Change) (name : String) :
    Names (env.guard changes).previous name ↔ Names changes name := by
  simp [Names, guard]

theorem names_reverse_iff : Names changes.reverse name ↔ Names changes name := by
  simp [Names]

/-- A guard has one value for a variable, in all places where it names the variable. -/
theorem value_of_mem_previous {c : Change} (h : c ∈ (env.guard changes).previous) :
    c.value = (env.get? c.name).bind Utf8.decode? := by
  obtain ⟨c', -, rfl⟩ := List.mem_map.1 h
  rfl

theorem lastValue?_reverse_previous (env : Environment) (h : Names changes name) :
    lastValue? (env.guard changes).previous.reverse name =
      some ((env.get? name).bind Utf8.decode?) := by
  rw [← names_previous_iff env, ← names_reverse_iff] at h
  obtain ⟨value, hvalue⟩ := Option.ne_none_iff_exists'.1 fun hnone =>
    lastValue?_eq_none_iff.1 hnone h
  obtain ⟨c, hfind, rfl⟩ := Option.map_eq_some_iff.1 hvalue
  have hmem : c ∈ (env.guard changes).previous := by
    simpa using List.mem_of_find?_eq_some hfind
  have hname : name = c.name := by simpa using List.find?_some hfind
  rw [hvalue, value_of_mem_previous hmem, hname]

theorem map_encode_remembered (h : ¬ Stray env name) :
    ((env.get? name).bind Utf8.decode?).map Utf8.encode = env.get? name := by
  cases hget : env.get? name with
  | none => rfl
  | some value =>
      rw [Stray, not_exists] at h
      simp only [hget, Option.some.injEq, not_and, not_forall, not_not] at h
      obtain ⟨text, rfl⟩ := h value rfl
      rw [Option.bind_some, Utf8.decode?_encode, Option.map_some]

theorem map_encode_remembered_of_stray (h : Stray env name) :
    ((env.get? name).bind Utf8.decode?).map Utf8.encode = none := by
  obtain ⟨value, hvalue, hstray⟩ := h
  rw [hvalue, Option.bind_some, Option.map_eq_none_iff, Option.eq_none_iff_forall_ne_some]
  intro text htext
  exact hstray text (Utf8.encode_of_decode? htext)

/-- Whatever became of the variables meanwhile, dropping a guard gives those that it names the text
they had when it was taken, and leaves the others alone. -/
theorem get?_restore_guard (env env' : Environment) (changes : List Change) (name : String) :
    (Names changes name → ¬ Stray env name →
      (env'.restore (env.guard changes)).get? name = env.get? name) ∧
    (Names changes name → Stray env name →
      (env'.restore (env.guard changes)).get? name = none) ∧
    (¬ Names changes name →
      (env'.restore (env.guard changes)).get? name = env'.get? name) := by
  refine ⟨fun hnames hstray => ?_, fun hnames hstray => ?_, fun hnames => ?_⟩
  · rw [restore, get?_apply, lastValue?_reverse_previous env hnames]
    exact map_encode_remembered hstray
  · rw [restore, get?_apply, lastValue?_reverse_previous env hnames]
    exact map_encode_remembered_of_stray hstray
  · apply get?_apply_of_not_names
    rwa [names_reverse_iff, names_previous_iff]

/-- A step of a process that changes its environment for a while. -/
inductive ScopeStep where
  /-- Changes are applied under a new guard. -/
  | enter (changes : List Change)
  /-- The latest guard is dropped. -/
  | leave

/-- An environment and the guards that are kept, the latest one first. -/
structure Scoped where
  environment : Environment
  guards : List Guard

/-- Every guard that is taken is dropped again, the latest one first. -/
inductive Nested : List ScopeStep → Prop where
  | nil : Nested []
  | scope {changes : List Change} {inner rest : List ScopeStep} (hinner : Nested inner)
      (hrest : Nested rest) : Nested (.enter changes :: (inner ++ .leave :: rest))

namespace Scoped

def step? : Scoped → ScopeStep → Option Scoped
  | ⟨env, guards⟩, .enter changes =>
    some ⟨(env.applyScoped changes).2, (env.applyScoped changes).1 :: guards⟩
  | ⟨env, g :: guards⟩, .leave => some ⟨env.restore g, guards⟩
  | ⟨_, []⟩, .leave => none

def run? (s : Scoped) (steps : List ScopeStep) : Option Scoped := steps.foldlM step? s

variable {s s' : Scoped} {steps steps' : List ScopeStep} {x : ScopeStep} {guards : List Guard}

@[simp] theorem run?_nil (s : Scoped) : s.run? [] = some s := rfl

theorem run?_cons (s : Scoped) (x : ScopeStep) (steps : List ScopeStep) :
    s.run? (x :: steps) = (s.step? x).bind (·.run? steps) := rfl

theorem run?_append (s : Scoped) (steps steps' : List ScopeStep) :
    s.run? (steps ++ steps') = (s.run? steps).bind (·.run? steps') :=
  List.foldlM_append

/-- A step applies changes and takes their guard, or drops the latest guard. -/
theorem step_cases (h : s.step? x = some s') :
    (∃ changes, x = .enter changes ∧
      s' = ⟨s.environment.apply changes, s.environment.guard changes :: s.guards⟩) ∨
    ∃ g guards, x = .leave ∧ s.guards = g :: guards ∧ s' = ⟨s.environment.restore g, guards⟩ := by
  obtain ⟨env, guards⟩ := s
  cases x with
  | enter changes =>
      cases h
      exact .inl ⟨changes, rfl, rfl⟩
  | leave =>
      cases guards with
      | nil => cases h
      | cons g guards =>
          cases h
          exact .inr ⟨g, guards, rfl, rfl, rfl⟩

/-- What every step keeps is kept by a run. -/
theorem run_invariant (Inv : Scoped → Prop)
    (hstep : ∀ s s', ∀ x ∈ steps, Inv s → s.step? x = some s' → Inv s')
    (hs : Inv s) (h : s.run? steps = some s') : Inv s' := by
  induction steps generalizing s with
  | nil =>
      cases h
      exact hs
  | cons x steps ih =>
      obtain ⟨middle, hmiddle, hrest⟩ := Option.bind_eq_some_iff.1 (run?_cons s x steps ▸ h)
      refine ih (fun s s' y hy => hstep s s' y (List.mem_cons_of_mem _ hy)) ?_ hrest
      exact hstep s middle x List.mem_cons_self hs hmiddle

theorem not_stray_of_run (hs : ¬ Stray s.environment name) (h : s.run? steps = some s') :
    ¬ Stray s'.environment name := by
  refine run_invariant (fun s => ¬ Stray s.environment name) ?_ hs h
  intro s s' x _ hs hstep
  rcases step_cases hstep with ⟨changes, rfl, rfl⟩ | ⟨g, guards, rfl, -, rfl⟩
  · exact not_stray_apply hs changes
  · exact not_stray_apply hs g.previous.reverse

/-- Neither the changes to come nor the guards that are kept name the variable. -/
def Untouched (name : String) (value : Option Bytes) (s : Scoped) : Prop :=
  s.environment.get? name = value ∧ ∀ g ∈ s.guards, ¬ Names g.previous name

theorem untouched_of_run {value : Option Bytes}
    (hsteps : ∀ changes, .enter changes ∈ steps → ¬ Names changes name)
    (hs : s.Untouched name value) (h : s.run? steps = some s') : s'.Untouched name value := by
  refine run_invariant (Untouched name value) ?_ hs h
  rintro s s' x hx ⟨hvalue, hguards⟩ hstep
  rcases step_cases hstep with ⟨changes, rfl, rfl⟩ | ⟨g, guards, rfl, hkept, rfl⟩
  · have hnames := hsteps changes hx
    refine ⟨?_, List.forall_mem_cons.2 ⟨?_, hguards⟩⟩
    · rw [get?_apply_of_not_names hnames, hvalue]
    · rwa [names_previous_iff]
  · rw [hkept] at hguards
    obtain ⟨hg, hguards⟩ := List.forall_mem_cons.1 hguards
    refine ⟨?_, hguards⟩
    rw [restore, get?_apply_of_not_names (by rwa [names_reverse_iff]), hvalue]

/-- Some scope that is entered names the variable when it holds bytes that are no text. -/
def Loses (s : Scoped) (steps : List ScopeStep) (name : String) : Prop :=
  ∃ before changes after middle, steps = before ++ .enter changes :: after ∧
    s.run? before = some middle ∧ Names changes name ∧ Stray middle.environment name

theorem not_loses_of_not_stray (hs : ¬ Stray s.environment name) : ¬ s.Loses steps name := by
  rintro ⟨before, changes, after, middle, -, hrun, -, hstray⟩
  exact not_stray_of_run hs hrun hstray

theorem not_loses_nil : ¬ s.Loses [] name := by
  rintro ⟨before, changes, after, -, hsteps, -⟩
  simp at hsteps

theorem loses_enter_iff {env : Environment} :
    Loses ⟨env, guards⟩ (.enter changes :: steps) name ↔
      Names changes name ∧ Stray env name ∨
        Loses ⟨env.apply changes, env.guard changes :: guards⟩ steps name := by
  constructor
  · rintro ⟨before, changes', after, middle, hsteps, hrun, hnames, hstray⟩
    cases before with
    | nil =>
        cases hsteps
        cases hrun
        exact .inl ⟨hnames, hstray⟩
    | cons x before =>
        cases hsteps
        exact .inr ⟨before, changes', after, middle, rfl, hrun, hnames, hstray⟩
  · rintro (⟨hnames, hstray⟩ | ⟨before, changes', after, middle, rfl, hrun, hnames, hstray⟩)
    · exact ⟨[], changes, steps, _, rfl, rfl, hnames, hstray⟩
    · exact ⟨.enter changes :: before, changes', after, middle, rfl, hrun, hnames, hstray⟩

theorem loses_leave_iff {env : Environment} {g : Guard} :
    Loses ⟨env, g :: guards⟩ (.leave :: steps) name ↔
      Loses ⟨env.restore g, guards⟩ steps name := by
  constructor
  · rintro ⟨before, changes', after, middle, hsteps, hrun, hnames, hstray⟩
    cases before with
    | nil => cases hsteps
    | cons x before =>
        cases hsteps
        exact ⟨before, changes', after, middle, rfl, hrun, hnames, hstray⟩
  · rintro ⟨before, changes', after, middle, rfl, hrun, hnames, hstray⟩
    exact ⟨.leave :: before, changes', after, middle, rfl, hrun, hnames, hstray⟩

theorem loses_append_iff (h : s.run? steps = some s') :
    s.Loses (steps ++ steps') name ↔ s.Loses steps name ∨ s'.Loses steps' name := by
  induction steps generalizing s with
  | nil =>
      cases h
      simp [not_loses_nil]
  | cons x steps ih =>
      obtain ⟨middle, hmiddle, hrest⟩ := Option.bind_eq_some_iff.1 (run?_cons s x steps ▸ h)
      obtain ⟨env, guards⟩ := s
      rcases step_cases hmiddle with ⟨changes, rfl, rfl⟩ | ⟨g, guards, rfl, rfl, rfl⟩
      · rw [List.cons_append, loses_enter_iff, loses_enter_iff, ih hrest, or_assoc]
      · rw [List.cons_append, loses_leave_iff, loses_leave_iff, ih hrest]

end Scoped

open Scoped

/-- Nested steps leave a variable as it was, unless they lose its value. -/
theorem Nested.exists_run {steps : List ScopeStep} (h : Nested steps) (env : Environment)
    (guards : List Guard) :
    ∃ after, run? ⟨env, guards⟩ steps = some ⟨after, guards⟩ ∧ ∀ name,
      (Loses ⟨env, guards⟩ steps name → after.get? name = none) ∧
      (¬ Loses ⟨env, guards⟩ steps name → after.get? name = env.get? name) := by
  induction h generalizing env guards with
  | nil => exact ⟨env, rfl, fun name => ⟨fun h => absurd h not_loses_nil, fun _ => rfl⟩⟩
  | @scope changes inner rest _ _ ihinner ihrest =>
      obtain ⟨within, hwithin, hinner⟩ := ihinner (env.apply changes) (env.guard changes :: guards)
      obtain ⟨after, hafter, hrest⟩ := ihrest (within.restore (env.guard changes)) guards
      refine ⟨after, ?_, fun name => ?_⟩
      · change run? ⟨env.apply changes, env.guard changes :: guards⟩ (inner ++ .leave :: rest) = _
        rw [run?_append, hwithin]
        exact hafter
      rw [loses_enter_iff, loses_append_iff hwithin, loses_leave_iff]
      obtain ⟨hinnerLost, hinnerKept⟩ := hinner name
      obtain ⟨hrestLost, hrestKept⟩ := hrest name
      obtain ⟨hkept, hlost, hother⟩ := get?_restore_guard env within changes name
      have hnone (hrestored : (within.restore (env.guard changes)).get? name = none) :
          after.get? name = none := by
        by_cases hloses : Loses ⟨within.restore (env.guard changes), guards⟩ rest name
        · exact hrestLost hloses
        · rw [hrestKept hloses, hrestored]
      by_cases hnames : Names changes name
      · by_cases hstray : Stray env name
        · exact ⟨fun _ => hnone (hlost hnames hstray), fun h => absurd (.inl ⟨hnames, hstray⟩) h⟩
        · -- the guard has the value, and in its scope the variable holds texts only
          have hrestored := hkept hnames hstray
          have hnotInner :
              ¬ Loses ⟨env.apply changes, env.guard changes :: guards⟩ inner name :=
            not_loses_of_not_stray (not_stray_apply_of_names env hnames)
          have hnotRest : ¬ Loses ⟨within.restore (env.guard changes), guards⟩ rest name :=
            not_loses_of_not_stray (mt (stray_congr hrestored).1 hstray)
          refine ⟨?_, fun _ => (hrestKept hnotRest).trans hrestored⟩
          rintro (⟨-, h⟩ | h | h)
          · exact absurd h hstray
          · exact absurd h hnotInner
          · exact absurd h hnotRest
      · have hrestored := hother hnames
        have happly : (env.apply changes).get? name = env.get? name :=
          get?_apply_of_not_names hnames
        refine ⟨?_, fun h => ?_⟩
        · rintro (⟨h, -⟩ | h | h)
          · exact absurd h hnames
          · exact hnone (hrestored.trans (hinnerLost h))
          · exact hrestLost h
        · rw [not_or, not_or] at h
          rw [hrestKept h.2.2, hrestored, hinnerKept h.2.1, happly]

/-- Inside a scope, whenever the scopes inside it are left, each variable that the scope names has
the value of the last change of it. -/
theorem Nested.exists_run_in_force {inner : List ScopeStep} (h : Nested inner) (s : Scoped)
    (changes : List Change) :
    ∃ s', s.run? (.enter changes :: inner) = some s' ∧ ∀ name value,
      lastValue? changes name = some value →
        s'.environment.get? name = value.map Utf8.encode := by
  obtain ⟨env, guards⟩ := s
  obtain ⟨after, hafter, hvalues⟩ :=
    h.exists_run (env.apply changes) (env.guard changes :: guards)
  refine ⟨_, hafter, fun name value hvalue => ?_⟩
  have happly : (env.apply changes).get? name = value.map Utf8.encode := by
    rw [get?_apply, hvalue]
  rw [← happly]
  apply (hvalues name).2
  exact not_loses_of_not_stray (not_stray_of_eq value happly)

/-- However scopes are opened inside each other, once the guard of the outermost one is dropped
every variable is as it was before, but for those that held no text when a scope that names them was
entered, and these are unset. In a scope the last change of a variable is in force, and a variable
that no scope names is the same at every step. -/
theorem scopes_restore (env : Environment) (changes : List Change) {inner : List ScopeStep}
    (hinner : Nested inner) :
    let start : Scoped := ⟨env, []⟩
    let steps := .enter changes :: (inner ++ [.leave])
    (∃ after, start.run? steps = some ⟨after, []⟩ ∧ ∀ name,
      (start.Loses steps name → after.get? name = none) ∧
      (¬ start.Loses steps name → after.get? name = env.get? name)) ∧
    (∀ before changes' scopes rest, steps = before ++ .enter changes' :: (scopes ++ rest) →
      Nested scopes → ∃ s, start.run? (before ++ .enter changes' :: scopes) = some s ∧
        ∀ name value, lastValue? changes' name = some value →
          s.environment.get? name = value.map Utf8.encode) ∧
    ∀ name, (∀ changes', .enter changes' ∈ steps → ¬ Names changes' name) →
      ∀ before rest, steps = before ++ rest →
        ∃ s, start.run? before = some s ∧ s.environment.get? name = env.get? name := by
  intro start steps
  have hnested : Nested steps := .scope hinner .nil
  obtain ⟨after, hafter, hvalues⟩ := hnested.exists_run env []
  have hdefined (before rest : List ScopeStep) (hsteps : steps = before ++ rest) :
      ∃ s, start.run? before = some s := by
    have hrun : start.run? (before ++ rest) = some ⟨after, []⟩ := hsteps ▸ hafter
    rw [run?_append] at hrun
    obtain ⟨s, hs, -⟩ := Option.bind_eq_some_iff.1 hrun
    exact ⟨s, hs⟩
  refine ⟨⟨after, hafter, hvalues⟩, ?_, ?_⟩
  · intro before changes' scopes rest hsteps hscopes
    obtain ⟨s, hs⟩ := hdefined before _ hsteps
    obtain ⟨s', hs', hforce⟩ := hscopes.exists_run_in_force s changes'
    refine ⟨s', ?_, hforce⟩
    rw [run?_append, hs]
    exact hs'
  · intro name hnames before rest hsteps
    obtain ⟨s, hs⟩ := hdefined before rest hsteps
    have huntouched : start.Untouched name (env.get? name) := ⟨rfl, nofun⟩
    refine ⟨s, hs, (untouched_of_run (fun changes' hmem => ?_) huntouched hs).1⟩
    exact hnames changes' (hsteps ▸ List.mem_append_left rest hmem)

/-- A scope that changes the root twice and one inside it that unsets both variables. Afterwards the
root is what it was, and the compiler, which held no text, is unset. -/
theorem scopes_restore_twice_changed :
    let env : Environment := ⟨[(suiteRootVar, Utf8.encode "/s"), (compilerBinaryVar, [255])]⟩
    let changes := [Change.suiteRoot "/a", .suiteRoot "/b"]
    let inner : List ScopeStep :=
      [.enter [.unset compilerBinaryVar, .unset suiteRootVar], .leave]
    ∃ after, run? ⟨env, []⟩ (.enter changes :: (inner ++ [.leave])) = some ⟨after, []⟩ ∧
      after.get? suiteRootVar = some (Utf8.encode "/s") ∧ after.get? compilerBinaryVar = none := by
  intro env changes inner
  have hinner : Nested inner := .scope .nil .nil
  obtain ⟨⟨after, hafter, hvalues⟩, -, -⟩ := scopes_restore env changes hinner
  refine ⟨after, hafter, (hvalues suiteRootVar).2 ?_, (hvalues compilerBinaryVar).1 ?_⟩
  · exact not_loses_of_not_stray (not_stray_of_eq (some "/s") rfl)
  · refine ⟨[.enter changes], [.unset compilerBinaryVar, .unset suiteRootVar], [.leave, .leave],
      ⟨env.apply changes, [env.guard changes]⟩, rfl, rfl, by simp [Names, Change.unset],
      [255], by decide, fun text htext => ?_⟩
    have hdecode : Utf8.decode? [255] = some text := htext ▸ Utf8.decode?_encode text
    have hnone : Utf8.decode? [255] = none := by decide
    simp [hnone] at hdecode

end Environment

end Conformance

import Conformance.Program
import Conformance.Proofs.Fixture.Selection

/-!
# What a run needs before it starts

A run has a plan if its configuration resolves, its format is known, fixtures
are found, and some of them are selected. `Ready` collects these conditions, and
`Planned` lists the ways to a plan or to a complaint, in the order in which the
conditions are checked. A run is refused exactly if it is not ready, and the
complaint that the filters select nothing is made only if there are filters.
-/

namespace Conformance

theorem append_ne_append_of_take {s t : String} (n : Nat) (hs : n ≤ s.toList.length)
    (ht : n ≤ t.toList.length) (h : s.toList.take n ≠ t.toList.take n) (x y : String) :
    s ++ x ≠ t ++ y := by
  intro heq
  apply h
  have htake := congrArg (fun u => u.toList.take n) heq
  simpa only [String.toList_append, List.take_append_of_le_length hs,
    List.take_append_of_le_length ht] using htake

namespace Discovery

theorem discover_of_eq_nil {w : World} {root : Path} {extension : String}
    (h : (collect w root extension).1 = []) :
    ∃ log, discover w root extension = (.error (nothingCollected root), log) := by
  simp [discover, h]

theorem discover_of_ne_nil {w : World} {root : Path} {extension : String}
    (h : (collect w root extension).1 ≠ []) :
    ∃ log, discover w root extension = (.ok (collect w root extension).1, log) := by
  simp [discover, h]

end Discovery

namespace Program

/-- Nothing stands in the way of a run over `fixtures` with the configuration `c`. -/
structure Ready (w : World) (a : RunArguments) (c : Configuration) (fixtures : List Fixture) :
    Prop where
  configured : Configuration.ofEnvironment w = .ok c
  formatted : (OutputFormat.ofName? a.format).isSome = true
  found : (Discovery.collect w c.suiteRoot a.extension).1 ≠ []
  selected : Fixture.select a.filter (Discovery.collect w c.suiteRoot a.extension).1 = fixtures
  nonempty : fixtures ≠ []

/-- The ways to a plan or to a complaint. -/
inductive Planned (w : World) (a : RunArguments) : Except String Plan → Prop where
  | unconfigured {e : ConfigurationError} (h : Configuration.ofEnvironment w = .error e) :
      Planned w a (.error (configurationComplaint e))
  | unformatted (h : OutputFormat.ofName? a.format = none) :
      Planned w a (.error ("Unknown output format: " ++ a.format))
  | unfound {c : Configuration} (hc : Configuration.ofEnvironment w = .ok c)
      (h : (Discovery.collect w c.suiteRoot a.extension).1 = []) :
      Planned w a (.error (Discovery.nothingCollected c.suiteRoot))
  | unselected {c : Configuration} (hc : Configuration.ofEnvironment w = .ok c)
      (hfound : (Discovery.collect w c.suiteRoot a.extension).1 ≠ [])
      (h : Fixture.select a.filter (Discovery.collect w c.suiteRoot a.extension).1 = []) :
      Planned w a (.error (filterComplaint a.filter))
  | ready {p : Plan} (h : Ready w a p.configuration p.fixtures) : Planned w a (.ok p)

theorem planned (w : World) (a : RunArguments) : Planned w a (plan w a).1 := by
  unfold plan
  cases hc : Configuration.ofEnvironment w with
  | error e => exact .unconfigured hc
  | ok c =>
      cases hformat : OutputFormat.ofName? a.format with
      | none => exact .unformatted hformat
      | some format =>
          by_cases hfound : (Discovery.collect w c.suiteRoot a.extension).1 = []
          · obtain ⟨log, hdiscover⟩ := Discovery.discover_of_eq_nil hfound
            simp only [hdiscover]
            exact .unfound hc hfound
          · obtain ⟨log, hdiscover⟩ := Discovery.discover_of_ne_nil hfound
            simp only [hdiscover]
            split
            next hselect => exact .unselected hc hfound hselect
            next hselect =>
              exact .ready ⟨hc, by simp [hformat], hfound, rfl, fun hnil => hselect hnil⟩

theorem planned_of_plan {w : World} {a : RunArguments} {result : Except String Plan}
    {log : List Log.Event} (h : plan w a = (result, log)) : Planned w a result := by
  have hplanned := planned w a
  rwa [h] at hplanned

variable {w : World} {a : RunArguments} {c c' : Configuration} {fixtures fixtures' : List Fixture}

theorem Planned.is_ready {p : Plan} (h : Planned w a (.ok p)) :
    Ready w a p.configuration p.fixtures := by
  cases h with
  | ready hready => exact hready

theorem Ready.unique (h : Ready w a c fixtures) (h' : Ready w a c' fixtures') :
    c = c' ∧ fixtures = fixtures' := by
  have hc : c = c' := by
    have hsame := h.configured.symm.trans h'.configured
    injection hsame
  subst hc
  exact ⟨rfl, h.selected.symm.trans h'.selected⟩

theorem Planned.not_ready {message : String} (h : Planned w a (.error message)) :
    ¬ Ready w a c fixtures := by
  intro hready
  have hc := hready.configured
  cases h with
  | unconfigured hnone =>
      rw [hnone] at hc
      cases hc
  | unformatted hnone =>
      have hformat := hready.formatted
      rw [hnone] at hformat
      cases hformat
  | unfound hsome hnil =>
      rw [hsome] at hc
      cases hc
      exact hready.found hnil
  | unselected hsome hfound hnil =>
      rw [hsome] at hc
      cases hc
      exact hready.nonempty (hready.selected.symm.trans hnil)

/-- The complaint that the filters select nothing is made only if there are filters. -/
theorem Planned.filter_ne_nil {rest : String}
    (h : Planned w a (.error ("No fixtures match filters" ++ rest))) : a.filter ≠ [] := by
  generalize hmessage : "No fixtures match filters" ++ rest = message at h
  cases h with
  | unconfigured =>
      exact absurd hmessage (append_ne_append_of_take 1 (by decide) (by decide) (by decide) _ _)
  | unformatted =>
      exact absurd hmessage (append_ne_append_of_take 1 (by decide) (by decide) (by decide) _ _)
  | unfound =>
      exact absurd hmessage (append_ne_append_of_take 4 (by decide) (by decide) (by decide) _ _)
  | unselected hc hfound hnil =>
      intro hfilter
      rw [hfilter, Fixture.select_nil] at hnil
      exact hfound hnil

end Program

end Conformance

import Conformance.Runner

/-!
# Fixtures as test trials

A test harness runs each fixture as a trial named by its identifier. Trials of disabled fixtures are
marked ignored; when the harness is told to run ignored trials too, they are left out instead, since
a trial that was run counts as passed or failed. Patterns select trials by the name they are listed
under, which starts with their kind. A selected trial that is not marked ignored is run;
a compiler fault fails it.
-/

namespace Conformance

def trialKind : String := "exec"

structure TrialOptions where
  /-- Run only the trials marked ignored. -/
  ignored : Bool := false
  /-- Run the trials marked ignored too. -/
  includeIgnored : Bool := false
  /-- Patterns match whole names. -/
  exact : Bool := false
  filter : Option String := none
  skip : List String := []
deriving DecidableEq, Repr

structure Trial where
  fixture : Fixture
  ignored : Bool
deriving DecidableEq, Repr

structure Conclusion where
  filteredOut : Nat := 0
  passed : Nat := 0
  failed : Nat := 0
  ignored : Nat := 0
deriving DecidableEq, Repr

def Conclusion.hasFailed (c : Conclusion) : Bool := 0 < c.failed

namespace Trial

def name (t : Trial) : String := t.fixture.id

/-- Whether the harness is to run ignored trials. -/
def forced (options : TrialOptions) : Bool := options.ignored || options.includeIgnored

def ofFixtures (options : TrialOptions) (fixtures : List Fixture) : List Trial :=
  (fixtures.filter fun f => !(forced options && f.isSkipped)).map fun f => ⟨f, f.isSkipped⟩

/-- A warning for each fixture that is left out. -/
def warnings (options : TrialOptions) (fixtures : List Fixture) : List Log.Event :=
  (fixtures.filter fun f => forced options && f.isSkipped).map fun f =>
    Log.warn .trial ("Skipping " ++ f.id ++ ": " ++ skipReason)

/-- The name of a trial with its kind in front, as the harness lists it. -/
def listedName (t : Trial) : String := "[" ++ trialKind ++ "] " ++ t.name

/-- Whether a pattern matches a trial: it is contained in the name with its kind, or it is the whole
name, with the kind or without. -/
def isMatched (exact : Bool) (pattern : String) (t : Trial) : Bool :=
  if exact then pattern == t.name || pattern == t.listedName
  else Split.occursIn pattern.toList t.listedName.toList

def isFilteredOut (options : TrialOptions) (t : Trial) : Bool :=
  (options.filter.any fun p => !isMatched options.exact p t) ||
    (options.skip.any fun p => isMatched options.exact p t) ||
    (options.ignored && !t.ignored)

variable {σ : Type}

def runAll (options : TrialOptions) (compiler : Compiler σ) (s : σ) :
    List Trial → Conclusion × List Log.Event × σ
  | [] => ({}, [], s)
  | t :: ts =>
    if isFilteredOut options t then
      let (c, log, s) := runAll options compiler s ts
      ({ c with filteredOut := c.filteredOut + 1 }, log, s)
    else if t.ignored && !forced options then
      let (c, log, s) := runAll options compiler s ts
      ({ c with ignored := c.ignored + 1 }, log, s)
    else
      let (result, s) := Runner.runFixture compiler s t.fixture
      let (c, log, s) := runAll options compiler s ts
      match result with
      | .ok (o, told) =>
        if o.status.isSuccess then ({ c with passed := c.passed + 1 }, told ++ log, s)
        else ({ c with failed := c.failed + 1 }, told ++ log, s)
      | .error _ => ({ c with failed := c.failed + 1 }, log, s)

def run (options : TrialOptions) (compiler : Compiler σ) (s : σ) (fixtures : List Fixture) :
    Conclusion × List Log.Event × σ :=
  let (c, log, s) := runAll options compiler s (ofFixtures options fixtures)
  (c, warnings options fixtures ++ log, s)

end Trial

end Conformance

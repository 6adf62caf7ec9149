import Conformance.Summary
import Conformance.Data
import Conformance.Record
import Conformance.Time.Reader

/-!
# Reports

A stored run is a finished run together with the settings and the environment that produced it. Each
record of a report has a `data` form for writing and a `read?` for looking at the values of any
format. The fields are written in the order of `fieldNames`.
-/

namespace Conformance

namespace Fixture

def fieldNames : List String := ["path", "id"]

def data (f : Fixture) : Data := .record [("path", .path f.path), ("id", .text f.id)]

def read? {α : Type} (v : View α) (a : α) : Option Fixture := do
  let fs ← v.fields? fieldNames 0 a
  let path ← Fields.required fs "path" v.text?
  let id ← Fields.required fs "id" v.text?
  return ⟨.ofText path, id⟩

end Fixture

namespace Status

def name : Status → String
  | .passed => "passed"
  | .skipped => "skipped"
  | .failed => "failed"

def ofName? (s : String) : Option Status :=
  [Status.passed, .skipped, .failed].find? (·.name == s)

end Status

namespace FailureKind

def name : FailureKind → String
  | .nonZeroExit => "non_zero_exit"
  | .spawn => "spawn"
  | .capture => "capture"

def ofName? (s : String) : Option FailureKind :=
  [FailureKind.nonZeroExit, .spawn, .capture].find? (·.name == s)

end FailureKind

namespace Outcome

def fieldNames : List String :=
  ["fixture", "status", "duration_ms", "exit_code", "message", "captured_output", "failure"]

def data (o : Outcome) : Data :=
  .record
    [("fixture", o.fixture.data),
      ("status", .text o.status.name),
      ("duration_ms", .word o.durationMs),
      ("exit_code", .ofOption (fun c => .int c.toInt) o.exitCode),
      ("message", .ofOption .text o.message),
      ("captured_output", .ofOption .text o.capturedOutput),
      ("failure", .ofOption (fun k => .text k.name) o.failure)]

def read? {α : Type} (v : View α) (a : α) : Option Outcome := do
  let fs ← v.fields? fieldNames 0 a
  let fixture ← Fields.required fs "fixture" (Fixture.read? v)
  let status ← Fields.required fs "status" fun a => (v.variant? a).bind Status.ofName?
  let durationMs ← Fields.required fs "duration_ms" v.word?
  let exitCode ← Fields.optional v fs "exit_code" v.int32?
  let message ← Fields.optional v fs "message" v.text?
  let capturedOutput ← Fields.optional v fs "captured_output" v.text?
  let failure ← Fields.optional v fs "failure" fun a => (v.variant? a).bind FailureKind.ofName?
  return ⟨fixture, status, durationMs, exitCode, message, capturedOutput, failure⟩

end Outcome

namespace Summary

def fieldNames : List String :=
  ["total", "passed", "skipped", "failed", "total_duration_ms", "outcomes"]

def data (s : Summary) : Data :=
  .record
    [("total", .word s.total),
      ("passed", .word s.passed),
      ("skipped", .word s.skipped),
      ("failed", .word s.failed),
      ("total_duration_ms", .word s.totalDurationMs),
      ("outcomes", .list (s.outcomes.map Outcome.data))]

def read? {α : Type} (v : View α) (a : α) : Option Summary := do
  let fs ← v.fields? fieldNames 0 a
  let total ← Fields.required fs "total" v.word?
  let passed ← Fields.required fs "passed" v.word?
  let skipped ← Fields.required fs "skipped" v.word?
  let failed ← Fields.required fs "failed" v.word?
  let totalDurationMs ← Fields.required fs "total_duration_ms" v.word?
  let outcomes ← Fields.required fs "outcomes" fun a =>
    (v.list? a).bind fun items => items.mapM (Outcome.read? v)
  return ⟨total, passed, skipped, failed, totalDurationMs, outcomes⟩

end Summary

structure RunSettings where
  suiteRoot : Path
  compilerBinary : Path
  parallel : Bool
  /-- How many ran at once, one in a sequential run. -/
  concurrency : UInt64
  /-- The patterns that selected fixtures. -/
  filters : List String
deriving DecidableEq, Repr

namespace RunSettings

def sequential (suiteRoot compilerBinary : Path) : RunSettings :=
  ⟨suiteRoot, compilerBinary, false, 1, []⟩

/-- The settings of a parallel run, in which at least one fixture runs at a time. -/
def inParallel (suiteRoot compilerBinary : Path) (concurrency : UInt64) : RunSettings :=
  ⟨suiteRoot, compilerBinary, true, if concurrency = 0 then 1 else concurrency, []⟩

/-- The names of the fields of run settings. The last one has a default. -/
def fieldNames : List String :=
  ["suite_root", "compiler_binary", "parallel", "concurrency", "filters"]

/-- Run settings as report data. An empty list of patterns is left out. -/
def data (c : RunSettings) : Data :=
  .record
    ([("suite_root", .path c.suiteRoot),
      ("compiler_binary", .path c.compilerBinary),
      ("parallel", .bool c.parallel),
      ("concurrency", .word c.concurrency)] ++
      if c.filters.isEmpty then [] else [("filters", .list (c.filters.map .text))])

def read? {α : Type} (v : View α) (a : α) : Option RunSettings := do
  let fs ← v.fields? fieldNames 1 a
  let suiteRoot ← Fields.required fs "suite_root" v.text?
  let compilerBinary ← Fields.required fs "compiler_binary" v.text?
  let parallel ← Fields.required fs "parallel" v.bool?
  let concurrency ← Fields.required fs "concurrency" v.word?
  let filters ← Fields.withDefault fs "filters" [] fun a =>
    (v.list? a).bind fun items => items.mapM v.text?
  return ⟨.ofText suiteRoot, .ofText compilerBinary, parallel, concurrency, filters⟩

end RunSettings

structure RunEnvironment where
  os : String
  arch : String
  toolVersion : String
deriving DecidableEq, Repr

namespace RunEnvironment

def currentVersion : String := "0.1.0"

def fieldNames : List String := ["os", "arch", "tool_version"]

def data (e : RunEnvironment) : Data :=
  .record [("os", .text e.os), ("arch", .text e.arch), ("tool_version", .text e.toolVersion)]

def read? {α : Type} (v : View α) (a : α) : Option RunEnvironment := do
  let fs ← v.fields? fieldNames 0 a
  let os ← Fields.required fs "os" v.text?
  let arch ← Fields.required fs "arch" v.text?
  let toolVersion ← Fields.required fs "tool_version" v.text?
  return ⟨os, arch, toolVersion⟩

end RunEnvironment

structure StoredRun where
  id : String
  startedAt : Instant
  completedAt : Instant
  settings : RunSettings
  environment : RunEnvironment
  summary : Summary
deriving DecidableEq, Repr

namespace StoredRun

/-- The stored form of a run; its identifier is the stamp of the instant it started at. -/
def ofRun (startedAt completedAt : Instant) (settings : RunSettings)
    (environment : RunEnvironment) (summary : Summary) : StoredRun :=
  ⟨startedAt.stamp, startedAt, completedAt, settings, environment, summary⟩

def fieldNames : List String :=
  ["id", "started_at", "completed_at", "config", "environment", "summary"]

def data (r : StoredRun) : Data :=
  .record
    [("id", .text r.id),
      ("started_at", .text r.startedAt.rfc3339),
      ("completed_at", .text r.completedAt.rfc3339),
      ("config", r.settings.data),
      ("environment", r.environment.data),
      ("summary", r.summary.data)]

def read? {α : Type} (v : View α) (a : α) : Option StoredRun := do
  let fs ← v.fields? fieldNames 0 a
  let id ← Fields.required fs "id" v.text?
  let startedAt ← Fields.required fs "started_at" fun a => (v.text? a).bind Instant.read?
  let completedAt ← Fields.required fs "completed_at" fun a => (v.text? a).bind Instant.read?
  let settings ← Fields.required fs "config" (RunSettings.read? v)
  let environment ← Fields.required fs "environment" (RunEnvironment.read? v)
  let summary ← Fields.required fs "summary" (Summary.read? v)
  return ⟨id, startedAt, completedAt, settings, environment, summary⟩

end StoredRun

end Conformance

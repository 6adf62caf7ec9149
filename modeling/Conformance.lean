import Conformance.Main
import Conformance.Proofs.Parallel.Step
import Conformance.Proofs.Parallel.Permits
import Conformance.Proofs.Outcome.Coherence
import Conformance.Proofs.Summary.Counts
import Conformance.Proofs.Runner.Turn
import Conformance.Proofs.Runner.Sequence
import Conformance.Proofs.Parallel.Refinement
import Conformance.Proofs.Program.ExitStatus
import Conformance.Proofs.Csv.Reading
import Conformance.Proofs.Path.Names
import Conformance.Proofs.FileSystem.Resolution
import Conformance.Proofs.Discovery.Route
import Conformance.Proofs.Discovery.Walk
import Conformance.Proofs.Discovery.Matching
import Conformance.Proofs.Discovery.Fixtures
import Conformance.Proofs.Discovery.Levels
import Conformance.Proofs.Number.Digits
import Conformance.Proofs.Text.Utf8
import Conformance.Proofs.Text.Lossy
import Conformance.Proofs.Fixture.Marker
import Conformance.Proofs.Fixture.Identifier
import Conformance.Proofs.Time.Calendar
import Conformance.Proofs.Time.Rfc3339
import Conformance.Proofs.Json.Reading
import Conformance.Proofs.Json.Layout
import Conformance.Proofs.Report.Records
import Conformance.Proofs.Store.RoundTrip
import Conformance.Proofs.Output.Json
import Conformance.Proofs.Parallel.Capacity
import Conformance.Proofs.Trial.Accounting
import Conformance.Proofs.Trial.Agreement
import Conformance.Proofs.Store.Yaml
import Conformance.Proofs.Store.Effect
import Conformance.Proofs.Environment.Guards
import Conformance.Proofs.Configuration.WorkingDirectory
import Conformance.Proofs.Output.Table
import Conformance.Proofs.Output.Colour
import Conformance.Proofs.CommandLine.Arrangement
import Conformance.Proofs.Time.Stamp
import Conformance.Proofs.Summary.Accounting
import Conformance.Proofs.FileSystem.Pruning
import Conformance.Proofs.Discovery.Obstacles
import Conformance.Proofs.Stopwatch.Phases
import Conformance.Proofs.Fixture.Selection
import Conformance.Proofs.Runner.Selection
import Conformance.Proofs.Json.Grammar
import Conformance.Proofs.Json.Exactness
import Conformance.Proofs.Json.Retelling
import Conformance.Proofs.Report.Layouts
import Conformance.Proofs.Report.Numbers

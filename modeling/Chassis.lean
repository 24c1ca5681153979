import Chassis.Lib.Dict
import Chassis.Lib.Elimination
import Chassis.Lib.Fallible
import Chassis.Lib.Kahn
import Chassis.Lib.Selection
import Chassis.Lib.Monitor
import Chassis.Capabilities.Plain
import Chassis.Persistence.Hashing
import Chassis.Secrets.Redaction
import Chassis.Plugins.Guarantees
import Chassis.Harness.Registries
import Chassis.Core.Accounting
import Chassis.Core.GenerationValues
import Chassis.Harness.Invariance
import Chassis.Harness.Frame
import Chassis.Harness.Guarding
import Chassis.Harness.Leases
import Chassis.Harness.Pending
import Chassis.Harness.Failures
import Chassis.Harness.Effects
import Chassis.Harness.Commit
import Chassis.Core.GenerationHistory
import Chassis.Config.Models
import Chassis.Config.Reconcile
import Chassis.Plugins.Catalog
import Chassis.Harness.Configure
import Chassis.Composition.Tree
import Chassis.Agents.Spec
import Chassis.Harness.Agents
import Chassis.Harness.Control
import Chassis.Harness.Orderly
import Chassis.Harness.Materialize
import Chassis.Harness.Revisions
import Chassis.Harness.Converge
import Chassis.Harness.Rollback
import Chassis.Harness.Depiction
import Chassis.Harness.Services
import Chassis.Harness.Active
import Chassis.Harness.Runs
import Chassis.Harness.Reuse
import Chassis.Budget.Conservation
import Chassis.Tools.Charging
import Chassis.Replay.Order
import Chassis.Tools.Executor
import Chassis.Tools.Gate
import Chassis.Tools.Replaying
import Chassis.Tools.Faithful
import Chassis.Harness.Teardown
import Chassis.Plugins.Permutation
import Chassis.Composition.Visibility
import Chassis.Lib.Handover
import Chassis.Harness.Snapshots
import Chassis.Harness.Ownership
import Chassis.Harness.Stability
import Chassis.Composition.Resolvable
import Chassis.Plugins.Validation
import Chassis.Composition.Agreement
import Chassis.Core.Scope
import Chassis.Core.Custody
import Chassis.Langgraph.Graphs
import Chassis.Langgraph.Transparency
import Chassis.Lib.Escape
import Chassis.Persistence.RoundTrip
import Chassis.Persistence.Rejection
import Chassis.Composition.Fingerprint
import Chassis.Core.Impact
import Chassis.Persistence.Canonical
import Chassis.Core.Discards
import Chassis.Harness.Preferences
import Chassis.Plugins.Resolutions
import Chassis.Plugins.Diagnoses
import Chassis.Plugins.Provenance
import Chassis.Harness.Bindings
import Chassis.Lib.Components
import Chassis.Plugins.Cycles
import Chassis.Capabilities.Specifiers
import Chassis.Replay.Export
import Chassis.Diagnostics.Differences
import Chassis.Harness.Seating
import Chassis.Harness.Shutdown
import Chassis.Composition.Removal
import Chassis.Lib.Passes
import Chassis.Lib.Replacement
import Chassis.Secrets.Scrubbed
import Chassis.Persistence.Json
import Chassis.Persistence.NormalForm
import Chassis.Persistence.Freezing
import Chassis.Lib.Nesting
import Chassis.Core.Nested
import Chassis.Core.Unwinding
import Chassis.Core.CloseReport
import Chassis.Harness.Relocation
import Chassis.Harness.Identities
import Chassis.Harness.Fates
import Chassis.Langgraph.Recent
import Chassis.Composition.Ownership
import Chassis.Harness.Environment
import Chassis.Harness.Hosting
import Chassis.Harness.Lifetimes
import Chassis.Harness.Enrolment
import Chassis.Harness.Preview
import Chassis.Harness.Forecast
import Chassis.Harness.Prediction
import Chassis.Persistence.Capture
import Chassis.Diagnostics.Pressure

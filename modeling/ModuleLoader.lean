import ModuleLoader.Arena
import ModuleLoader.Decimal.Notation
import ModuleLoader.Decimal.Reading
import ModuleLoader.Decimal.Shortest
import ModuleLoader.Execution.Bodies
import ModuleLoader.Execution.Driving
import ModuleLoader.Execution.Graph
import ModuleLoader.Execution.Importing
import ModuleLoader.Execution.Running
import ModuleLoader.Execution.Scheduling
import ModuleLoader.Execution.Work
import ModuleLoader.Failure
import ModuleLoader.Host
import ModuleLoader.Json.Document
import ModuleLoader.Json.Number
import ModuleLoader.Json.Reader
import ModuleLoader.Linkage.Batch
import ModuleLoader.Linkage.Binding
import ModuleLoader.Linkage.Codec
import ModuleLoader.Linkage.Exports
import ModuleLoader.Linkage.Linking
import ModuleLoader.Linkage.Wiring
import ModuleLoader.Loading.Closure
import ModuleLoader.Loading.Describing
import ModuleLoader.Loading.Draft
import ModuleLoader.Loading.Holdback
import ModuleLoader.Loading.Shallow
import ModuleLoader.Loading.Work
import ModuleLoader.Module.Descriptor
import ModuleLoader.Module.Environment
import ModuleLoader.Module.Phase
import ModuleLoader.Module.Record
import ModuleLoader.Module.Script
import ModuleLoader.Registry.Building
import ModuleLoader.Registry.Interpreting
import ModuleLoader.Registry.Memo
import ModuleLoader.Session.Evaluation
import ModuleLoader.Session.Inspection
import ModuleLoader.Session.Setup
import ModuleLoader.Session.Tasks
import ModuleLoader.Settings
import ModuleLoader.Signal.Board
import ModuleLoader.Signal.Driving
import ModuleLoader.Signal.Seats
import ModuleLoader.Signal.Shared
import ModuleLoader.Specifier
import ModuleLoader.Table
import ModuleLoader.Text.Layout
import ModuleLoader.Text.Quoted
import ModuleLoader.Text.Shown
import ModuleLoader.Value
import ModuleLoader.Value.Inspect
import ModuleLoader.Value.Store
import ModuleLoader.Value.View
import ModuleLoader.Proofs.Actions
import ModuleLoader.Proofs.Agreements
import ModuleLoader.Proofs.Assignments
import ModuleLoader.Proofs.Chronicles
import ModuleLoader.Proofs.Drafts
import ModuleLoader.Proofs.Graphs
import ModuleLoader.Proofs.Shifts
import ModuleLoader.Proofs.Turns
import ModuleLoader.Proofs.DeadEnds
import ModuleLoader.Proofs.StarExports
import ModuleLoader.Proofs.Forwardings
import ModuleLoader.Proofs.LoadRuns
import ModuleLoader.Proofs.HookDiscipline
import ModuleLoader.Proofs.MetRequests
import ModuleLoader.Proofs.LinkFailures
import ModuleLoader.Proofs.Settlements
import ModuleLoader.Proofs.Resolutions
import ModuleLoader.Proofs.Presets
import ModuleLoader.Proofs.Refusals
import ModuleLoader.Proofs.Groupings
import ModuleLoader.Proofs.LoadWaits
import ModuleLoader.Proofs.Paths
import ModuleLoader.Proofs.Isolation
import ModuleLoader.Proofs.Holdbacks
import ModuleLoader.Proofs.Updates
import ModuleLoader.Proofs.Notations
import ModuleLoader.Proofs.DriverAccounts

import RcdServer.Lib.Run
import RcdServer.Lib.Text
import RcdServer.Lib.Kahn
import RcdServer.Lib.Dataflow
import RcdServer.Lib.Chunks
import RcdServer.Lib.Maps
import RcdServer.Lib.Spans
import RcdServer.Lib.Framing
import RcdServer.Lib.Scanner
import RcdServer.Lib.Sorting
import RcdServer.Lib.Trimming
import RcdServer.Lib.Leaves
import RcdServer.Lib.Lines
import RcdServer.Lib.Paths
import RcdServer.Protocol.PointTable
import RcdServer.Protocol.Frame
import RcdServer.Protocol.Extraction
import RcdServer.Tracking.Journal
import RcdServer.Tracking.Retention
import RcdServer.Tracking.State
import RcdServer.Tracking.Tracker
import RcdServer.Tracking.Admission
import RcdServer.Tracking.Paging
import RcdServer.Tracking.Memory
import RcdServer.Tracking.Rejection
import RcdServer.Operations.Control
import RcdServer.Operations.Maintenance
import RcdServer.Operations.Fence
import RcdServer.Operations.Files
import RcdServer.Operations.Configs
import RcdServer.Serial.CommandTransaction
import RcdServer.Serial.Manager
import RcdServer.Serial.Offline
import RcdServer.Serial.Assembly
import RcdServer.Serial.Chunking
import RcdServer.Serial.RoundRobin
import RcdServer.Serial.GoodPublication
import RcdServer.Serial.Worker
import RcdServer.Serial.Roles
import RcdServer.Calc.Float
import RcdServer.Calc.Syntax
import RcdServer.Calc.Rust.Expression
import RcdServer.Calc.Rust.Printing
import RcdServer.Calc.Rust.Spelling
import RcdServer.Calc.Paths
import RcdServer.Calc.Rust.Evaluator
import RcdServer.Calc.Rust.Validity
import RcdServer.Calc.Rust.Engine
import RcdServer.Calc.Go.Expression
import RcdServer.Calc.Go.Evaluate
import RcdServer.Calc.Go.Plan
import RcdServer.Calc.Go.Runner
import RcdServer.Calc.Go.Provenance
import RcdServer.Calc.Incremental
import RcdServer.Calc.Service
import RcdServer.Calc.Lossless
import RcdServer.Calc.Notified
import RcdServer.Calc.SameSyntax
import RcdServer.Calc.Rust.Ordering
import RcdServer.Calc.SameValues
import RcdServer.Calc.Agreement
import RcdServer.Communicate.UnitReport
import RcdServer.Communicate.Mailboxes
import RcdServer.Communicate.Transmission
import RcdServer.Communicate.Frame
import RcdServer.Communicate.Envelope
import RcdServer.Communicate.Points
import RcdServer.Communicate.Publication
import RcdServer.Communicate.Stream
import RcdServer.Communicate.Freshness
import RcdServer.Communicate.Silence
import RcdServer.Communicate.Polling
import RcdServer.Communicate.Fields
import RcdServer.Routes.Configuration
import RcdServer.Routes.Table
import RcdServer.Routes.Runs
import RcdServer.Routes.Indices
import RcdServer.Routes.Sessions
import RcdServer.Routes.Changes
import RcdServer.Routes.Routing
import RcdServer.Routes.Pinning
import RcdServer.Routes.Membership
import RcdServer.Commands.Execution
import RcdServer.Commands.NoEscape
import RcdServer.Process.Maintenance
import RcdServer.Commands.Runtime
import RcdServer.Commands.Calls
import RcdServer.Commands.Fencing
import RcdServer.Commands.Exclusion
import RcdServer.Process.Operations
import RcdServer.Process.Moves
import RcdServer.Process.Dispatch
import RcdServer.Process.Marks
import RcdServer.Audit.Repository
import RcdServer.Audit.Service
import RcdServer.Audit.Growth
import RcdServer.Audit.Stored
import RcdServer.Audit.Saves
import RcdServer.Audit.Evidence
import RcdServer.Redundancy.Service
import RcdServer.Redundancy.Stamps
import RcdServer.Redundancy.Qualification
import RcdServer.Redundancy.Comparison
import RcdServer.LowerLogs.Events
import RcdServer.LowerLogs.Protocol
import RcdServer.LowerLogs.Streams
import RcdServer.LowerLogs.Delivery
import RcdServer.LowerLogs.Draining
import RcdServer.LowerLogs.Chunked
import RcdServer.LowerLogs.Spool
import RcdServer.LowerLogs.Files
import RcdServer.LowerLogs.Appends
import RcdServer.LowerLogs.Pages
import RcdServer.Agent.Types
import RcdServer.Agent.Supervisor
import RcdServer.Agent.Handshake
import RcdServer.Agent.Lifecycle
import RcdServer.Agent.Steps
import RcdServer.Agent.Moves
import RcdServer.Agent.Sealed
import RcdServer.Catalog.Union
import RcdServer.Catalog.Owners
import RcdServer.Catalog.Classification
import RcdServer.Catalog.Validation
import RcdServer.Catalog.Isolation
import RcdServer.Catalog.Persistence
import RcdServer.Catalog.Index
import RcdServer.Catalog.Exactness
import RcdServer.Opc.Newest
import RcdServer.Opc.Convergence
import RcdServer.Opc.HexText
import RcdServer.Server.Topology
import RcdServer.Server.NodePaths
import RcdServer.Operations.Agreement
import RcdServer.Operations.Logs
import RcdServer.Operations.LogPages
import RcdServer.Operations.LogCuts
import RcdServer.Operations.LogChains
import RcdServer.Addressing.Devices
import RcdServer.Addressing.Ownership
import RcdServer.ConfigForm.Form
import RcdServer.ConfigForm.Paths
import RcdServer.ConfigForm.Edits

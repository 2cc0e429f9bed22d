import ContextMesh.Cli.Commands
import ContextMesh.Cli.Documents
import ContextMesh.Cli.Exits
import ContextMesh.Cli.Stations
import ContextMesh.Client.Branches
import ContextMesh.Client.Command
import ContextMesh.Client.Detached
import ContextMesh.Client.Invocations
import ContextMesh.Client.Outcomes
import ContextMesh.Client.Pending
import ContextMesh.Client.Processes
import ContextMesh.Client.Queries
import ContextMesh.Client.Recording
import ContextMesh.Client.Responses
import ContextMesh.Client.Retries
import ContextMesh.Client.Store
import ContextMesh.Codec.Bundle
import ContextMesh.Codec.Event
import ContextMesh.Codec.Reading
import ContextMesh.Codec.Sizes
import ContextMesh.Codec.Sync
import ContextMesh.Contract.Boundary
import ContextMesh.Contract.Decode
import ContextMesh.Contract.Event
import ContextMesh.Contract.Identifiers
import ContextMesh.Contract.Json
import ContextMesh.Contract.Plain
import ContextMesh.Contract.Strictness
import ContextMesh.Custody.Loading
import ContextMesh.Custody.Secrets
import ContextMesh.Delivery.Capability
import ContextMesh.Delivery.Difference
import ContextMesh.Delivery.Handoff
import ContextMesh.Delivery.HistoryFile
import ContextMesh.Delivery.Negotiation
import ContextMesh.Delivery.Recorded
import ContextMesh.Delivery.Repair
import ContextMesh.Delivery.Summary
import ContextMesh.Delivery.Validity
import ContextMesh.Delta.Ancestry
import ContextMesh.Delta.Closure
import ContextMesh.Delta.Coverage
import ContextMesh.Delta.Critical
import ContextMesh.Delta.Recipient
import ContextMesh.Delta.Surveys
import ContextMesh.Delta.Views
import ContextMesh.Evaluation.Chain
import ContextMesh.Evaluation.Isolation
import ContextMesh.Evaluation.Minimality
import ContextMesh.Evaluation.Offering
import ContextMesh.Evaluation.Planting
import ContextMesh.Evaluation.Sufficiency
import ContextMesh.Evaluation.Suite
import ContextMesh.Foundation.Ascii
import ContextMesh.Foundation.Bisection
import ContextMesh.Foundation.Calendar
import ContextMesh.Foundation.Checked
import ContextMesh.Foundation.Embedding
import ContextMesh.Foundation.Exploration
import ContextMesh.Foundation.Gossip
import ContextMesh.Foundation.Interaction
import ContextMesh.Foundation.Keyed
import ContextMesh.Foundation.Ordered
import ContextMesh.Foundation.Paging
import ContextMesh.Foundation.Pipe
import ContextMesh.Foundation.Postorder
import ContextMesh.Foundation.Refinement
import ContextMesh.Foundation.Scanning
import ContextMesh.Foundation.TextFile
import ContextMesh.Foundation.Traversal
import ContextMesh.Foundation.Volume
import ContextMesh.Ledger.Admission
import ContextMesh.Ledger.Basic
import ContextMesh.Ledger.Batch
import ContextMesh.Ledger.Changes
import ContextMesh.Ledger.Confluence
import ContextMesh.Ledger.Consistency
import ContextMesh.Ledger.Cutting
import ContextMesh.Ledger.Decoding
import ContextMesh.Ledger.Exact
import ContextMesh.Ledger.Findings
import ContextMesh.Ledger.Graph
import ContextMesh.Ledger.History
import ContextMesh.Ledger.Import
import ContextMesh.Ledger.Lifetimes
import ContextMesh.Ledger.Namespaces
import ContextMesh.Ledger.Operations
import ContextMesh.Ledger.Paging
import ContextMesh.Ledger.Projection
import ContextMesh.Ledger.Race
import ContextMesh.Ledger.Refs
import ContextMesh.Ledger.Reimport
import ContextMesh.Ledger.Runs
import ContextMesh.Ledger.Statements
import ContextMesh.Ledger.Transfer
import ContextMesh.Ledger.Verification
import ContextMesh.Receipt.Dag
import ContextMesh.Receipt.Envelope
import ContextMesh.Receipt.Instants
import ContextMesh.Receipt.Record
import ContextMesh.Receipt.Signed
import ContextMesh.Receipt.Timestamp
import ContextMesh.Reference.Base64
import ContextMesh.Reference.Bulk
import ContextMesh.Reference.Exchange
import ContextMesh.Reference.Golden
import ContextMesh.Reference.JsonText
import ContextMesh.Reference.Libraries
import ContextMesh.Reference.Marked
import ContextMesh.Reference.Probe
import ContextMesh.Reference.World
import ContextMesh.Selection.Baseline
import ContextMesh.Selection.Ranking
import ContextMesh.Store.Admission
import ContextMesh.Store.Bundle
import ContextMesh.Store.Dag
import ContextMesh.Store.Errors
import ContextMesh.Store.Integrity
import ContextMesh.Store.Names
import ContextMesh.Store.Opening
import ContextMesh.Store.Operation
import ContextMesh.Store.Sync
import ContextMesh.Store.Tables
import ContextMesh.Store.Verify
import ContextMesh.Sync.Capping
import ContextMesh.Sync.Convergence
import ContextMesh.Sync.HeaderGuard
import ContextMesh.Sync.Idempotence
import ContextMesh.Sync.Meeting
import ContextMesh.Sync.Mesh
import ContextMesh.Sync.Protocol
import ContextMesh.Sync.Pull
import ContextMesh.Sync.Repetition
import ContextMesh.Sync.Rounds
import ContextMesh.Sync.Safety
import ContextMesh.Sync.Server
import ContextMesh.Sync.Serving
import ContextMesh.Sync.Sessions
import ContextMesh.Sync.Spreading
import ContextMesh.Sync.Undisturbed
import ContextMesh.Transport.Client
import ContextMesh.Transport.Guard
import ContextMesh.Transport.Message
import ContextMesh.Transport.Pulling
import ContextMesh.Transport.Refinement
import ContextMesh.Transport.Serving

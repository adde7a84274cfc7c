import PgAgmemory.Delivery.Boundary
import PgAgmemory.Delivery.Client
import PgAgmemory.Delivery.Lock
import PgAgmemory.Delivery.Safety
import PgAgmemory.Delivery.Steps
import PgAgmemory.Delivery.Traffic
import PgAgmemory.Expanding.Enumeration
import PgAgmemory.Expanding.Walks
import PgAgmemory.Forgetting.Erasure
import PgAgmemory.Forgetting.Grounds
import PgAgmemory.Forgetting.Lasting
import PgAgmemory.Forgetting.Outcome
import PgAgmemory.Forgetting.Purge
import PgAgmemory.Forgetting.Purged
import PgAgmemory.Forgetting.Run
import PgAgmemory.Forgetting.Steps
import PgAgmemory.Guarantees.AccessLog
import PgAgmemory.Guarantees.Agreement
import PgAgmemory.Guarantees.AllOrNothing
import PgAgmemory.Guarantees.Bitemporal
import PgAgmemory.Guarantees.Branches
import PgAgmemory.Guarantees.Completeness
import PgAgmemory.Guarantees.Contexts
import PgAgmemory.Guarantees.Delivery
import PgAgmemory.Guarantees.Effects
import PgAgmemory.Guarantees.Envelopes
import PgAgmemory.Guarantees.Expansions
import PgAgmemory.Guarantees.Histories
import PgAgmemory.Guarantees.Identities
import PgAgmemory.Guarantees.Jobs
import PgAgmemory.Guarantees.Listings
import PgAgmemory.Guarantees.Migrations
import PgAgmemory.Guarantees.Minimality
import PgAgmemory.Guarantees.Projections
import PgAgmemory.Guarantees.Quotes
import PgAgmemory.Guarantees.Rankings
import PgAgmemory.Guarantees.Recalls
import PgAgmemory.Guarantees.Receipts
import PgAgmemory.Guarantees.Relations
import PgAgmemory.Guarantees.Restores
import PgAgmemory.Guarantees.Seals
import PgAgmemory.History.Acceptance
import PgAgmemory.History.Building
import PgAgmemory.History.Checkpoints
import PgAgmemory.History.Contexts
import PgAgmemory.History.Effects
import PgAgmemory.History.Jobs
import PgAgmemory.History.Kept
import PgAgmemory.History.Leases
import PgAgmemory.History.Lineage
import PgAgmemory.History.Loads
import PgAgmemory.History.Machine
import PgAgmemory.History.Maintained
import PgAgmemory.History.Orderly
import PgAgmemory.History.Progress
import PgAgmemory.History.Projections
import PgAgmemory.History.Quotes
import PgAgmemory.History.Relations
import PgAgmemory.History.Retained
import PgAgmemory.History.Revisions
import PgAgmemory.History.Seals
import PgAgmemory.History.Sound
import PgAgmemory.History.Steady
import PgAgmemory.History.Texts
import PgAgmemory.History.Transitions
import PgAgmemory.History.Whole
import PgAgmemory.Library.BreadthFirst
import PgAgmemory.Library.Calendar
import PgAgmemory.Library.Chain
import PgAgmemory.Library.Counting
import PgAgmemory.Library.Digits
import PgAgmemory.Library.Fusion
import PgAgmemory.Library.Greedy
import PgAgmemory.Library.Journal
import PgAgmemory.Library.Json
import PgAgmemory.Library.Paging
import PgAgmemory.Library.Program
import PgAgmemory.Library.Reach
import PgAgmemory.Library.Stepwise
import PgAgmemory.Library.Table
import PgAgmemory.Migrations.Legacy
import PgAgmemory.Migrations.Revisions
import PgAgmemory.Models.Queries
import PgAgmemory.Models.Requests
import PgAgmemory.Models.Validation
import PgAgmemory.Models.Values
import PgAgmemory.Operations.Admissions
import PgAgmemory.Operations.Envelopes
import PgAgmemory.Operations.Fences
import PgAgmemory.Operations.Footprints
import PgAgmemory.Operations.Jobs
import PgAgmemory.Operations.Memory
import PgAgmemory.Operations.Parts
import PgAgmemory.Operations.Payloads
import PgAgmemory.Operations.Publications
import PgAgmemory.Operations.Repeats
import PgAgmemory.Operations.Requests
import PgAgmemory.Operations.Saves
import PgAgmemory.Operations.Shared
import PgAgmemory.Operations.Signatures
import PgAgmemory.Operations.Turns
import PgAgmemory.Recalling.Candidates
import PgAgmemory.Recalling.Citations
import PgAgmemory.Recalling.Embedded
import PgAgmemory.Recalling.Fused
import PgAgmemory.Recalling.Lexical
import PgAgmemory.Recalling.Offers
import PgAgmemory.Recalling.Packing
import PgAgmemory.Recalling.Reports
import PgAgmemory.Recalling.Results
import PgAgmemory.Recalling.Vectors
import PgAgmemory.Service.Access
import PgAgmemory.Service.Checkpoints
import PgAgmemory.Service.Effects
import PgAgmemory.Service.Embeddings
import PgAgmemory.Service.Forget
import PgAgmemory.Service.Graph
import PgAgmemory.Service.History
import PgAgmemory.Service.Jobs
import PgAgmemory.Service.Lexical
import PgAgmemory.Service.Listings
import PgAgmemory.Service.Memory
import PgAgmemory.Service.Recall
import PgAgmemory.Service.RecallHook
import PgAgmemory.Storage.Checkpoint
import PgAgmemory.Storage.Constraints
import PgAgmemory.Storage.Content
import PgAgmemory.Storage.Engine
import PgAgmemory.Storage.Graph
import PgAgmemory.Storage.Ledger
import PgAgmemory.Storage.Policies
import PgAgmemory.Storage.Purge
import PgAgmemory.Storage.Queue
import PgAgmemory.Storage.Schema
import PgAgmemory.Storage.Statement
import PgAgmemory.System.Calls
import PgAgmemory.System.Growth
import PgAgmemory.System.Integrity
import PgAgmemory.System.Inversion
import PgAgmemory.System.Outcomes
import PgAgmemory.System.Reading
import PgAgmemory.System.Refusals
import PgAgmemory.System.Runs
import PgAgmemory.System.Visibility
import PgAgmemory.System.Writers

import PgAgmemory.Service.Embeddings
import PgAgmemory.Service.Listings

/-! # Queries

The routes that only look: the listings, the history of an assertion, the text of an embedding, the record
of a purge and the capabilities of the service. Each is one transaction like any other request, and
sends no statement but its queries. -/

namespace PgAgmemory

/-! ## The record of a purge -/

/-- The principal's own record of a purge. -/
def View.deletionRequest? (v : View) (id : UUID) : Option DeletionRequestRow :=
  (v.store.operations.deletions.find? id).filter fun r => decide (r.principalId = v.principal)

/-- What the record of a purge says; its mode, its state and its backup status are constants. -/
structure DeletionProgress where
  deletionId : UUID
  objectCount : Nat
  deletionEpoch : Nat
  createdAt : Time
  deriving DecidableEq

/-- `deletion`. -/
def MemoryService.deletion (receiptId : UUID) : Tx DeletionProgress := do
  let row ← read fun v => v.deletionRequest? receiptId
  let row ← found row .notFound
  pure ⟨row.id, row.objectCount, row.deletionEpoch, row.createdAt⟩

/-! ## Queries and answers -/

/-- **A query** of a client. -/
inductive Query where
  | episodes (data : QueryEpisodes)
  | entities (data : QueryEntities)
  | jobs (data : QueryJobs)
  | assertionHistory (data : AssertionHistory)
  | embeddingInput (data : Explain)
  | deletion (receiptId : UUID)
  | capabilities

/-- What a query returns. -/
inductive Answer where
  | episodes (page : Page EpisodeSummary)
  | entities (page : Page EntitySummary)
  | jobs (page : Page ListedJob)
  | assertionHistory (page : AssertionHistoryPage)
  | embeddingInput (input : Embeddings.EmbeddingInput)
  | deletion (progress : DeletionProgress)
  /-- A constant of the release. -/
  | capabilities

/-- The program of a query. -/
def Query.body (platform : Platform) : Query → Tx Answer
  | .episodes data => .episodes <$> MemoryService.queryEpisodes data
  | .entities data => .entities <$> SqlGraph.queryEntities data
  | .jobs data => .jobs <$> Jobs.query data
  | .assertionHistory data => .assertionHistory <$> MemoryService.assertionHistory data
  | .embeddingInput data => .embeddingInput <$> Embeddings.input platform data
  | .deletion receiptId => .deletion <$> MemoryService.deletion receiptId
  | .capabilities => pure .capabilities

end PgAgmemory

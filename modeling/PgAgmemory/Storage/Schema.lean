import PgAgmemory.Library.Table
import PgAgmemory.Models.Requests

/-! # The store

The tables of one tenant. Every key, every foreign key and every policy of the schema carries
`tenant_id`, so the rows of one tenant are a store of their own and the column itself is left out.
A generated `kind` column is the constant of its table, and a text column is as wide as the contract
text that fills it, which is what its length check says.

Tables are grouped by area, so that a statement about one area leaves the others alone by
definition. -/

namespace PgAgmemory

open Keyed (HasKey Table)

/-- A half-open range of instants; an absent bound is infinite. -/
structure Range where
  lower : Option Time
  upper : Option Time
  deriving DecidableEq

/-- Whether an instant lies in a range: `range @> instant`. -/
def Range.contains (r : Range) (t : Time) : Bool :=
  (r.lower.all fun a => a ≤ t) && r.upper.all fun b => t < b

/-- `NOT isempty(range)`. -/
def Range.nonempty (r : Range) : Bool :=
  r.lower.all fun a => r.upper.all fun b => a < b

/-! ## Access -/

/-- A permission on a scope. -/
inductive Permission where
  | read | write | delete | admin
  deriving DecidableEq

/-- The secret key of a tenant's digests, 32 bytes. -/
abbrev Secret := Fin (2 ^ 256)

/-- A principal and the subject it authenticates with. -/
structure PrincipalRow where
  id : UUID
  externalSubject : String

instance : HasKey PrincipalRow UUID := ⟨PrincipalRow.id⟩

/-- A scope. -/
structure ScopeRow where
  id : UUID

instance : HasKey ScopeRow UUID := ⟨ScopeRow.id⟩

/-- The permissions of one principal in one scope. -/
structure ScopeMemberRow where
  scopeId : UUID
  principalId : UUID
  permissions : List Permission
  expiresAt : Option Time

instance : HasKey ScopeMemberRow (UUID × UUID) := ⟨fun r => (r.scopeId, r.principalId)⟩

/-- One change of a membership. -/
structure ScopeAccessEventRow where
  accessEpoch : Nat
  scopeId : UUID
  principalId : UUID
  /-- Whether the membership was set; otherwise revoked. -/
  set : Bool
  previousPermissions : Option (List Permission)
  previousExpiresAt : Option Time
  permissions : Option (List Permission)
  expiresAt : Option Time
  recordedAt : Time

instance : HasKey ScopeAccessEventRow Nat := ⟨ScopeAccessEventRow.accessEpoch⟩

/-- The tenant row, its principals, scopes and memberships. -/
structure Access where
  accessEpoch : Nat
  deletionEpoch : Nat
  dedupSecret : Secret
  principals : Table PrincipalRow
  scopes : Table ScopeRow
  members : Table ScopeMemberRow
  events : Table ScopeAccessEventRow

/-! ## Objects -/

/-- The kind of an object. -/
inductive ObjectKind where
  | episode | assertion | checkpoint | toolEffect | entity | job
  deriving DecidableEq

/-- The anchor of an object: it outlives the object's content. -/
structure ObjectRow where
  id : UUID
  scopeId : UUID
  kind : ObjectKind
  createdAt : Time

instance : HasKey ObjectRow UUID := ⟨ObjectRow.id⟩

/-- The mark of a deleted object. -/
structure TombstoneRow where
  objectId : UUID
  scopeId : UUID
  deletedAt : Time

instance : HasKey TombstoneRow UUID := ⟨TombstoneRow.objectId⟩

/-- Object anchors and tombstones. -/
structure Anchor where
  objects : Table ObjectRow
  tombstones : Table TombstoneRow

/-! ## Episodes and assertions -/

/-- An indexed text: the texts given to `to_tsvector('simple', …)`, concatenated by `||`. -/
abbrev TsVector := List String

/-- A stored vector of the embedding extension. -/
abbrev Embedding := List Rat

/-- An episode. -/
structure EpisodeRow where
  id : UUID
  scopeId : UUID
  occurredAt : Time
  content : Content
  consentReference : ShortText

instance : HasKey EpisodeRow UUID := ⟨EpisodeRow.id⟩

/-- The generated `search_text` of an episode. -/
def EpisodeRow.searchText (r : EpisodeRow) : TsVector := [r.content.str]

/-- The identity of an assertion and its current revision. -/
structure AssertionRow where
  id : UUID
  scopeId : UUID
  subject : ShortText
  predicate : Predicate
  isRelation : Bool
  currentRevision : Nat

instance : HasKey AssertionRow UUID := ⟨AssertionRow.id⟩

/-- The generated `search_text` of an assertion. -/
def AssertionRow.searchText (r : AssertionRow) : TsVector :=
  [r.subject.str ++ " " ++ r.predicate.str]

/-- One revision of an assertion. -/
structure AssertionRevisionRow where
  assertionId : UUID
  scopeId : UUID
  revision : Nat
  value : Content
  validTime : Range
  /-- The lower bound of `system_time`, always finite. -/
  systemFrom : Time
  /-- The upper bound of `system_time`, absent while the revision is current. -/
  systemTo : Option Time
  correctionReason : Option ShortText

instance : HasKey AssertionRevisionRow (UUID × Nat) := ⟨fun r => (r.assertionId, r.revision)⟩

/-- The `system_time` of a revision. -/
def AssertionRevisionRow.systemTime (r : AssertionRevisionRow) : Range := ⟨r.systemFrom, r.systemTo⟩

/-- The generated `search_text` of a revision. -/
def AssertionRevisionRow.searchText (r : AssertionRevisionRow) : TsVector := [r.value.str]

/-- The evidence of one revision from one episode. -/
structure ProvenanceEdgeRow where
  childId : UUID
  childRevision : Nat
  parentId : UUID
  scopeId : UUID
  quote : LongText

instance : HasKey ProvenanceEdgeRow (UUID × Nat × UUID) :=
  ⟨fun r => (r.childId, r.childRevision, r.parentId)⟩

/-- The Japanese projection of an episode. -/
structure EpisodeLexicalRow where
  episodeId : UUID
  scopeId : UUID
  searchText : TsVector

instance : HasKey EpisodeLexicalRow UUID := ⟨EpisodeLexicalRow.episodeId⟩

/-- The Japanese projection of a revision. -/
structure AssertionLexicalRow where
  assertionId : UUID
  revision : Nat
  scopeId : UUID
  searchText : TsVector

instance : HasKey AssertionLexicalRow (UUID × Nat) := ⟨fun r => (r.assertionId, r.revision)⟩

/-- The embedding of an episode by one model. -/
structure EpisodeEmbeddingRow where
  episodeId : UUID
  revision : Nat
  scopeId : UUID
  model : EmbeddingModel
  inputDigest : Digest
  embedding : Embedding

instance : HasKey EpisodeEmbeddingRow (UUID × Nat × EmbeddingModel) :=
  ⟨fun r => (r.episodeId, r.revision, r.model)⟩

/-- The embedding of a revision by one model. -/
structure AssertionEmbeddingRow where
  assertionId : UUID
  revision : Nat
  scopeId : UUID
  model : EmbeddingModel
  inputDigest : Digest
  embedding : Embedding

instance : HasKey AssertionEmbeddingRow (UUID × Nat × EmbeddingModel) :=
  ⟨fun r => (r.assertionId, r.revision, r.model)⟩

/-- Episodes, assertions and what is derived from their texts. -/
structure Contents where
  episodes : Table EpisodeRow
  assertions : Table AssertionRow
  revisions : Table AssertionRevisionRow
  edges : Table ProvenanceEdgeRow
  episodeLexical : Table EpisodeLexicalRow
  assertionLexical : Table AssertionLexicalRow
  episodeEmbeddings : Table EpisodeEmbeddingRow
  assertionEmbeddings : Table AssertionEmbeddingRow

/-! ## Graph -/

/-- An entity. -/
structure EntityRow where
  id : UUID
  scopeId : UUID
  entityType : EntityType
  canonicalLabel : ShortText
  referenceCount : Nat

instance : HasKey EntityRow UUID := ⟨EntityRow.id⟩

/-- The evidence of an entity from one episode. -/
structure EntityEvidenceRow where
  entityId : UUID
  scopeId : UUID
  sourceId : UUID
  quote : LongText

instance : HasKey EntityEvidenceRow (UUID × UUID) := ⟨fun r => (r.entityId, r.sourceId)⟩

/-- The source entity of a relation assertion. -/
structure RelationRow where
  id : UUID
  scopeId : UUID
  sourceId : UUID

instance : HasKey RelationRow UUID := ⟨RelationRow.id⟩

/-- The target entity of one revision of a relation. -/
structure RelationRevisionRow where
  assertionId : UUID
  scopeId : UUID
  revision : Nat
  targetId : UUID

instance : HasKey RelationRevisionRow (UUID × Nat) := ⟨fun r => (r.assertionId, r.revision)⟩

/-- Entities and relations. -/
structure Graph where
  entities : Table EntityRow
  evidence : Table EntityEvidenceRow
  relations : Table RelationRow
  targets : Table RelationRevisionRow

/-! ## Checkpoints -/

/-- A run of a harness. -/
structure CheckpointRunRow where
  scopeId : UUID
  runId : UUID
  harnessId : ShortText
  harnessVersion : ShortText
  effectsInvalidated : Bool

instance : HasKey CheckpointRunRow (UUID × UUID) := ⟨fun r => (r.scopeId, r.runId)⟩

/-- A branch of a run and its head. -/
structure CheckpointBranchRow where
  scopeId : UUID
  runId : UUID
  branchId : UUID
  headId : Option UUID
  sequence : Nat
  invalidated : Bool

instance : HasKey CheckpointBranchRow (UUID × UUID × UUID) :=
  ⟨fun r => (r.scopeId, r.runId, r.branchId)⟩

/-- A saved state. -/
structure CheckpointRow where
  id : UUID
  scopeId : UUID
  runId : UUID
  branchId : UUID
  sequence : Nat
  /-- Drawn from the sequence of the table when the row is built. -/
  ordinal : Nat
  parentId : Option UUID
  state : Json.Value
  eventWatermark : Nat
  referenceCount : Nat
  accessEpoch : Nat
  deletionEpoch : Nat
  checksum : Digest

instance : HasKey CheckpointRow UUID := ⟨CheckpointRow.id⟩

/-- A memory that a checkpoint refers to. -/
structure CheckpointReferenceRow where
  checkpointId : UUID
  scopeId : UUID
  sourceId : UUID
  sourceRevision : Nat
  sourceKind : ObjectKind

instance : HasKey CheckpointReferenceRow (UUID × UUID × Nat) :=
  ⟨fun r => (r.checkpointId, r.sourceId, r.sourceRevision)⟩

/-- Runs, branches and checkpoints. -/
structure Checkpointing where
  runs : Table CheckpointRunRow
  branches : Table CheckpointBranchRow
  checkpoints : Table CheckpointRow
  references : Table CheckpointReferenceRow
  /-- The next value of the ordinal sequence. -/
  nextOrdinal : Nat

/-! ## Tool effects -/

/-- Where an effect revision comes from. -/
inductive Origin where
  | api | checkpointRestore
  deriving DecidableEq

/-- An external effect of a run. -/
structure ToolEffectRow where
  id : UUID
  scopeId : UUID
  runId : UUID
  operationId : UUID
  toolName : ShortText
  actionFingerprint : Digest
  externalIdempotencyKey : Digest
  currentRevision : Nat
  referenceCount : Nat

instance : HasKey ToolEffectRow UUID := ⟨ToolEffectRow.id⟩

/-- One status of an effect. -/
structure ToolEffectRevisionRow where
  effectId : UUID
  revision : Nat
  status : EffectStatus
  recordedAt : Time
  actorId : UUID
  reason : ShortText
  receiptReference : Option ShortText
  receiptSource : Option ReceiptSource
  origin : Origin

instance : HasKey ToolEffectRevisionRow (UUID × Nat) := ⟨fun r => (r.effectId, r.revision)⟩

/-- A memory that an effect refers to. -/
structure ToolEffectReferenceRow where
  effectId : UUID
  scopeId : UUID
  sourceId : UUID
  sourceRevision : Nat
  sourceKind : ObjectKind

instance : HasKey ToolEffectReferenceRow (UUID × UUID × Nat) :=
  ⟨fun r => (r.effectId, r.sourceId, r.sourceRevision)⟩

/-- The identity of an effect, which outlives its content. -/
structure ToolEffectIdentityRow where
  scopeId : UUID
  runId : UUID
  operationId : UUID
  effectId : UUID
  requestDigest : Digest

instance : HasKey ToolEffectIdentityRow (UUID × UUID × UUID) :=
  ⟨fun r => (r.scopeId, r.runId, r.operationId)⟩

/-- The effect ledger. -/
structure Ledger where
  effects : Table ToolEffectRow
  revisions : Table ToolEffectRevisionRow
  references : Table ToolEffectReferenceRow
  identities : Table ToolEffectIdentityRow

/-! ## Jobs -/

/-- The state of a job. -/
inductive JobState where
  | pending | running | succeeded | failed | cancelled
  deriving DecidableEq

/-- A queued publication. -/
structure JobRow where
  id : UUID
  scopeId : UUID
  principalId : UUID
  intentDigest : Digest
  retryOf : Option UUID
  state : JobState
  payload : Option Json.Value
  referenceCount : Nat
  attempt : Nat
  leaseToken : Option UUID
  leaseUntil : Option Time
  availableAt : Time
  capturedAccessEpoch : Nat
  capturedDeletionEpoch : Nat
  resultId : Option UUID
  errorCode : Option JobError
  createdAt : Time
  updatedAt : Time

instance : HasKey JobRow UUID := ⟨JobRow.id⟩

/-- An episode that a job cites. -/
structure JobInputRow where
  jobId : UUID
  scopeId : UUID
  sourceId : UUID

instance : HasKey JobInputRow (UUID × UUID) := ⟨fun r => (r.jobId, r.sourceId)⟩

/-- The identity of a job, which outlives its content. -/
structure JobIdentityRow where
  scopeId : UUID
  principalId : UUID
  inputDigest : Digest
  jobId : UUID

instance : HasKey JobIdentityRow (UUID × UUID × Digest) :=
  ⟨fun r => (r.scopeId, r.principalId, r.inputDigest)⟩

/-- The job queue. -/
structure Queue where
  jobs : Table JobRow
  inputs : Table JobInputRow
  identities : Table JobIdentityRow

/-! ## Operations -/

/-- The operations that store a receipt. -/
inductive Operation where
  | observe | capture | captureBatch | remember | reviseAssertion | createEntity | createRelation
  | reviseRelation | enqueueJob | retryJob | cancelJob | checkpoint | restoreCheckpoint
  | planToolEffect | transitionToolEffect | embedding | forget
  deriving DecidableEq

/-- The result of an operation, as stored with its idempotency key. -/
inductive Receipt where
  | observed (memoryId : UUID)
  | captured (memoryId synthesisJobId : UUID)
  | capturedBatch (memoryId : UUID) (synthesisJobIds : List UUID)
  | assertion (memoryId : UUID) (revision : Nat)
  | entity (memoryId : UUID)
  | job (jobId : UUID)
  | checkpoint (checkpointId runId branchId : UUID) (sequence : Nat) (parent : Option UUID)
      (checksum : Digest)
  | effect (memoryId : UUID) (revision : Nat) (status : EffectStatus)
  | embedding (memoryId : UUID) (revision : Nat)
  | deletion (deletionId : UUID) (objectCount deletionEpoch : Nat) (scopeIds : List UUID)
  deriving DecidableEq

/-- The identity of a source event. -/
structure SourceEventRow where
  scopeId : UUID
  eventDigest : Digest
  requestDigest : Digest
  objectId : UUID

instance : HasKey SourceEventRow (UUID × Digest) := ⟨fun r => (r.scopeId, r.eventDigest)⟩

/-- A stored receipt. -/
structure IdempotencyRow where
  principalId : UUID
  operation : Operation
  keyDigest : Digest
  requestDigest : Digest
  result : Receipt

instance : HasKey IdempotencyRow (UUID × Operation × Digest) :=
  ⟨fun r => (r.principalId, r.operation, r.keyDigest)⟩

/-- A completed purge. -/
structure DeletionRequestRow where
  id : UUID
  principalId : UUID
  objectCount : Nat
  deletionEpoch : Nat
  createdAt : Time

instance : HasKey DeletionRequestRow UUID := ⟨DeletionRequestRow.id⟩

/-- One entry of the audit log. -/
structure AuditEventRow where
  id : Nat
  principalId : UUID
  action : String
  targetId : UUID
  createdAt : Time

instance : HasKey AuditEventRow Nat := ⟨AuditEventRow.id⟩

/-- Source events, receipts, completed purges and the audit log. -/
structure Operations where
  sourceEvents : Table SourceEventRow
  receipts : Table IdempotencyRow
  deletions : Table DeletionRequestRow
  audit : Table AuditEventRow
  /-- The next identity value of the audit log. -/
  nextAudit : Nat

/-- **The store of one tenant.** -/
structure Store where
  access : Access
  anchor : Anchor
  contents : Contents
  graph : Graph
  checkpointing : Checkpointing
  ledger : Ledger
  queue : Queue
  operations : Operations

/-- A store without content: a tenant with its principals, scopes and memberships. -/
def Store.provisioned (access : Access) : Store where
  access := access
  anchor := ⟨∅, ∅⟩
  contents := ⟨∅, ∅, ∅, ∅, ∅, ∅, ∅, ∅⟩
  graph := ⟨∅, ∅, ∅, ∅⟩
  checkpointing := ⟨∅, ∅, ∅, ∅, 1⟩
  ledger := ⟨∅, ∅, ∅, ∅⟩
  queue := ⟨∅, ∅, ∅⟩
  operations := ⟨∅, ∅, ∅, ∅, 1⟩

end PgAgmemory

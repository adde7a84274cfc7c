import PgAgmemory.Storage.Schema

/-! # Constraints

The foreign keys and the uniqueness constraints of the schema, table by table. PostgreSQL checks those
of `ForeignKeys` and `UniqueKeys` at the end of every statement; as they held before the statement,
checking the rows it touched and checking the whole store come to the same. The two keys that name a
current revision are deferred to the commit (`DeferredKeys`).

Foreign keys to the tenant, to scopes and to principals are left out: a session has an authenticated
principal, every write needs a membership in its scope, and none of these rows is ever deleted. -/

namespace PgAgmemory

open Keyed (HasKey Table)
open Keyed.Table (References)

/-- Foreign keys of tombstones, episodes, assertions and their projections. -/
structure ContentKeys (s : Store) : Prop where
  tombstone_object : References s.anchor.tombstones (fun r => some (r.objectId, r.scopeId))
    s.anchor.objects (fun o => (o.id, o.scopeId))
  episode_object : References s.contents.episodes (fun r => some (r.id, r.scopeId, ObjectKind.episode))
    s.anchor.objects (fun o => (o.id, o.scopeId, o.kind))
  assertion_object : References s.contents.assertions
    (fun r => some (r.id, r.scopeId, ObjectKind.assertion))
    s.anchor.objects (fun o => (o.id, o.scopeId, o.kind))
  revision_assertion : References s.contents.revisions (fun r => some (r.assertionId, r.scopeId))
    s.contents.assertions (fun a => (a.id, a.scopeId))
  edge_child : References s.contents.edges (fun r => some (r.childId, r.scopeId))
    s.contents.assertions (fun a => (a.id, a.scopeId))
  edge_parent : References s.contents.edges (fun r => some (r.parentId, r.scopeId))
    s.contents.episodes (fun e => (e.id, e.scopeId))
  edge_revision : References s.contents.edges (fun r => some (r.childId, r.childRevision, r.scopeId))
    s.contents.revisions (fun v => (v.assertionId, v.revision, v.scopeId))
  episodeLexical_episode : References s.contents.episodeLexical
    (fun r => some (r.episodeId, r.scopeId)) s.contents.episodes (fun e => (e.id, e.scopeId))
  assertionLexical_revision : References s.contents.assertionLexical
    (fun r => some (r.assertionId, r.revision, r.scopeId))
    s.contents.revisions (fun v => (v.assertionId, v.revision, v.scopeId))
  episodeEmbedding_episode : References s.contents.episodeEmbeddings
    (fun r => some (r.episodeId, r.scopeId)) s.contents.episodes (fun e => (e.id, e.scopeId))
  assertionEmbedding_revision : References s.contents.assertionEmbeddings
    (fun r => some (r.assertionId, r.revision, r.scopeId))
    s.contents.revisions (fun v => (v.assertionId, v.revision, v.scopeId))

/-- Foreign keys of entities and relations. -/
structure GraphKeys (s : Store) : Prop where
  entity_object : References s.graph.entities (fun r => some (r.id, r.scopeId, ObjectKind.entity))
    s.anchor.objects (fun o => (o.id, o.scopeId, o.kind))
  evidence_entity : References s.graph.evidence (fun r => some (r.entityId, r.scopeId))
    s.graph.entities (fun e => (e.id, e.scopeId))
  evidence_source : References s.graph.evidence (fun r => some (r.sourceId, r.scopeId))
    s.contents.episodes (fun e => (e.id, e.scopeId))
  relation_assertion : References s.graph.relations (fun r => some (r.id, r.scopeId))
    s.contents.assertions (fun a => (a.id, a.scopeId))
  relation_source : References s.graph.relations (fun r => some (r.sourceId, r.scopeId))
    s.graph.entities (fun e => (e.id, e.scopeId))
  target_relation : References s.graph.targets (fun r => some (r.assertionId, r.scopeId))
    s.graph.relations (fun l => (l.id, l.scopeId))
  target_revision : References s.graph.targets (fun r => some (r.assertionId, r.revision, r.scopeId))
    s.contents.revisions (fun v => (v.assertionId, v.revision, v.scopeId))
  target_entity : References s.graph.targets (fun r => some (r.targetId, r.scopeId))
    s.graph.entities (fun e => (e.id, e.scopeId))

/-- The generated column of a reference that names an object of one kind. -/
def sourceOf (kind : ObjectKind) (sourceKind : ObjectKind) (sourceId : UUID) : Option UUID :=
  if sourceKind = kind then some sourceId else none

/-- The generated column of a reference that names a revision of an assertion. -/
def revisionOf (sourceKind : ObjectKind) (sourceId : UUID) (sourceRevision : Nat) :
    Option (UUID × Nat) :=
  if sourceKind = .assertion then some (sourceId, sourceRevision) else none

/-- Foreign keys of runs, branches and checkpoints. -/
structure CheckpointKeys (s : Store) : Prop where
  branch_run : References s.checkpointing.branches (fun r => some (r.scopeId, r.runId))
    s.checkpointing.runs (fun n => (n.scopeId, n.runId))
  branch_head : References s.checkpointing.branches
    (fun r => r.headId.map fun h => (h, r.scopeId, ObjectKind.checkpoint))
    s.anchor.objects (fun o => (o.id, o.scopeId, o.kind))
  checkpoint_object : References s.checkpointing.checkpoints
    (fun r => some (r.id, r.scopeId, ObjectKind.checkpoint))
    s.anchor.objects (fun o => (o.id, o.scopeId, o.kind))
  checkpoint_branch : References s.checkpointing.checkpoints
    (fun r => some (r.scopeId, r.runId, r.branchId))
    s.checkpointing.branches (fun b => (b.scopeId, b.runId, b.branchId))
  checkpoint_parent : References s.checkpointing.checkpoints
    (fun r => r.parentId.map fun p => (p, r.scopeId, r.runId))
    s.checkpointing.checkpoints (fun c => (c.id, c.scopeId, c.runId))
  reference_checkpoint : References s.checkpointing.references
    (fun r => some (r.checkpointId, r.scopeId))
    s.checkpointing.checkpoints (fun c => (c.id, c.scopeId))
  reference_source : References s.checkpointing.references
    (fun r => some (r.sourceId, r.scopeId, r.sourceKind))
    s.anchor.objects (fun o => (o.id, o.scopeId, o.kind))
  reference_episode : References s.checkpointing.references
    (fun r => sourceOf .episode r.sourceKind r.sourceId) s.contents.episodes EpisodeRow.id
  reference_revision : References s.checkpointing.references
    (fun r => revisionOf r.sourceKind r.sourceId r.sourceRevision)
    s.contents.revisions (fun v => (v.assertionId, v.revision))
  reference_entity : References s.checkpointing.references
    (fun r => sourceOf .entity r.sourceKind r.sourceId) s.graph.entities EntityRow.id

/-- Foreign keys of the effect ledger. -/
structure LedgerKeys (s : Store) : Prop where
  effect_object : References s.ledger.effects (fun r => some (r.id, r.scopeId, ObjectKind.toolEffect))
    s.anchor.objects (fun o => (o.id, o.scopeId, o.kind))
  effect_run : References s.ledger.effects (fun r => some (r.scopeId, r.runId))
    s.checkpointing.runs (fun n => (n.scopeId, n.runId))
  revision_effect : References s.ledger.revisions (fun r => some r.effectId)
    s.ledger.effects ToolEffectRow.id
  reference_effect : References s.ledger.references (fun r => some (r.effectId, r.scopeId))
    s.ledger.effects (fun e => (e.id, e.scopeId))
  reference_source : References s.ledger.references
    (fun r => some (r.sourceId, r.scopeId, r.sourceKind))
    s.anchor.objects (fun o => (o.id, o.scopeId, o.kind))
  reference_episode : References s.ledger.references
    (fun r => sourceOf .episode r.sourceKind r.sourceId) s.contents.episodes EpisodeRow.id
  reference_revision : References s.ledger.references
    (fun r => revisionOf r.sourceKind r.sourceId r.sourceRevision)
    s.contents.revisions (fun v => (v.assertionId, v.revision))
  reference_entity : References s.ledger.references
    (fun r => sourceOf .entity r.sourceKind r.sourceId) s.graph.entities EntityRow.id
  identity_object : References s.ledger.identities (fun r => some (r.effectId, r.scopeId))
    s.anchor.objects (fun o => (o.id, o.scopeId))

/-- Foreign keys of the job queue and of source events. -/
structure QueueKeys (s : Store) : Prop where
  job_object : References s.queue.jobs (fun r => some (r.id, r.scopeId, ObjectKind.job))
    s.anchor.objects (fun o => (o.id, o.scopeId, o.kind))
  job_retryOf : References s.queue.jobs
    (fun r => r.retryOf.map fun p => (p, r.scopeId, ObjectKind.job))
    s.anchor.objects (fun o => (o.id, o.scopeId, o.kind))
  job_result : References s.queue.jobs (fun r => r.resultId.map fun a => (a, r.scopeId))
    s.contents.assertions (fun a => (a.id, a.scopeId))
  input_job : References s.queue.inputs (fun r => some (r.jobId, r.scopeId))
    s.queue.jobs (fun j => (j.id, j.scopeId))
  input_source : References s.queue.inputs (fun r => some (r.sourceId, r.scopeId))
    s.contents.episodes (fun e => (e.id, e.scopeId))
  identity_object : References s.queue.identities (fun r => some (r.jobId, r.scopeId))
    s.anchor.objects (fun o => (o.id, o.scopeId))
  sourceEvent_object : References s.operations.sourceEvents (fun r => some r.objectId)
    s.anchor.objects ObjectRow.id

/-- **The foreign keys that every statement checks.** -/
structure ForeignKeys (s : Store) : Prop where
  content : ContentKeys s
  graph : GraphKeys s
  checkpoint : CheckpointKeys s
  ledger : LedgerKeys s
  queue : QueueKeys s

/-- **The foreign keys that the commit checks**: current revisions exist. -/
structure DeferredKeys (s : Store) : Prop where
  assertion_current : References s.contents.assertions (fun r => some (r.id, r.currentRevision))
    s.contents.revisions (fun v => (v.assertionId, v.revision))
  effect_current : References s.ledger.effects (fun r => some (r.id, r.currentRevision))
    s.ledger.revisions (fun v => (v.effectId, v.revision))

/-- `range && range` for the system times of two revisions. -/
def AssertionRevisionRow.overlaps (a b : AssertionRevisionRow) : Bool :=
  (b.systemTo.all fun t => a.systemFrom < t) && a.systemTo.all fun t => b.systemFrom < t

/-- **Uniqueness beyond the primary keys.** -/
structure UniqueKeys (s : Store) : Prop where
  revision_exclusion : s.contents.revisions.rows.Pairwise fun a b =>
    a.assertionId = b.assertionId → a.overlaps b = false
  checkpoint_sequence : (s.checkpointing.checkpoints.rows.map fun c =>
    (c.scopeId, c.runId, c.branchId, c.sequence)).Nodup
  effect_operation : (s.ledger.effects.rows.map fun e => (e.scopeId, e.runId, e.operationId)).Nodup
  job_result : (s.queue.jobs.rows.filterMap JobRow.resultId).Nodup

/-! ## Checking -/

instance (s : Store) : Decidable (ContentKeys s) :=
  decidable_of_iff (_ ∧ _ ∧ _ ∧ _ ∧ _ ∧ _ ∧ _ ∧ _ ∧ _ ∧ _ ∧ _)
    ⟨fun ⟨a, b, c, d, e, f, g, h, i, j, k⟩ => ⟨a, b, c, d, e, f, g, h, i, j, k⟩,
      fun ⟨a, b, c, d, e, f, g, h, i, j, k⟩ => ⟨a, b, c, d, e, f, g, h, i, j, k⟩⟩

instance (s : Store) : Decidable (GraphKeys s) :=
  decidable_of_iff (_ ∧ _ ∧ _ ∧ _ ∧ _ ∧ _ ∧ _ ∧ _)
    ⟨fun ⟨a, b, c, d, e, f, g, h⟩ => ⟨a, b, c, d, e, f, g, h⟩,
      fun ⟨a, b, c, d, e, f, g, h⟩ => ⟨a, b, c, d, e, f, g, h⟩⟩

instance (s : Store) : Decidable (CheckpointKeys s) :=
  decidable_of_iff (_ ∧ _ ∧ _ ∧ _ ∧ _ ∧ _ ∧ _ ∧ _ ∧ _ ∧ _)
    ⟨fun ⟨a, b, c, d, e, f, g, h, i, j⟩ => ⟨a, b, c, d, e, f, g, h, i, j⟩,
      fun ⟨a, b, c, d, e, f, g, h, i, j⟩ => ⟨a, b, c, d, e, f, g, h, i, j⟩⟩

instance (s : Store) : Decidable (LedgerKeys s) :=
  decidable_of_iff (_ ∧ _ ∧ _ ∧ _ ∧ _ ∧ _ ∧ _ ∧ _ ∧ _)
    ⟨fun ⟨a, b, c, d, e, f, g, h, i⟩ => ⟨a, b, c, d, e, f, g, h, i⟩,
      fun ⟨a, b, c, d, e, f, g, h, i⟩ => ⟨a, b, c, d, e, f, g, h, i⟩⟩

instance (s : Store) : Decidable (QueueKeys s) :=
  decidable_of_iff (_ ∧ _ ∧ _ ∧ _ ∧ _ ∧ _ ∧ _)
    ⟨fun ⟨a, b, c, d, e, f, g⟩ => ⟨a, b, c, d, e, f, g⟩,
      fun ⟨a, b, c, d, e, f, g⟩ => ⟨a, b, c, d, e, f, g⟩⟩

instance (s : Store) : Decidable (ForeignKeys s) :=
  decidable_of_iff (_ ∧ _ ∧ _ ∧ _ ∧ _)
    ⟨fun ⟨a, b, c, d, e⟩ => ⟨a, b, c, d, e⟩, fun ⟨a, b, c, d, e⟩ => ⟨a, b, c, d, e⟩⟩

instance (s : Store) : Decidable (DeferredKeys s) :=
  decidable_of_iff (_ ∧ _) ⟨fun ⟨a, b⟩ => ⟨a, b⟩, fun ⟨a, b⟩ => ⟨a, b⟩⟩

instance (s : Store) : Decidable (UniqueKeys s) :=
  decidable_of_iff (_ ∧ _ ∧ _ ∧ _)
    ⟨fun ⟨a, b, c, d⟩ => ⟨a, b, c, d⟩, fun ⟨a, b, c, d⟩ => ⟨a, b, c, d⟩⟩

/-- A provisioned store meets every constraint. -/
theorem foreignKeys_provisioned (access : Access) : ForeignKeys (Store.provisioned access) := by
  refine ⟨?_, ?_, ?_, ?_, ?_⟩ <;> constructor <;> exact Table.references_empty

theorem deferredKeys_provisioned (access : Access) : DeferredKeys (Store.provisioned access) := by
  constructor <;> exact Table.references_empty

theorem uniqueKeys_provisioned (access : Access) : UniqueKeys (Store.provisioned access) := by
  constructor <;> exact List.Pairwise.nil

end PgAgmemory

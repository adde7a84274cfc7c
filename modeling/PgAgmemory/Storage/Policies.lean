import PgAgmemory.Storage.Schema

/-! # Row-level security

What one statement of one principal can read, as the policies say it. A `View` is the store together
with the principal and the statement's timestamp; `memory.permitted` reads both, so the same row may be
visible to one statement of a transaction and hidden from the next.

`permitted`, `visible`, `writable` and `deletable` are the functions of the schema; every table then
has the rows that its `SELECT` policies let through. -/

namespace PgAgmemory

open Keyed (HasKey Table)

/-- Whether a membership grants a permission at an instant. -/
def ScopeMemberRow.grants (m : ScopeMemberRow) (permission : Permission) (timestamp : Time) : Bool :=
  (m.permissions.contains permission || m.permissions.contains .admin)
    && m.expiresAt.all fun expiry => timestamp < expiry

/-- What a statement is evaluated against. -/
structure View where
  store : Store
  /-- `memory.current_principal()`. -/
  principal : UUID
  /-- `statement_timestamp()`. -/
  timestamp : Time

namespace View

variable (v : View)

/-! ## The functions of the schema -/

/-- `memory.permitted(target_scope, permission)`. -/
def permitted (scope : UUID) (permission : Permission) : Bool :=
  (v.store.access.members.find? (scope, v.principal)).any fun m => m.grants permission v.timestamp

/-- Whether a readable tombstone marks the object. -/
def tombstoned (id : UUID) : Bool :=
  (v.store.anchor.tombstones.find? id).any fun t => v.permitted t.scopeId .read

/-- The `object_read` policy. -/
def readable (o : ObjectRow) : Bool := v.permitted o.scopeId .read && !v.tombstoned o.id

/-- The object of an id, if the policy lets it through. -/
def object? (id : UUID) : Option ObjectRow := (v.store.anchor.objects.find? id).filter v.readable

/-- `memory.visible(target_id)`. -/
def visible (id : UUID) : Bool := (v.object? id).isSome

/-- `memory.writable(target_id)`. -/
def writable (id : UUID) : Bool := (v.object? id).any fun o => v.permitted o.scopeId .write

/-- `memory.deletable(target_id)`. -/
def deletable (id : UUID) : Bool := (v.object? id).any fun o => v.permitted o.scopeId .delete

/-! ## Readable rows -/

/-- Readable episodes. -/
def episodes : List EpisodeRow := v.store.contents.episodes.rows.filter fun r => v.visible r.id

/-- The readable episode of an id. -/
def episode? (id : UUID) : Option EpisodeRow :=
  (v.store.contents.episodes.find? id).filter fun r => v.visible r.id

/-- Readable assertions. -/
def assertions : List AssertionRow := v.store.contents.assertions.rows.filter fun r => v.visible r.id

/-- The readable assertion of an id. -/
def assertion? (id : UUID) : Option AssertionRow :=
  (v.store.contents.assertions.find? id).filter fun r => v.visible r.id

/-- Readable revisions. -/
def revisions : List AssertionRevisionRow :=
  v.store.contents.revisions.rows.filter fun r => v.visible r.assertionId

/-- The readable revision of an assertion and number. -/
def revision? (id : UUID) (revision : Nat) : Option AssertionRevisionRow :=
  (v.store.contents.revisions.find? (id, revision)).filter fun r => v.visible r.assertionId

/-- Readable provenance edges. -/
def edges : List ProvenanceEdgeRow :=
  v.store.contents.edges.rows.filter fun r => v.visible r.childId && v.visible r.parentId

/-- The readable Japanese projection of an episode. -/
def episodeLexical? (id : UUID) : Option EpisodeLexicalRow :=
  (v.store.contents.episodeLexical.find? id).filter fun r => v.visible r.episodeId

/-- The readable Japanese projection of a revision. -/
def assertionLexical? (id : UUID) (revision : Nat) : Option AssertionLexicalRow :=
  (v.store.contents.assertionLexical.find? (id, revision)).filter fun r => v.visible r.assertionId

/-- Readable episode embeddings. -/
def episodeEmbeddings : List EpisodeEmbeddingRow :=
  v.store.contents.episodeEmbeddings.rows.filter fun r => v.visible r.episodeId

/-- Readable assertion embeddings. -/
def assertionEmbeddings : List AssertionEmbeddingRow :=
  v.store.contents.assertionEmbeddings.rows.filter fun r => v.visible r.assertionId

/-- Readable entities. -/
def entities : List EntityRow := v.store.graph.entities.rows.filter fun r => v.visible r.id

/-- The readable entity of an id. -/
def entity? (id : UUID) : Option EntityRow :=
  (v.store.graph.entities.find? id).filter fun r => v.visible r.id

/-- Readable evidence of entities. -/
def entityEvidence : List EntityEvidenceRow :=
  v.store.graph.evidence.rows.filter fun r => v.visible r.entityId && v.visible r.sourceId

/-- Readable relations: both the assertion and its source entity are visible. -/
def relations : List RelationRow :=
  v.store.graph.relations.rows.filter fun r => v.visible r.id && v.visible r.sourceId

/-- The readable relation of an assertion. -/
def relation? (id : UUID) : Option RelationRow :=
  (v.store.graph.relations.find? id).filter fun r => v.visible r.id && v.visible r.sourceId

/-- The `revision_read` policy of relation revisions. -/
def targetReadable (r : RelationRevisionRow) : Bool :=
  v.visible r.assertionId && v.visible r.targetId && (v.relation? r.assertionId).isSome

/-- Readable relation revisions. -/
def targets : List RelationRevisionRow := v.store.graph.targets.rows.filter v.targetReadable

/-- The readable target of one revision of a relation. -/
def target? (id : UUID) (revision : Nat) : Option RelationRevisionRow :=
  (v.store.graph.targets.find? (id, revision)).filter v.targetReadable

/-- The readable run of a scope. -/
def run? (scope run : UUID) : Option CheckpointRunRow :=
  (v.store.checkpointing.runs.find? (scope, run)).filter fun r => v.permitted r.scopeId .read

/-- The readable branch of a run. -/
def branch? (scope run branch : UUID) : Option CheckpointBranchRow :=
  (v.store.checkpointing.branches.find? (scope, run, branch)).filter fun r =>
    v.permitted r.scopeId .read

/-- The `branch_update` policy. -/
def branchUpdatable (r : CheckpointBranchRow) : Bool :=
  v.permitted r.scopeId .read && (v.permitted r.scopeId .write || v.permitted r.scopeId .delete)

/-- Readable checkpoints. -/
def checkpoints : List CheckpointRow :=
  v.store.checkpointing.checkpoints.rows.filter fun r => v.visible r.id

/-- The readable checkpoint of an id. -/
def checkpoint? (id : UUID) : Option CheckpointRow :=
  (v.store.checkpointing.checkpoints.find? id).filter fun r => v.visible r.id

/-- Readable references of checkpoints. -/
def checkpointReferences : List CheckpointReferenceRow :=
  v.store.checkpointing.references.rows.filter fun r =>
    v.visible r.checkpointId && v.visible r.sourceId

/-- Readable effects. -/
def effects : List ToolEffectRow := v.store.ledger.effects.rows.filter fun r => v.visible r.id

/-- The readable effect of an id. -/
def effect? (id : UUID) : Option ToolEffectRow :=
  (v.store.ledger.effects.find? id).filter fun r => v.visible r.id

/-- Readable effect revisions. -/
def effectRevisions : List ToolEffectRevisionRow :=
  v.store.ledger.revisions.rows.filter fun r => v.visible r.effectId

/-- The readable revision of an effect. -/
def effectRevision? (id : UUID) (revision : Nat) : Option ToolEffectRevisionRow :=
  (v.store.ledger.revisions.find? (id, revision)).filter fun r => v.visible r.effectId

/-- Readable references of effects. -/
def effectReferences : List ToolEffectReferenceRow :=
  v.store.ledger.references.rows.filter fun r => v.visible r.effectId && v.visible r.sourceId

/-- The readable identity of an effect. -/
def effectIdentity? (scope run operation : UUID) : Option ToolEffectIdentityRow :=
  (v.store.ledger.identities.find? (scope, run, operation)).filter fun r =>
    v.permitted r.scopeId .read

/-- Readable jobs. -/
def jobs : List JobRow := v.store.queue.jobs.rows.filter fun r => v.visible r.id

/-- The readable job of an id. -/
def job? (id : UUID) : Option JobRow :=
  (v.store.queue.jobs.find? id).filter fun r => v.visible r.id

/-- The `job_update` policy. -/
def jobUpdatable (r : JobRow) : Bool :=
  v.visible r.id && v.writable r.id && decide (r.principalId = v.principal)

/-- Readable inputs of jobs. -/
def jobInputs : List JobInputRow :=
  v.store.queue.inputs.rows.filter fun r => v.visible r.jobId && v.visible r.sourceId

/-- The readable identity of a job. -/
def jobIdentity? (scope principal : UUID) (digest : Digest) : Option JobIdentityRow :=
  (v.store.queue.identities.find? (scope, principal, digest)).filter fun r =>
    v.permitted r.scopeId .read && decide (r.principalId = v.principal)

/-- The readable identity of a source event. -/
def sourceEvent? (scope : UUID) (digest : Digest) : Option SourceEventRow :=
  (v.store.operations.sourceEvents.find? (scope, digest)).filter fun r =>
    v.permitted r.scopeId .read

/-- The principal's own receipt. -/
def receipt? (operation : Operation) (key : Digest) : Option IdempotencyRow :=
  v.store.operations.receipts.find? (v.principal, operation, key)

/-! ## What the functions say -/

variable {v}

theorem permitted_eq_true {scope : UUID} {permission : Permission} :
    v.permitted scope permission = true ↔
      ∃ m ∈ v.store.access.members, m.scopeId = scope ∧ m.principalId = v.principal
        ∧ m.grants permission v.timestamp = true := by
  rw [permitted, Option.any_eq_true]
  constructor
  · rintro ⟨m, hm, hgrants⟩
    obtain ⟨hmem, hkey⟩ := Table.find?_eq_some_iff.mp hm
    obtain ⟨hscope, hprincipal⟩ := Prod.mk.inj hkey
    exact ⟨m, hmem, hscope, hprincipal, hgrants⟩
  · rintro ⟨m, hm, rfl, hprincipal, hgrants⟩
    exact ⟨m, Table.find?_eq_some_iff.mpr ⟨hm, Prod.ext rfl hprincipal⟩, hgrants⟩

theorem object?_eq_some {id : UUID} {o : ObjectRow} :
    v.object? id = some o ↔ o ∈ v.store.anchor.objects ∧ o.id = id ∧ v.readable o = true := by
  rw [object?, Option.filter_eq_some_iff, Table.find?_eq_some_iff, and_assoc]
  exact Iff.rfl

theorem visible_eq_true {id : UUID} :
    v.visible id = true ↔ ∃ o ∈ v.store.anchor.objects, o.id = id ∧ v.readable o = true := by
  rw [visible, Option.isSome_iff_exists]
  exact exists_congr fun o => object?_eq_some

theorem writable_eq_true {id : UUID} :
    v.writable id = true ↔ ∃ o ∈ v.store.anchor.objects, o.id = id ∧ v.readable o = true
      ∧ v.permitted o.scopeId .write = true := by
  rw [writable, Option.any_eq_true]
  refine exists_congr fun o => ?_
  rw [object?_eq_some]
  tauto

theorem deletable_eq_true {id : UUID} :
    v.deletable id = true ↔ ∃ o ∈ v.store.anchor.objects, o.id = id ∧ v.readable o = true
      ∧ v.permitted o.scopeId .delete = true := by
  rw [deletable, Option.any_eq_true]
  refine exists_congr fun o => ?_
  rw [object?_eq_some]
  tauto

/-- What may be written is visible. -/
theorem visible_of_writable {id : UUID} (h : v.writable id = true) : v.visible id = true := by
  obtain ⟨o, ho, hid, hread, -⟩ := writable_eq_true.mp h
  exact visible_eq_true.mpr ⟨o, ho, hid, hread⟩

end View

end PgAgmemory

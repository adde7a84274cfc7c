import PgAgmemory.Storage.Queue

/-! # The statements of a purge

A purge deletes table by table, children before parents, in the order of `PurgeStep.all`. Every
`DELETE` and `UPDATE` removes or rewrites only the rows that its policies let through at its own
timestamp: a row that the policy hides is skipped without a word.

Every row belongs to one object (`own`); deleting an episode or a revision also deletes its
projections (`ON DELETE CASCADE`, which no policy filters). -/

namespace PgAgmemory

open Keyed (HasKey Table key)

/-- The statements of a purge. -/
inductive PurgeStep where
  | jobInputs | jobs | runs | branches | checkpointReferences | checkpoints | effectReferences
  | effectRevisions | effects | edges | targets | relations | revisions | assertions
  | entityEvidence | entities | episodes
  deriving DecidableEq

/-- **The order of the statements**: children before parents. -/
def PurgeStep.all : List PurgeStep :=
  [.jobInputs, .jobs, .runs, .branches, .checkpointReferences, .checkpoints, .effectReferences,
    .effectRevisions, .effects, .edges, .targets, .relations, .revisions, .assertions,
    .entityEvidence, .entities, .episodes]

/-- Whether a `DELETE … WHERE own = ANY(targets)` reaches a row: the row is named, its read policy
`shown` lets it through, and its object may be deleted. -/
def View.erases (v : View) (targets : List UUID) (own : UUID) (shown : Bool) : Bool :=
  decide (own ∈ targets) && shown && v.deletable own

/-- Whether `UPDATE memory.checkpoint_run` reaches a run: it is not yet invalidated and has a readable
effect among the targets. -/
def View.sealsRun (v : View) (targets : List UUID) (r : CheckpointRunRow) : Bool :=
  !r.effectsInvalidated && (v.permitted r.scopeId .read && v.permitted r.scopeId .delete)
    && v.effects.any fun e =>
      decide (e.scopeId = r.scopeId) && decide (e.runId = r.runId) && decide (e.id ∈ targets)

/-- Whether `UPDATE memory.checkpoint_branch` reaches a branch: it is live and its head is a target. -/
def View.sealsBranch (v : View) (targets : List UUID) (b : CheckpointBranchRow) : Bool :=
  !b.invalidated && v.branchUpdatable b && b.headId.any fun h => decide (h ∈ targets)

/-- Whether the deletion of revisions reaches a row. -/
def View.erasesRevision (v : View) (targets : List UUID) (r : AssertionRevisionRow) : Bool :=
  v.erases targets r.assertionId (v.visible r.assertionId)

/-- Whether the deletion of episodes reaches a row. -/
def View.erasesEpisode (v : View) (targets : List UUID) (r : EpisodeRow) : Bool :=
  v.erases targets r.id (v.visible r.id)

/-- Invalidating the effects of a run keeps its key. -/
theorem CheckpointRunRow.key_invalidated (r : CheckpointRunRow) :
    key { r with effectsInvalidated := true } = key r := rfl

/-- Invalidating a branch keeps its key. -/
theorem CheckpointBranchRow.key_invalidated (b : CheckpointBranchRow) :
    key { b with invalidated := true } = key b := rfl

/-- The store after one statement of a purge. -/
def PurgeStep.exec (v : View) (targets : List UUID) : PurgeStep → Store
  | .jobInputs => { v.store with
      queue.inputs := v.store.queue.inputs.delete fun r =>
        v.erases targets r.jobId (v.visible r.jobId && v.visible r.sourceId) }
  | .jobs => { v.store with
      queue.jobs := v.store.queue.jobs.delete fun r => v.erases targets r.id (v.visible r.id) }
  | .runs => { v.store with
      checkpointing.runs := v.store.checkpointing.runs.update (v.sealsRun targets)
        (fun r => { r with effectsInvalidated := true }) CheckpointRunRow.key_invalidated }
  | .branches => { v.store with
      checkpointing.branches := v.store.checkpointing.branches.update (v.sealsBranch targets)
        (fun b => { b with invalidated := true }) CheckpointBranchRow.key_invalidated }
  | .checkpointReferences => { v.store with
      checkpointing.references := v.store.checkpointing.references.delete fun r =>
        v.erases targets r.checkpointId (v.visible r.checkpointId && v.visible r.sourceId) }
  | .checkpoints => { v.store with
      checkpointing.checkpoints := v.store.checkpointing.checkpoints.delete fun r =>
        v.erases targets r.id (v.visible r.id) }
  | .effectReferences => { v.store with
      ledger.references := v.store.ledger.references.delete fun r =>
        v.erases targets r.effectId (v.visible r.effectId && v.visible r.sourceId) }
  | .effectRevisions => { v.store with
      ledger.revisions := v.store.ledger.revisions.delete fun r =>
        v.erases targets r.effectId (v.visible r.effectId) }
  | .effects => { v.store with
      ledger.effects := v.store.ledger.effects.delete fun r =>
        v.erases targets r.id (v.visible r.id) }
  | .edges => { v.store with
      contents.edges := v.store.contents.edges.delete fun r =>
        v.erases targets r.childId (v.visible r.childId && v.visible r.parentId) }
  | .targets => { v.store with
      graph.targets := v.store.graph.targets.delete fun r =>
        v.erases targets r.assertionId (v.targetReadable r) }
  | .relations => { v.store with
      graph.relations := v.store.graph.relations.delete fun r =>
        v.erases targets r.id (v.visible r.id && v.visible r.sourceId) }
  | .revisions => { v.store with
      contents.revisions := v.store.contents.revisions.delete (v.erasesRevision targets)
      contents.assertionLexical := v.store.contents.assertionLexical.delete fun l =>
        v.store.contents.revisions.rows.any fun r => v.erasesRevision targets r
          && decide (r.assertionId = l.assertionId) && decide (r.revision = l.revision)
      contents.assertionEmbeddings := v.store.contents.assertionEmbeddings.delete fun l =>
        v.store.contents.revisions.rows.any fun r => v.erasesRevision targets r
          && decide (r.assertionId = l.assertionId) && decide (r.revision = l.revision) }
  | .assertions => { v.store with
      contents.assertions := v.store.contents.assertions.delete fun r =>
        v.erases targets r.id (v.visible r.id) }
  | .entityEvidence => { v.store with
      graph.evidence := v.store.graph.evidence.delete fun r =>
        v.erases targets r.entityId (v.visible r.entityId && v.visible r.sourceId) }
  | .entities => { v.store with
      graph.entities := v.store.graph.entities.delete fun r =>
        v.erases targets r.id (v.visible r.id) }
  | .episodes => { v.store with
      contents.episodes := v.store.contents.episodes.delete (v.erasesEpisode targets)
      contents.episodeLexical := v.store.contents.episodeLexical.delete fun l =>
        v.store.contents.episodes.rows.any fun r => v.erasesEpisode targets r
          && decide (r.id = l.episodeId)
      contents.episodeEmbeddings := v.store.contents.episodeEmbeddings.delete fun l =>
        v.store.contents.episodes.rows.any fun r => v.erasesEpisode targets r
          && decide (r.id = l.episodeId) }

/-- The checks that a statement of a purge defers to the commit, one for every row it reaches. -/
def PurgeStep.deferred (v : View) (targets : List UUID) : PurgeStep → List Deferred
  | .jobInputs => (v.jobInputs.filter fun r => decide (r.jobId ∈ targets) && v.deletable r.jobId).map
      fun r => .jobInputs r.jobId
  | .branches => (v.store.checkpointing.branches.rows.filter (v.sealsBranch targets)).map fun b =>
      .checkpointHead b.scopeId b.runId b.branchId
  | .checkpointReferences => (v.checkpointReferences.filter fun r =>
      decide (r.checkpointId ∈ targets) && v.deletable r.checkpointId).map fun r =>
        .checkpointReferences r.checkpointId
  | .effectReferences => (v.effectReferences.filter fun r =>
      decide (r.effectId ∈ targets) && v.deletable r.effectId).map fun r => .toolEffect r.effectId
  | .effectRevisions => (v.effectRevisions.filter fun r =>
      decide (r.effectId ∈ targets) && v.deletable r.effectId).map fun r => .toolEffect r.effectId
  | .edges => (v.edges.filter fun r => decide (r.childId ∈ targets) && v.deletable r.childId).map
      fun r => .assertionHistory r.childId
  | .targets => (v.targets.filter fun r =>
      decide (r.assertionId ∈ targets) && v.deletable r.assertionId).map fun r =>
        .relationShape r.assertionId
  | .relations => (v.relations.filter fun r => decide (r.id ∈ targets) && v.deletable r.id).map
      fun r => .relationShape r.id
  | .revisions => (v.revisions.filter fun r =>
      decide (r.assertionId ∈ targets) && v.deletable r.assertionId).flatMap fun r =>
        [.assertionHistory r.assertionId, .relationShape r.assertionId]
  | .entityEvidence => (v.entityEvidence.filter fun r =>
      decide (r.entityId ∈ targets) && v.deletable r.entityId).map fun r =>
        .entityEvidence r.entityId
  | _ => []

end PgAgmemory

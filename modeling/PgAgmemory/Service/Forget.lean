import PgAgmemory.Library.Reach
import PgAgmemory.Service.Memory

/-! # Forgetting

`forget` computes everything derived from the requested objects, and a purge deletes it, marks it and
stores a receipt. The edges of the recursive query are the references between objects, as one
statement sees them. -/

namespace PgAgmemory

/-- **The edges of the closure query**: from an object to what is derived from it. -/
def View.dependencies (v : View) : List (UUID × UUID) :=
  v.edges.map (fun e => (e.parentId, e.childId))
    ++ v.jobInputs.map (fun r => (r.sourceId, r.jobId))
    ++ v.jobs.filterMap (fun j => j.resultId.map fun a => (a, j.id))
    ++ v.jobs.filterMap (fun j => j.retryOf.map fun p => (p, j.id))
    ++ v.entityEvidence.map (fun r => (r.sourceId, r.entityId))
    ++ v.relations.map (fun l => (l.sourceId, l.id))
    ++ v.targets.map (fun t => (t.targetId, t.assertionId))
    ++ v.checkpointReferences.map (fun r => (r.sourceId, r.checkpointId))
    ++ v.checkpoints.filterMap (fun c => c.parentId.map fun p => (p, c.id))
    ++ v.effectReferences.map (fun r => (r.sourceId, r.effectId))
    ++ v.effects.flatMap fun e =>
      (v.checkpoints.filter fun c => c.scopeId = e.scopeId && c.runId = e.runId).map fun c =>
        (e.id, c.id)

/-- The closure of some objects, as one statement sees it. -/
def View.closure (v : View) (ids : List UUID) : List UUID := Reach.closure v.dependencies ids

/-- The bound on a closure. -/
def closureLimit (data : Forget) : Nat := 10000 + data.memoryIds.length

/-- What `forget` returns. -/
inductive ForgetResult where
  | preview (objectCount : Nat)
  | purged (receipt : Receipt)
  deriving DecidableEq

namespace MemoryService

variable (platform : Platform)

/-- The scopes of the requested objects, each of which must be deletable. -/
def admitDeletion (data : Forget) : Tx (List UUID) := do
  let objects ← forCollect (fun objectId => object objectId .delete) data.memoryIds
  pure ((objects.map ObjectRow.scopeId).dedup.insertionSort (· ≤ ·))

/-- The objects to delete, unless there are too many. -/
def selectClosure (data : Forget) : Tx (List UUID) := do
  let targets ← read fun v => (v.closure data.memoryIds).take (closureLimit data + 1)
  demand (decide (targets.length ≤ closureLimit data)) .deletionLimitExceeded
  pure targets

/-- The deletion statements, in their order. -/
def erase (targets : List UUID) : Tx Unit :=
  forEach PurgeStep.all fun purgeStep => send (.purge purgeStep targets)

/-- The new deletion epoch. -/
def bumpDeletionEpoch : Tx Nat := do
  let returned ← sendReturning .bumpDeletionEpoch
  match returned with
  | .epoch deletionEpoch => pure deletionEpoch
  | _ => fail .notFound

/-- The part of `forget` that deletes: erase the targets, mark them and store the receipt. -/
def purge (scopes targets : List UUID) (keyDigest requestDigest : Digest) : Tx Receipt := do
  erase targets
  send (.insertTombstones targets)
  let epoch ← bumpDeletionEpoch
  let deletionId ← drawUUID
  send (.operation (.insertDeletion deletionId targets.length epoch))
  let result := Receipt.deletion deletionId targets.length epoch scopes
  saveResult .forget keyDigest requestDigest result
  audit "forget" deletionId
  pure result

/-- The part of `forget` that runs once. -/
def forgetOnce (data : Forget) (keyDigest requestDigest : Digest) : Tx ForgetResult := do
  let scopes ← admitDeletion data
  let targets ← selectClosure data
  match data.mode with
  | .preview => pure (.preview targets.length)
  | .purge => do
    let result ← purge scopes targets keyDigest requestDigest
    pure (.purged result)

/-- `forget`. -/
def forget (data : Forget) (key : String) : Tx ForgetResult :=
  once platform .forget key (compactText data.dump) (fun receipt => pure (.purged receipt))
    (forgetOnce data)

end MemoryService

end PgAgmemory

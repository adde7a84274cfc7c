import PgAgmemory.Operations.Saves

/-! # What requests write

Every statement writes in one area of the store (`Statement.area`), and every request sends statements
of a few areas only (`Request.areas`). What a request leaves alone is read off its list: only five
requests change the state of a job, and only three queue one. -/

namespace PgAgmemory

open Interactive (Program)
open Interactive.Program (ReadOnly Sends)
open MemoryService

/-! ## Areas -/

/-- **The areas of the store.** -/
inductive Area where
  /-- Object rows. -/
  | object
  | content
  | graph
  | checkpoint
  | ledger
  /-- New jobs, their inputs and their identities. -/
  | admission
  /-- Changes of jobs. -/
  | turn
  | operation
  /-- Deletion: purged rows, tombstones and the deletion epoch. -/
  | purge
  deriving DecidableEq

/-- The area that a statement on jobs writes in. -/
def QueueStatement.area : QueueStatement → Area
  | .updateJob _ _ => .turn
  | _ => .admission

/-- **The area that a statement writes in.** -/
def Statement.area : Statement → Area
  | .insertObject _ _ _ => .object
  | .content _ => .content
  | .graph _ => .graph
  | .checkpoint _ => .checkpoint
  | .ledger _ => .ledger
  | .queue st => st.area
  | .operation _ => .operation
  | .purge _ _ => .purge
  | .insertTombstones _ => .purge
  | .bumpDeletionEpoch => .purge

/-- Statements that write in some areas only. -/
def Within (areas : List Area) (st : Statement) : Prop := st.area ∈ areas

/-- Statements of some areas are statements of more. -/
theorem Within.mono {areas areas' : List Area} (h : areas ⊆ areas') {st : Statement}
    (hst : Within areas st) : Within areas' st := h hst

/-- A statement outside the deletion is quiet. -/
theorem Within.quiet {areas : List Area} {st : Statement} (hst : Within areas st) (hpurge : .purge ∉ areas) :
    st.quiet = true := by
  cases st with
  | purge purgeStep targets => exact absurd hst hpurge
  | insertTombstones targets => exact absurd hst hpurge
  | bumpDeletionEpoch => exact absurd hst hpurge
  | _ => rfl

section Parts

variable {areas : List Area}

/-- A new object is one statement of its area. -/
theorem within_newObject (h : .object ∈ areas) (scopeId : UUID) (kind : ObjectKind) :
    Sends (Within areas) (newObject scopeId kind) := sends_newObject fun _ => h

/-- An audit entry is one statement of its area. -/
theorem within_audit (h : .operation ∈ areas) (action : String) (target : UUID) :
    Sends (Within areas) (audit action target) := sends_send h

/-- An audit entry is an operation. -/
theorem sends_audited (action : String) (target : UUID) :
    Sends (Within [.operation]) (audit action target) := within_audit (by decide) action target

/-- A receipt is one statement of its area. -/
theorem within_saveResult (h : .operation ∈ areas) (operation : Operation)
    (keyDigest requestDigest : Digest) (result : Receipt) :
    Sends (Within areas) (saveResult operation keyDigest requestDigest result) := sends_send h

/-- An update of a job is one statement of its area. -/
theorem within_update (h : .turn ∈ areas) (id : UUID) (change : JobChange) :
    Sends (Within areas) (Jobs.update id change) := sends_update h

end Parts

/-! ## The areas of operations -/

/-- What publishes content. -/
def publishing : List Area := [.object, .content, .operation]

/-- What queues a job. -/
def queueing : List Area := [.object, .admission, .operation]

section Operations

variable (platform : Platform)

/-- `observe` writes an object with its contents. -/
theorem within_observe (data : Observe) (key : String) :
    Sends (Within publishing) (observe platform data key) := by
  refine (readOnly_scope _ _).sends.bind fun _ => sends_once (fun _ => trivial) fun kd rd => ?_
  have hrecord : Sends (Within publishing) (recordEvent platform data rd) := by
    refine (readOnly_digest platform _).sends.bind fun _ =>
      (readOnly_read _).sends.bind fun row => ?_
    split
    · exact ((readOnly_demand _ _).bind fun _ => (readOnly_object _ _).bind fun _ =>
        readOnly_pure _).sends
    · have hcontent : Area.content ∈ publishing := by decide
      have hoperation : Area.operation ∈ publishing := by decide
      refine (within_newObject (by decide) _ _).bind fun id => (sends_send hcontent).bind fun _ => ?_
      refine (readOnly_segment platform _).sends.bind fun _ => (sends_send hcontent).bind fun _ => ?_
      exact (sends_send hoperation).bind fun _ => (sends_send hoperation).bind fun _ => trivial
  exact hrecord.bind fun id => (within_saveResult (by decide) _ _ _ _).bind fun _ => trivial

/-- A revision with its evidence and its tokens is content. -/
theorem within_insertRevision {areas : List Area} (h : .content ∈ areas) (id scopeId : UUID)
    (revision : Nat) (data : RevisionContent) :
    Sends (Within areas) (MemoryService.insertRevision platform id scopeId revision data) := by
  refine (sends_send h).bind fun _ => (sends_forEach fun _ _ => sends_send h).bind fun _ => ?_
  refine (readOnly_read _).sends.bind fun _ => (readOnly_found _ _).sends.bind fun _ => ?_
  exact (readOnly_segment platform _).sends.bind fun _ => sends_send h

/-- Publishing writes an object with its contents. -/
theorem within_publishAssertion (data : Remember) :
    Sends (Within publishing) (publishAssertion platform data) := by
  have hcontent : Area.content ∈ publishing := by decide
  refine (readOnly_scope _ _).sends.bind fun _ =>
    (readOnly_validateEvidence _ _).sends.bind fun _ => ?_
  refine (within_newObject (by decide) _ _).bind fun id => (sends_send hcontent).bind fun _ => ?_
  exact (within_insertRevision platform hcontent _ _ _ _).bind fun _ =>
    (within_audit (by decide) _ _).bind fun _ => trivial

/-- `remember` writes an object with its contents. -/
theorem within_remember (data : Remember) (key : String) :
    Sends (Within publishing) (remember platform data key) := by
  refine (readOnly_scope _ _).sends.bind fun _ => sends_once (fun _ => trivial) fun kd rd => ?_
  exact (within_publishAssertion platform _).bind fun _ =>
    (within_saveResult (by decide) _ _ _ _).bind fun _ => trivial

/-- A correction writes contents of an object that is there. -/
theorem within_reviseAssertion (id : UUID) (data : ReviseAssertion) (key : String) :
    Sends (Within publishing) (reviseAssertion platform id data key) := by
  refine (readOnly_object _ _).sends.bind fun _ => (readOnly_demand _ _).sends.bind fun _ => ?_
  refine sends_once (fun _ => trivial) fun kd rd => ?_
  refine (readOnly_read _).sends.bind fun _ => (readOnly_found _ _).sends.bind fun _ => ?_
  refine (readOnly_demand _ _).sends.bind fun _ => (readOnly_demand _ _).sends.bind fun _ => ?_
  refine (readOnly_demand _ _).sends.bind fun _ =>
    (readOnly_validateEvidence _ _).sends.bind fun _ => ?_
  refine (within_insertRevision platform (by decide) _ _ _ _).bind fun _ => ?_
  exact (within_saveResult (by decide) _ _ _ _).bind fun _ =>
    (within_audit (by decide) _ _).bind fun _ => trivial

/-- What writes the graph. -/
def graphing : List Area := [.object, .content, .graph, .operation]

/-- An entity is an object of the graph. -/
theorem within_createEntity (data : CreateEntity) (key : String) :
    Sends (Within graphing) (SqlGraph.createEntity platform data key) := by
  have hgraph : Area.graph ∈ graphing := by decide
  refine (readOnly_scope _ _).sends.bind fun _ =>
    sends_once (fun r => (readOnly_entityReplayed r).sends) fun kd rd => ?_
  refine (readOnly_validateEvidence _ _).sends.bind fun _ =>
    (within_newObject (by decide) _ _).bind fun id => (sends_send hgraph).bind fun _ => ?_
  refine (sends_forEach fun _ _ => sends_send hgraph).bind fun _ => ?_
  exact (within_audit (by decide) _ _).bind fun _ =>
    (within_saveResult (by decide) _ _ _ _).bind fun _ => trivial

/-- A relation is an object of the graph with contents. -/
theorem within_createRelation (data : CreateRelation) (key : String) :
    Sends (Within graphing) (SqlGraph.createRelation platform data key) := by
  have hcontent : Area.content ∈ graphing := by decide
  have hgraph : Area.graph ∈ graphing := by decide
  refine (readOnly_scope _ _).sends.bind fun _ => sends_once (fun _ => trivial) fun kd rd => ?_
  refine (readOnly_endpoint _ _).sends.bind fun _ => (readOnly_endpoint _ _).sends.bind fun _ => ?_
  refine (readOnly_validateEvidence _ _).sends.bind fun _ =>
    (within_newObject (by decide) _ _).bind fun id => (sends_send hcontent).bind fun _ => ?_
  refine (sends_send hgraph).bind fun _ =>
    (within_insertRevision platform hcontent _ _ _ _).bind fun _ => (sends_send hgraph).bind fun _ => ?_
  exact (within_audit (by decide) _ _).bind fun _ =>
    (within_saveResult (by decide) _ _ _ _).bind fun _ => trivial

/-- A corrected relation is written in the graph and its contents. -/
theorem within_reviseRelation (id : UUID) (data : ReviseRelation) (key : String) :
    Sends (Within graphing) (SqlGraph.reviseRelation platform id data key) := by
  have hgraph : Area.graph ∈ graphing := by decide
  refine (readOnly_object _ _).sends.bind fun _ => (readOnly_read _).sends.bind fun _ => ?_
  refine (readOnly_found _ _).sends.bind fun _ => sends_once (fun _ => trivial) fun kd rd => ?_
  refine (readOnly_demand _ _).sends.bind fun _ => (readOnly_demand _ _).sends.bind fun _ => ?_
  refine (readOnly_endpoint _ _).sends.bind fun _ =>
    (readOnly_validateEvidence _ _).sends.bind fun _ => ?_
  refine (within_insertRevision platform (by decide) _ _ _ _).bind fun _ =>
    (sends_send hgraph).bind fun _ => ?_
  exact (within_audit (by decide) _ _).bind fun _ =>
    (within_saveResult (by decide) _ _ _ _).bind fun _ => trivial

/-- A new job is an object on the queue. -/
theorem within_insertJob (data : EnqueueJob) (retryOf : Option UUID) (intent identity : Digest) :
    Sends (Within queueing) (Jobs.insertJob data retryOf intent identity) := by
  have hadmission : Area.admission ∈ queueing := by decide
  refine (readOnly_read _).sends.bind fun _ => (readOnly_demand _ _).sends.bind fun _ =>
    (readOnly_validateEvidence _ _).sends.bind fun _ => ?_
  refine (within_newObject (by decide) _ _).bind fun id => (sends_send hadmission).bind fun _ =>
    (sends_forEach fun _ _ => sends_send hadmission).bind fun _ => ?_
  exact (readOnly_read _).sends.bind fun _ => (sends_send hadmission).bind fun _ =>
    (within_audit (by decide) _ _).bind fun _ => trivial

/-- Queueing writes a job, its object and a receipt. -/
theorem within_enqueue (data : EnqueueJob) (key : String) (retryOf : Option UUID) :
    Sends (Within queueing) (Jobs.enqueue platform data key retryOf) := by
  refine (readOnly_scope _ _).sends.bind fun _ => sends_once (fun _ => trivial) fun kd rd => ?_
  have hadmit : Sends (Within queueing) (Jobs.admitJob platform data retryOf) := by
    refine (readOnly_digest platform _).sends.bind fun _ =>
      (readOnly_checkRetry _ _).sends.bind fun _ => ?_
    refine (readOnly_digest platform _).sends.bind fun _ =>
      (readOnly_read _).sends.bind fun row => ?_
    split
    · exact (readOnly_jobLoad _ _ _).sends.bind fun _ => trivial
    · exact within_insertJob _ _ _ _
  exact hadmit.bind fun id => (within_saveResult (by decide) _ _ _ _).bind fun _ => trivial

/-- What a capture writes. -/
def capturing : List Area := [.object, .content, .admission, .operation]

/-- The episode of a capture is an object with its contents. -/
theorem within_observeEpisode (data : Observe) (key : String) :
    Sends (Within capturing) (Captures.observeEpisode platform data key) := by
  have hwider : publishing ⊆ capturing := by decide
  refine ((within_observe platform _ _).mono fun _ => Within.mono hwider).bind fun receipt => ?_
  split <;> trivial

/-- A captured memory is queued like any other request. -/
theorem within_enqueueMemory (scopeId episode : UUID) (memory : CapturedMemory) (key : String) :
    Sends (Within capturing) (Captures.enqueueMemory platform scopeId episode memory key) := by
  have hwider : queueing ⊆ capturing := by decide
  refine ((within_enqueue platform _ _ _).mono fun _ => Within.mono hwider).bind fun receipt => ?_
  split <;> trivial

/-- A capture writes an episode and a job. -/
theorem within_capture (data : Capture) (key : String) :
    Sends (Within capturing) (Captures.create platform data key) := by
  refine (readOnly_scope _ _).sends.bind fun _ => sends_once (fun _ => trivial) fun kd rd => ?_
  refine (within_observeEpisode platform _ _).bind fun episode =>
    (within_enqueueMemory platform _ _ _ _).bind fun job => ?_
  exact (within_saveResult (by decide) _ _ _ _).bind fun _ =>
    (within_audit (by decide) _ _).bind fun _ => trivial

/-- A batch writes an episode and its jobs. -/
theorem within_captureBatch (data : CaptureBatch) (key : String) :
    Sends (Within capturing) (Captures.createBatch platform data key) := by
  refine (readOnly_scope _ _).sends.bind fun _ => sends_once (fun _ => trivial) fun kd rd => ?_
  refine (within_observeEpisode platform _ _).bind fun episode =>
    (sends_forCollect fun memory => within_enqueueMemory platform _ _ _ _).bind fun jobs => ?_
  exact (within_saveResult (by decide) _ _ _ _).bind fun _ =>
    (within_audit (by decide) _ _).bind fun _ => trivial

/-- What changes a job. -/
def turning : List Area := [.turn, .operation]

/-- `cancel` turns a job, and stores a receipt. -/
theorem within_cancel (id : UUID) (data : CancelJob) (key : String) :
    Sends (Within turning) (Jobs.cancel platform id data key) := by
  refine (readOnly_read _).sends.bind fun _ => (readOnly_jobLoad _ _ _).sends.bind fun _ => ?_
  refine (readOnly_demand _ _).sends.bind fun _ => sends_once (fun _ => trivial) fun kd rd => ?_
  refine (within_update (by decide) _ _).bind fun _ => (readOnly_demand _ _).sends.bind fun _ => ?_
  exact (within_audit (by decide) _ _).bind fun _ =>
    (within_saveResult (by decide) _ _ _ _).bind fun _ => trivial

/-- `claim` turns a job. -/
theorem within_claim (leaseSeconds : Nat) : Sends (Within turning) (Jobs.claim leaseSeconds) := by
  unfold Jobs.claim
  split
  · refine (readOnly_readAt _).sends.bind fun row => ?_
    split
    · trivial
    · refine (readOnly_jobLoad _ _ _).sends.bind fun job => ?_
      split
      · exact (within_update (by decide) _ _).bind fun _ => (within_audit (by decide) _ _).bind
          fun _ => trivial
      · exact (within_update (by decide) _ _).bind fun _ => (readOnly_found _ _).sends.bind fun _ =>
          (within_audit (by decide) _ _).bind fun _ => trivial
  · trivial

/-- `heartbeat` turns a job. -/
theorem within_heartbeat (id token : UUID) : Sends (Within turning) (Jobs.heartbeat id token) :=
  (readOnly_lease _ _ _).sends.bind fun _ => (within_update (by decide) _ _).bind fun _ => trivial

/-- `fail` turns a job. -/
theorem within_fail (id token : UUID) (code : JobError) (retry : Bool) :
    Sends (Within turning) (Jobs.fail id token code retry) :=
  (readOnly_lease _ _ _).sends.bind fun _ => (within_update (by decide) _ _).bind fun _ =>
    (within_audit (by decide) _ _).bind fun _ => trivial

/-- What a publication writes. -/
def publication : List Area := [.object, .content, .turn, .operation]

/-- `publish` writes an assertion and turns a job. -/
theorem within_publish (id token : UUID) (prepared : Remember) :
    Sends (Within publication) (Jobs.publish platform id token prepared) := by
  have hwider : publishing ⊆ publication := by decide
  refine (readOnly_lease _ _ _).sends.bind fun _ => (readOnly_demand _ _).sends.bind fun _ => ?_
  refine ((within_publishAssertion platform _).mono fun _ => Within.mono hwider).bind fun _ =>
    (readOnly_found _ _).sends.bind fun _ => ?_
  exact (within_update (by decide) _ _).bind fun _ => (readOnly_demand _ _).sends.bind fun _ =>
    (within_audit (by decide) _ _).bind fun _ => trivial

/-- What plans and moves effects. -/
def effecting : List Area := [.object, .ledger, .operation]

/-- A revision of an effect is written in the ledger and the audit. -/
theorem within_append {areas : List Area} (hledger : .ledger ∈ areas) (hoperation : .operation ∈ areas)
    (new : NewEffectRevision) : Sends (Within areas) (ToolEffects.append new) :=
  (sends_send hledger).bind fun _ => (within_audit hoperation _ _).bind fun _ => trivial

/-- `plan` writes an object in the ledger. -/
theorem within_plan (data : PlanToolEffect) (key : String) :
    Sends (Within effecting) (ToolEffects.plan platform data key) := by
  have hledger : Area.ledger ∈ effecting := by decide
  refine (readOnly_scope _ _).sends.bind fun _ =>
    sends_once (fun r => (readOnly_effectReplayed _ r).sends) fun kd rd => ?_
  have honce : Sends (Within effecting) (ToolEffects.planOnce platform data rd) := by
    refine (readOnly_read _).sends.bind fun row => ?_
    split
    · exact (readOnly_demand _ _).sends.bind fun _ =>
        (readOnly_effectLoad _ _).sends.bind fun _ => trivial
    · refine (readOnly_read _).sends.bind fun _ => (readOnly_found _ _).sends.bind fun _ => ?_
      refine (readOnly_demand _ _).sends.bind fun _ => (readOnly_listRun _ _).sends.bind fun _ => ?_
      refine (readOnly_demand _ _).sends.bind fun _ =>
        (readOnly_validateRefs _ _ _).sends.bind fun _ => ?_
      refine (readOnly_digest platform _).sends.bind fun _ =>
        (readOnly_digest platform _).sends.bind fun _ => ?_
      refine (within_newObject (by decide) _ _).bind fun id => (sends_send hledger).bind fun _ =>
        (sends_forEach fun _ _ => sends_send hledger).bind fun _ => ?_
      exact (sends_send hledger).bind fun _ => within_append hledger (by decide) _
  exact honce.bind fun id => (within_saveResult (by decide) _ _ _ _).bind fun _ => trivial

/-- `transition` writes in the ledger. -/
theorem within_transition (id : UUID) (data : TransitionToolEffect) (key : String) :
    Sends (Within effecting) (ToolEffects.transition platform id data key) := by
  refine (readOnly_effectLoad _ _).sends.bind fun _ => sends_once (fun _ => trivial) fun kd rd => ?_
  refine (readOnly_demand _ _).sends.bind fun _ => (readOnly_demand _ _).sends.bind fun _ => ?_
  exact (readOnly_demand _ _).sends.bind fun _ =>
    (within_append (by decide) (by decide) _).bind fun _ =>
      (within_saveResult (by decide) _ _ _ _).bind fun _ => trivial

/-- What saves a checkpoint. -/
def saving : List Area := [.object, .checkpoint, .operation]

/-- A checkpoint is an object with its rows. -/
theorem within_insertCheckpoint {areas : List Area} (hobject : .object ∈ areas)
    (hcheckpoint : .checkpoint ∈ areas) (hoperation : .operation ∈ areas) (data : CreateCheckpoint)
    (sequence : Nat) (parentId : Option UUID) :
    Sends (Within areas) (Checkpoints.insert platform data sequence parentId) := by
  refine (readOnly_validateRefs _ _ _).sends.bind fun refs =>
    (readOnly_read _).sends.bind fun epochs => ?_
  refine (within_newObject hobject _ _).bind fun id => (readOnly_digest platform _).sends.bind
    fun sum => (sends_send hcheckpoint).bind fun _ => ?_
  exact (sends_forEach fun _ _ => sends_send hcheckpoint).bind fun _ =>
    (within_audit hoperation _ _).bind fun _ => trivial

/-- `create` writes a checkpoint and a receipt. -/
theorem within_createCheckpoint (data : CreateCheckpoint) (key : String) :
    Sends (Within saving) (Checkpoints.create platform data key) := by
  have hcheckpoint : Area.checkpoint ∈ saving := by decide
  refine (readOnly_scope _ _).sends.bind fun _ =>
    sends_once (fun r => (readOnly_checkpointReplayed platform r).sends) fun kd rd => ?_
  have hrun : Sends (Within saving) (Checkpoints.ensureRun data) :=
    (sends_send hcheckpoint).bind fun _ => (readOnly_read _).sends.bind fun _ =>
      (readOnly_demand _ _).sends.bind fun _ => (readOnly_demand _ _).sends
  refine hrun.bind fun _ => (sends_send hcheckpoint).bind fun _ =>
    (readOnly_read _).sends.bind fun _ => ?_
  refine (readOnly_found _ _).sends.bind fun branch => (readOnly_demand _ _).sends.bind fun _ => ?_
  refine (readOnly_demand _ _).sends.bind fun _ => ?_
  have hinsert : Sends (Within saving) (do
      let result ← Checkpoints.insert platform data (branch.sequence + 1) data.expectedHead
      saveResult .checkpoint kd rd result
      pure result) :=
    (within_insertCheckpoint platform (by decide) hcheckpoint (by decide) data _ _).bind fun _ =>
      (within_saveResult (by decide) _ _ _ _).bind fun _ => trivial
  split
  · exact hinsert
  · exact (readOnly_checkpointLoad platform _ _).sends.bind fun _ =>
      (readOnly_demand _ _).sends.bind fun _ => hinsert

/-- What a restore writes. -/
def restoring : List Area := [.object, .checkpoint, .ledger, .operation]

/-- `restore` writes a checkpoint, and fences the effects of the run. -/
theorem within_restore (data : RestoreCheckpoint) (key : String) :
    Sends (Within restoring) (Checkpoints.restore platform data key) := by
  have hcheckpoint : Area.checkpoint ∈ restoring := by decide
  have hledger : Area.ledger ∈ restoring := by decide
  have hoperation : Area.operation ∈ restoring := by decide
  refine (readOnly_checkpointLoad platform _ _).sends.bind fun saved =>
    sends_once (fun r => (readOnly_receiptEnvelope platform r).sends) fun kd rd => ?_
  refine (readOnly_demand _ _).sends.bind fun _ => ?_
  refine Sends.bind (p := sendReturning _) ⟨hcheckpoint, fun _ => trivial⟩ fun inserted => ?_
  refine (readOnly_demand _ _).sends.bind fun _ => ?_
  refine ((sends_fenceRestore _ _).mono fun st hst => ?_).bind fun _ => ?_
  · -- a fence writes revisions of effects and audit entries
    cases st with
    | ledger st => exact hledger
    | operation st => exact hoperation
    | _ => exact hst.elim
  split
  · trivial
  · refine (within_insertCheckpoint platform (by decide) hcheckpoint hoperation _ _ _).bind fun _ =>
      (within_saveResult hoperation _ _ _ _).bind fun _ => ?_
    exact (readOnly_found _ _).sends.bind fun _ => (within_audit hoperation _ _).bind fun _ =>
      (readOnly_envelope platform _).sends

/-- `put` writes an embedding and a receipt. -/
theorem within_put (data : PutEmbedding) (key : String) :
    Sends (Within publishing) (Embeddings.put platform data key) := by
  have hcontent : Area.content ∈ publishing := by decide
  refine (readOnly_source _ _).sends.bind fun found => (readOnly_demand _ _).sends.bind fun _ => ?_
  refine sends_once (fun _ => (readOnly_embeddingReplayed platform _ data).sends) fun kd rd => ?_
  refine (readOnly_read _).sends.bind fun existing => ?_
  have hsave : Sends (Within publishing) (do
      saveResult .embedding kd rd (.embedding data.memoryId data.revision.val)
      pure (Receipt.embedding data.memoryId data.revision.val)) :=
    (within_saveResult (by decide) _ _ _ _).bind fun _ => trivial
  split
  · exact (readOnly_demand _ _).sends.bind fun _ => hsave
  · refine (readOnly_read _).sends.bind fun _ => (readOnly_demand _ _).sends.bind fun _ => ?_
    refine (sends_send ?_).bind fun _ => (within_audit (by decide) _ _).bind fun _ => hsave
    unfold Embeddings.insertEmbedding
    split <;> exact hcontent

end Operations

/-! ## Requests -/

/-- **The areas that a request writes in**, but for the deletion. -/
def Request.areas : Request → List Area
  | .observe _ _ | .remember _ _ | .reviseAssertion _ _ _ | .putEmbedding _ _ => publishing
  | .capture _ _ | .captureBatch _ _ => capturing
  | .createEntity _ _ | .createRelation _ _ | .reviseRelation _ _ _ => graphing
  | .enqueue _ _ _ => queueing
  | .cancel _ _ _ | .claim _ | .heartbeat _ _ | .fail _ _ _ _ => turning
  | .publish _ _ _ => publication
  | .createCheckpoint _ _ => saving
  | .restoreCheckpoint _ _ => restoring
  | .plan _ _ | .transition _ _ _ => effecting
  | .forget _ _ => [.purge, .operation]
  | _ => []

/-- **Every request that does not delete writes in its own areas only.** -/
theorem Request.within (platform : Platform) (request : Request) (hquiet : request.deletes = false) :
    Sends (Within request.areas) (request.program platform) := by
  refine readOnly_bindIdentity.sends.bind fun _ => ?_
  have hread : ∀ {α : Type} {wrap : α → Response} {p : Tx α}, ReadOnly p →
      Sends (Within []) (respond wrap p) := fun hp => hp.sends.bind fun _ => trivial
  cases request with
  | observe data key => exact (within_observe platform _ _).bind fun _ => trivial
  | remember data key => exact (within_remember platform _ _).bind fun _ => trivial
  | reviseAssertion id data key => exact (within_reviseAssertion platform _ _ _).bind fun _ => trivial
  | capture data key => exact (within_capture platform _ _).bind fun _ => trivial
  | captureBatch data key => exact (within_captureBatch platform _ _).bind fun _ => trivial
  | createEntity data key => exact (within_createEntity platform _ _).bind fun _ => trivial
  | createRelation data key => exact (within_createRelation platform _ _).bind fun _ => trivial
  | reviseRelation id data key => exact (within_reviseRelation platform _ _ _).bind fun _ => trivial
  | enqueue data key retryOf => exact (within_enqueue platform _ _ _).bind fun _ => trivial
  | cancel id data key => exact (within_cancel platform _ _ _).bind fun _ => trivial
  | createCheckpoint data key => exact (within_createCheckpoint platform _ _).bind fun _ => trivial
  | restoreCheckpoint data key => exact (within_restore platform _ _).bind fun _ => trivial
  | plan data key => exact (within_plan platform _ _).bind fun _ => trivial
  | transition id data key => exact (within_transition platform _ _ _).bind fun _ => trivial
  | putEmbedding data key => exact (within_put platform _ _).bind fun _ => trivial
  | forget data key => cases hquiet
  | «recall» data => exact hread (readOnly_recall platform data)
  | explain data => exact hread (readOnly_explain data)
  | entity id => exact hread (readOnly_entity id)
  | expand data => exact hread (readOnly_expand data)
  | checkpoint id => exact hread (readOnly_envelope platform id)
  | checkpointHead data => exact hread (readOnly_head platform data)
  | job id => exact hread (readOnly_jobGet id)
  | effect id => exact hread (readOnly_effectGet id)
  | query query => exact hread (readOnly_query platform query)
  | claim leaseSeconds => exact (within_claim _).bind fun _ => trivial
  | heartbeat id token => exact (within_heartbeat _ _).bind fun _ => trivial
  | publish id token prepared => exact (within_publish platform _ _ _).bind fun _ => trivial
  | fail id token code retry => exact (within_fail _ _ _ _).bind fun _ => trivial

/-! ## The jobs of requests -/

/-- **The jobs that a request queues**: the request for publication, and the job that it retries. -/
def Request.Enqueues : Request → Remember → Option UUID → Prop
  | .enqueue data _ parent, memory, retryOf => memory = data.memory ∧ retryOf = parent
  | .capture data _, memory, retryOf => retryOf = none
    ∧ ∃ episode, memory = data.memory.remember data.episode.scopeId episode
  | .captureBatch data _, memory, retryOf => retryOf = none
    ∧ ∃ item ∈ data.memories, ∃ episode, memory = item.remember data.episode.scopeId episode
  | _, _, _ => False

/-- A new job for a request for publication. -/
structure NewJob.Asks (n : NewJob) (memory : Remember) (retryOf : Option UUID) : Prop where
  scopeId : n.scopeId = memory.scopeId
  payload : n.payload = memory.dump
  referenceCount : n.referenceCount = memory.evidence.length
  retryOf : n.retryOf = retryOf

/-- Statements that queue only some jobs. -/
def QueuesFor (wanted : Remember → Option UUID → Prop) : Statement → Prop
  | .queue (.insertJob n) => ∃ memory retryOf, wanted memory retryOf ∧ n.Asks memory retryOf
  | _ => True

/-- Jobs for some requests are jobs for more. -/
theorem QueuesFor.mono {wanted wanted' : Remember → Option UUID → Prop}
    (h : ∀ memory retryOf, wanted memory retryOf → wanted' memory retryOf) {st : Statement}
    (hst : QueuesFor wanted st) : QueuesFor wanted' st := by
  unfold QueuesFor at hst ⊢
  split
  · obtain ⟨memory, retryOf, hwanted, hasks⟩ := hst
    exact ⟨memory, retryOf, h memory retryOf hwanted, hasks⟩
  · trivial

/-- A collecting loop sends what its passes send. -/
theorem sends_forCollect_mem {α β : Type} {kind : Statement → Prop} {f : α → Tx β} :
    ∀ {xs : List α}, (∀ x ∈ xs, Sends kind (f x)) → Sends kind (forCollect f xs)
  | [], _ => trivial
  | x :: _, h => (h x List.mem_cons_self).bind fun _ =>
    (sends_forCollect_mem fun y hy => h y (List.mem_cons_of_mem x hy)).bind fun _ => trivial

/-- Outside the admission nothing is queued. -/
theorem Within.queuesNone {areas : List Area} {st : Statement} (hst : Within areas st)
    (hareas : .admission ∉ areas) (wanted : Remember → Option UUID → Prop) : QueuesFor wanted st := by
  unfold QueuesFor
  split
  · exact absurd hst hareas
  · trivial

section Jobs

variable (platform : Platform) {wanted : Remember → Option UUID → Prop}

/-- `enqueue` queues a job for its own request only. -/
theorem queues_enqueue (data : EnqueueJob) (key : String) (retryOf : Option UUID)
    (h : wanted data.memory retryOf) :
    Sends (QueuesFor wanted) (Jobs.enqueue platform data key retryOf) := by
  refine (readOnly_scope _ _).sends.bind fun _ => sends_once (fun _ => trivial) fun kd rd => ?_
  have hinsert : ∀ intent identity,
      Sends (QueuesFor wanted) (Jobs.insertJob data retryOf intent identity) := by
    intro intent identity
    refine (readOnly_read _).sends.bind fun _ => (readOnly_demand _ _).sends.bind fun _ =>
      (readOnly_validateEvidence _ _).sends.bind fun _ => ?_
    refine (sends_newObject fun _ => trivial).bind fun id => Sends.bind (sends_send ?_) fun _ =>
      (sends_forEach fun _ _ => sends_send trivial).bind fun _ => ?_
    · exact ⟨data.memory, retryOf, h, rfl, rfl, rfl, rfl⟩
    · exact (readOnly_read _).sends.bind fun _ => (sends_send trivial).bind fun _ =>
        (sends_send trivial).bind fun _ => trivial
  have hadmit : Sends (QueuesFor wanted) (Jobs.admitJob platform data retryOf) := by
    refine (readOnly_digest platform _).sends.bind fun _ =>
      (readOnly_checkRetry _ _).sends.bind fun _ => ?_
    refine (readOnly_digest platform _).sends.bind fun _ =>
      (readOnly_read _).sends.bind fun row => ?_
    split
    · exact (readOnly_jobLoad _ _ _).sends.bind fun _ => trivial
    · exact hinsert _ _
  exact hadmit.bind fun id => (sends_send trivial).bind fun _ => trivial

/-- A captured memory is queued for its own request, about the episode, only. -/
theorem queues_enqueueMemory (scopeId episode : UUID) (memory : CapturedMemory) (key : String)
    (h : wanted (memory.remember scopeId episode) none) :
    Sends (QueuesFor wanted) (Captures.enqueueMemory platform scopeId episode memory key) := by
  refine (queues_enqueue platform ⟨memory.remember scopeId episode⟩ key none h).bind fun receipt => ?_
  split <;> trivial

/-- The episode of a capture queues nothing. -/
theorem queues_observeEpisode (data : Observe) (key : String) :
    Sends (QueuesFor wanted) (Captures.observeEpisode platform data key) := by
  refine ((within_observe platform data key).mono fun st hst =>
    hst.queuesNone (by decide) wanted).bind fun receipt => ?_
  split <;> trivial

/-- A capture queues a job for its memory only, about whatever episode. -/
theorem queues_capture (data : Capture) (key : String)
    (h : ∀ episode, wanted (data.memory.remember data.episode.scopeId episode) none) :
    Sends (QueuesFor wanted) (Captures.create platform data key) := by
  refine (readOnly_scope _ _).sends.bind fun _ => sends_once (fun _ => trivial) fun kd rd => ?_
  refine (queues_observeEpisode platform _ _).bind fun episode =>
    (queues_enqueueMemory platform _ _ _ _ (h episode)).bind fun job => ?_
  exact (sends_send trivial).bind fun _ => (sends_send trivial).bind fun _ => trivial

/-- A batch queues jobs for its memories only. -/
theorem queues_captureBatch (data : CaptureBatch) (key : String)
    (h : ∀ item ∈ data.memories, ∀ episode,
      wanted (item.remember data.episode.scopeId episode) none) :
    Sends (QueuesFor wanted) (Captures.createBatch platform data key) := by
  refine (readOnly_scope _ _).sends.bind fun _ => sends_once (fun _ => trivial) fun kd rd => ?_
  refine (queues_observeEpisode platform _ _).bind fun episode => Sends.bind ?_ fun jobs => ?_
  · refine sends_forCollect_mem fun item hitem => queues_enqueueMemory platform _ _ _ _ ?_
    exact h item.1 (List.fst_mem_of_mem_zipIdx hitem) episode
  · exact (sends_send trivial).bind fun _ => (sends_send trivial).bind fun _ => trivial

/-- **Every request queues its own jobs only.** -/
theorem Request.queuesOwn (request : Request) (hquiet : request.deletes = false) :
    Sends (QueuesFor request.Enqueues) (request.program platform) := by
  have hother : .admission ∉ request.areas → Sends (QueuesFor request.Enqueues) (request.program platform) :=
    fun hareas => (request.within platform hquiet).mono fun st hst => hst.queuesNone hareas _
  cases request with
  | enqueue data key retryOf =>
    refine readOnly_bindIdentity.sends.bind fun _ => Sends.bind ?_ fun _ => trivial
    exact queues_enqueue platform data key retryOf ⟨rfl, rfl⟩
  | capture data key =>
    refine readOnly_bindIdentity.sends.bind fun _ => Sends.bind ?_ fun _ => trivial
    exact queues_capture platform data key fun episode => ⟨rfl, episode, rfl⟩
  | captureBatch data key =>
    refine readOnly_bindIdentity.sends.bind fun _ => Sends.bind ?_ fun _ => trivial
    exact queues_captureBatch platform data key fun item hitem episode => ⟨rfl, item, hitem, episode, rfl⟩
  | forget data key => cases hquiet
  | _ => exact hother (of_decide_eq_false rfl)

end Jobs

end PgAgmemory

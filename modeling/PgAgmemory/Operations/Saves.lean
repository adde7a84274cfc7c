import PgAgmemory.Operations.Requests

/-! # The receipts that a request saves

Every operation saves receipts under its own name; a capture also saves those of the operations it
is made of (`Request.saves`). -/

namespace PgAgmemory

open Interactive (Program)
open Interactive.Program (ReadOnly Sends)
open MemoryService

/-- Statements that save receipts of some operations only. -/
def Saves (operations : List Operation) : Statement → Prop
  | .operation (.saveResult operation _ _ _) => operation ∈ operations
  | _ => True

/-- Receipts of some operations are receipts of more. -/
theorem Saves.mono {operations operations' : List Operation} (h : operations ⊆ operations')
    {st : Statement} (hst : Saves operations st) : Saves operations' st := by
  unfold Saves at hst ⊢
  split
  · exact h hst
  · trivial

section Steps

variable {operations : List Operation} {α β : Type}

/-- Saving a receipt of one of the operations. -/
theorem sends_saveResult {operation : Operation} (h : operation ∈ operations)
    (keyDigest requestDigest : Digest) (result : Receipt) :
    Sends (Saves operations) (saveResult operation keyDigest requestDigest result) := sends_send h

/-- An audit entry saves nothing. -/
theorem sends_audit (action : String) (target : UUID) :
    Sends (Saves operations) (audit action target) := sends_send trivial

/-- A new object saves nothing. -/
theorem sends_create (scopeId : UUID) (kind : ObjectKind) :
    Sends (Saves operations) (newObject scopeId kind) := sends_newObject fun _ => trivial

/-- A loop sends what its passes do. -/
theorem sends_forEach {kind : Statement → Prop} {xs : List α} {f : α → Tx Unit}
    (h : ∀ x ∈ xs, Sends kind (f x)) : Sends kind (forEach xs f) := Program.sends_forM h

/-- A collecting loop sends what its passes do. -/
theorem sends_forCollect {kind : Statement → Prop} {xs : List α} {f : α → Tx β}
    (h : ∀ x, Sends kind (f x)) : Sends kind (forCollect f xs) := by
  induction xs with
  | nil => trivial
  | cons x xs ih => exact (h x).bind fun _ => ih.bind fun _ => trivial

/-- Once a key: the part after a stored receipt, or the fresh part. -/
theorem sends_once {kind : Statement → Prop} {platform : Platform} {operation : Operation}
    {key payload : String} {replayed : Receipt → Tx α} {fresh : Digest → Digest → Tx α}
    (hreplayed : ∀ receipt, Sends kind (replayed receipt))
    (hfresh : ∀ keyDigest requestDigest, Sends kind (fresh keyDigest requestDigest)) :
    Sends kind (once platform operation key payload replayed fresh) := by
  refine (readOnly_replay platform operation key payload).sends.bind fun found => ?_
  obtain ⟨keyDigest, requestDigest, previous⟩ := found
  cases previous with
  | none => exact hfresh keyDigest requestDigest
  | some receipt => exact hreplayed receipt

end Steps

/-! ## Operations -/

section Operations

variable (platform : Platform)

/-- `observe` saves its own receipt only. -/
theorem sends_observe (data : Observe) (key : String) :
    Sends (Saves [.observe]) (observe platform data key) := by
  refine (readOnly_scope _ _).sends.bind fun _ => sends_once (fun _ => trivial) fun kd rd => ?_
  have hrecord : Sends (Saves [.observe]) (recordEvent platform data rd) := by
    refine (readOnly_digest platform _).sends.bind fun _ =>
      (readOnly_read _).sends.bind fun row => ?_
    split
    · exact (readOnly_demand _ _).sends.bind fun _ => (readOnly_object _ _).sends.bind fun _ =>
        trivial
    · refine (sends_create _ _).bind fun id => (sends_send trivial).bind fun _ => ?_
      refine (readOnly_segment platform _).sends.bind fun _ => (sends_send trivial).bind fun _ => ?_
      exact (sends_send trivial).bind fun _ => (sends_audit _ _).bind fun _ => trivial
  refine hrecord.bind fun id => (sends_saveResult ?_ _ _ _).bind fun _ => trivial
  exact List.mem_singleton_self _

/-- A revision saves nothing. -/
theorem sends_insertRevision {operations : List Operation} (id scopeId : UUID) (revision : Nat)
    (data : RevisionContent) :
    Sends (Saves operations) (MemoryService.insertRevision platform id scopeId revision data) := by
  refine (sends_send trivial).bind fun _ => (sends_forEach fun _ _ =>
    sends_send trivial).bind fun _ => ?_
  refine (readOnly_read _).sends.bind fun _ => (readOnly_found _ _).sends.bind fun _ => ?_
  exact (readOnly_segment platform _).sends.bind fun _ => sends_send trivial

/-- Publishing saves nothing. -/
theorem sends_publishAssertion {operations : List Operation} (data : Remember) :
    Sends (Saves operations) (publishAssertion platform data) := by
  refine (readOnly_scope _ _).sends.bind fun _ =>
    (readOnly_validateEvidence _ _).sends.bind fun _ => ?_
  refine (sends_create _ _).bind fun id => (sends_send trivial).bind fun _ => ?_
  exact (sends_insertRevision platform _ _ _ _).bind fun _ => (sends_audit _ _).bind fun _ =>
    trivial

/-- `remember` saves its own receipt only. -/
theorem sends_remember (data : Remember) (key : String) :
    Sends (Saves [.remember]) (remember platform data key) := by
  refine (readOnly_scope _ _).sends.bind fun _ => sends_once (fun _ => trivial) fun kd rd => ?_
  refine (sends_publishAssertion platform _).bind fun _ =>
    (sends_saveResult ?_ _ _ _).bind fun _ => trivial
  exact List.mem_singleton_self _

/-- A correction saves its own receipt only. -/
theorem sends_reviseAssertion (id : UUID) (data : ReviseAssertion) (key : String) :
    Sends (Saves [.reviseAssertion]) (reviseAssertion platform id data key) := by
  refine (readOnly_object _ _).sends.bind fun _ => (readOnly_demand _ _).sends.bind fun _ => ?_
  refine sends_once (fun _ => trivial) fun kd rd => ?_
  refine (readOnly_read _).sends.bind fun _ => (readOnly_found _ _).sends.bind fun _ => ?_
  refine (readOnly_demand _ _).sends.bind fun _ => (readOnly_demand _ _).sends.bind fun _ => ?_
  refine (readOnly_demand _ _).sends.bind fun _ =>
    (readOnly_validateEvidence _ _).sends.bind fun _ => ?_
  refine (sends_insertRevision platform _ _ _ _).bind fun _ =>
    (sends_saveResult ?_ _ _ _).bind fun _ => ?_
  · exact List.mem_singleton_self _
  · exact (sends_audit _ _).bind fun _ => trivial

/-- An entity saves its own receipt only. -/
theorem sends_createEntity (data : CreateEntity) (key : String) :
    Sends (Saves [.createEntity]) (SqlGraph.createEntity platform data key) := by
  refine (readOnly_scope _ _).sends.bind fun _ =>
    sends_once (fun r => (readOnly_entityReplayed r).sends) fun kd rd => ?_
  refine (readOnly_validateEvidence _ _).sends.bind fun _ => (sends_create _ _).bind fun id => ?_
  refine (sends_send trivial).bind fun _ => (sends_forEach fun _ _ =>
    sends_send trivial).bind fun _ => ?_
  refine (sends_audit _ _).bind fun _ => (sends_saveResult ?_ _ _ _).bind fun _ => trivial
  exact List.mem_singleton_self _

/-- A relation saves its own receipt only. -/
theorem sends_createRelation (data : CreateRelation) (key : String) :
    Sends (Saves [.createRelation]) (SqlGraph.createRelation platform data key) := by
  refine (readOnly_scope _ _).sends.bind fun _ => sends_once (fun _ => trivial) fun kd rd => ?_
  refine (readOnly_endpoint _ _).sends.bind fun _ => (readOnly_endpoint _ _).sends.bind fun _ => ?_
  refine (readOnly_validateEvidence _ _).sends.bind fun _ => (sends_create _ _).bind fun id => ?_
  refine (sends_send trivial).bind fun _ => (sends_send trivial).bind fun _ => ?_
  refine (sends_insertRevision platform _ _ _ _).bind fun _ => (sends_send trivial).bind fun _ => ?_
  refine (sends_audit _ _).bind fun _ => (sends_saveResult ?_ _ _ _).bind fun _ => trivial
  exact List.mem_singleton_self _

/-- A corrected relation saves its own receipt only. -/
theorem sends_reviseRelation (id : UUID) (data : ReviseRelation) (key : String) :
    Sends (Saves [.reviseRelation]) (SqlGraph.reviseRelation platform id data key) := by
  refine (readOnly_object _ _).sends.bind fun _ => (readOnly_read _).sends.bind fun _ => ?_
  refine (readOnly_found _ _).sends.bind fun _ => sends_once (fun _ => trivial) fun kd rd => ?_
  refine (readOnly_demand _ _).sends.bind fun _ => (readOnly_demand _ _).sends.bind fun _ => ?_
  refine (readOnly_endpoint _ _).sends.bind fun _ =>
    (readOnly_validateEvidence _ _).sends.bind fun _ => ?_
  refine (sends_insertRevision platform _ _ _ _).bind fun _ => (sends_send trivial).bind fun _ => ?_
  refine (sends_audit _ _).bind fun _ => (sends_saveResult ?_ _ _ _).bind fun _ => trivial
  exact List.mem_singleton_self _

/-- Queueing saves the receipt of a job or of a retry only. -/
theorem sends_enqueue (data : EnqueueJob) (key : String) (retryOf : Option UUID) :
    Sends (Saves [.enqueueJob, .retryJob]) (Jobs.enqueue platform data key retryOf) := by
  refine (readOnly_scope _ _).sends.bind fun _ => sends_once (fun _ => trivial) fun kd rd => ?_
  have hadmit : Sends (Saves [.enqueueJob, .retryJob]) (Jobs.admitJob platform data retryOf) := by
    refine (readOnly_digest platform _).sends.bind fun _ =>
      (readOnly_checkRetry _ _).sends.bind fun _ => ?_
    refine (readOnly_digest platform _).sends.bind fun _ =>
      (readOnly_read _).sends.bind fun row => ?_
    split
    · exact (readOnly_jobLoad _ _ _).sends.bind fun _ => trivial
    · refine (readOnly_read _).sends.bind fun _ => (readOnly_demand _ _).sends.bind fun _ => ?_
      refine (readOnly_validateEvidence _ _).sends.bind fun _ =>
        (sends_create _ _).bind fun id => ?_
      refine (sends_send trivial).bind fun _ => (sends_forEach fun _ _ =>
        sends_send trivial).bind fun _ => ?_
      refine (readOnly_read _).sends.bind fun _ => (sends_send trivial).bind fun _ => ?_
      exact (sends_audit _ _).bind fun _ => trivial
  refine hadmit.bind fun id => (sends_saveResult ?_ _ _ _).bind fun _ => trivial
  cases retryOf with
  | none => exact List.mem_cons_self
  | some parent => exact List.mem_cons_of_mem _ (List.mem_singleton_self _)

/-- An update of a job is one statement. -/
theorem sends_update {kind : Statement → Prop} {id : UUID} {change : JobChange}
    (h : kind (.queue (.updateJob id change))) : Sends kind (Jobs.update id change) := by
  refine Sends.bind (p := sendReturning _) ⟨h, fun _ => trivial⟩ fun returned => ?_
  split <;> trivial

/-- `cancel` saves its own receipt only. -/
theorem sends_cancel (id : UUID) (data : CancelJob) (key : String) :
    Sends (Saves [.cancelJob]) (Jobs.cancel platform id data key) := by
  refine (readOnly_read _).sends.bind fun _ => (readOnly_jobLoad _ _ _).sends.bind fun _ => ?_
  refine (readOnly_demand _ _).sends.bind fun _ => sends_once (fun _ => trivial) fun kd rd => ?_
  refine (sends_update trivial).bind fun _ => (readOnly_demand _ _).sends.bind fun _ => ?_
  refine (sends_audit _ _).bind fun _ => (sends_saveResult ?_ _ _ _).bind fun _ => trivial
  exact List.mem_singleton_self _

/-- A captured memory saves the receipt of its job only. -/
theorem sends_enqueueMemory (scopeId episode : UUID) (memory : CapturedMemory) (key : String) :
    Sends (Saves [.enqueueJob, .retryJob])
      (Captures.enqueueMemory platform scopeId episode memory key) := by
  refine (sends_enqueue platform _ _ _).bind fun receipt => ?_
  split <;> trivial

/-- The episode of a capture saves the receipt of the observation only. -/
theorem sends_observeEpisode (data : Observe) (key : String) :
    Sends (Saves [.observe]) (Captures.observeEpisode platform data key) := by
  refine (sends_observe platform _ _).bind fun receipt => ?_
  split <;> trivial

/-- The operations that a capture is made of. -/
def captureParts : List Operation := [.observe, .enqueueJob, .retryJob]

/-- A capture saves its own receipt and those of its parts. -/
theorem sends_capture (data : Capture) (key : String) :
    Sends (Saves (.capture :: captureParts)) (Captures.create platform data key) := by
  refine (readOnly_scope _ _).sends.bind fun _ => sends_once (fun _ => trivial) fun kd rd => ?_
  refine ((sends_observeEpisode platform _ _).mono fun _ => Saves.mono ?_).bind fun episode => ?_
  · decide
  refine ((sends_enqueueMemory platform _ _ _ _).mono fun _ => Saves.mono ?_).bind fun job => ?_
  · decide
  refine (sends_saveResult ?_ _ _ _).bind fun _ => (sends_audit _ _).bind fun _ => trivial
  exact List.mem_cons_self

/-- A batch saves its own receipt and those of its parts. -/
theorem sends_captureBatch (data : CaptureBatch) (key : String) :
    Sends (Saves (.captureBatch :: captureParts)) (Captures.createBatch platform data key) := by
  refine (readOnly_scope _ _).sends.bind fun _ => sends_once (fun _ => trivial) fun kd rd => ?_
  refine ((sends_observeEpisode platform _ _).mono fun _ => Saves.mono ?_).bind fun episode => ?_
  · decide
  refine (sends_forCollect fun memory =>
    (sends_enqueueMemory platform _ _ _ _).mono fun _ => Saves.mono ?_).bind fun jobs => ?_
  · decide
  refine (sends_saveResult ?_ _ _ _).bind fun _ => (sends_audit _ _).bind fun _ => trivial
  exact List.mem_cons_self

/-- `claim` saves nothing. -/
theorem sends_claim (leaseSeconds : Nat) : Sends (Saves []) (Jobs.claim leaseSeconds) := by
  unfold Jobs.claim
  split
  · refine (readOnly_readAt _).sends.bind fun row => ?_
    split
    · trivial
    · refine (readOnly_jobLoad _ _ _).sends.bind fun job => ?_
      split
      · exact (sends_update trivial).bind fun _ => (sends_audit _ _).bind fun _ => trivial
      · refine (sends_update trivial).bind fun _ => (readOnly_found _ _).sends.bind fun _ => ?_
        exact (sends_audit _ _).bind fun _ => trivial
  · trivial

/-- `heartbeat` saves nothing. -/
theorem sends_heartbeat (id token : UUID) : Sends (Saves []) (Jobs.heartbeat id token) :=
  (readOnly_lease _ _ _).sends.bind fun _ => (sends_update trivial).bind fun _ => trivial

/-- `publish` saves nothing. -/
theorem sends_publish (id token : UUID) (prepared : Remember) :
    Sends (Saves []) (Jobs.publish platform id token prepared) := by
  refine (readOnly_lease _ _ _).sends.bind fun _ => (readOnly_demand _ _).sends.bind fun _ => ?_
  refine (sends_publishAssertion platform _).bind fun _ =>
    (readOnly_found _ _).sends.bind fun _ => ?_
  refine (sends_update trivial).bind fun _ => (readOnly_demand _ _).sends.bind fun _ => ?_
  exact (sends_audit _ _).bind fun _ => trivial

/-- `fail` saves nothing. -/
theorem sends_fail (id token : UUID) (code : JobError) (retry : Bool) :
    Sends (Saves []) (Jobs.fail id token code retry) := by
  refine (readOnly_lease _ _ _).sends.bind fun _ => (sends_update trivial).bind fun _ => ?_
  exact (sends_audit _ _).bind fun _ => trivial

/-- Appending a revision of an effect saves no receipt. -/
theorem sends_append {operations : List Operation} (new : NewEffectRevision) :
    Sends (Saves operations) (ToolEffects.append new) :=
  (sends_send trivial).bind fun _ => (sends_audit _ _).bind fun _ => trivial

/-- `plan` saves its own receipt only. -/
theorem sends_plan (data : PlanToolEffect) (key : String) :
    Sends (Saves [.planToolEffect]) (ToolEffects.plan platform data key) := by
  refine (readOnly_scope _ _).sends.bind fun _ =>
    sends_once (fun r => (readOnly_effectReplayed _ r).sends) fun kd rd => ?_
  have honce : Sends (Saves [.planToolEffect]) (ToolEffects.planOnce platform data rd) := by
    refine (readOnly_read _).sends.bind fun row => ?_
    split
    · exact (readOnly_demand _ _).sends.bind fun _ =>
        (readOnly_effectLoad _ _).sends.bind fun _ => trivial
    · refine (readOnly_read _).sends.bind fun _ => (readOnly_found _ _).sends.bind fun _ => ?_
      refine (readOnly_demand _ _).sends.bind fun _ => (readOnly_listRun _ _).sends.bind fun _ => ?_
      refine (readOnly_demand _ _).sends.bind fun _ =>
        (readOnly_validateRefs _ _ _).sends.bind fun _ => ?_
      refine (readOnly_digest platform _).sends.bind fun _ =>
        (readOnly_digest platform _).sends.bind fun _ => ?_
      refine (sends_create _ _).bind fun id => (sends_send trivial).bind fun _ => ?_
      refine (sends_forEach fun _ _ => sends_send trivial).bind fun _ =>
        (sends_send trivial).bind fun _ => ?_
      exact sends_append _
  refine honce.bind fun id => (sends_saveResult ?_ _ _ _).bind fun _ => trivial
  exact List.mem_singleton_self _

/-- `transition` saves its own receipt only. -/
theorem sends_transition (id : UUID) (data : TransitionToolEffect) (key : String) :
    Sends (Saves [.transitionToolEffect]) (ToolEffects.transition platform id data key) := by
  refine (readOnly_effectLoad _ _).sends.bind fun _ => sends_once (fun _ => trivial) fun kd rd => ?_
  refine (readOnly_demand _ _).sends.bind fun _ => (readOnly_demand _ _).sends.bind fun _ => ?_
  refine (readOnly_demand _ _).sends.bind fun _ => (sends_append _).bind fun _ => ?_
  refine (sends_saveResult ?_ _ _ _).bind fun _ => trivial
  exact List.mem_singleton_self _

/-- Inserting a checkpoint saves no receipt. -/
theorem sends_insertUnsaved {operations : List Operation} (data : CreateCheckpoint) (sequence : Nat)
    (parentId : Option UUID) :
    Sends (Saves operations) (Checkpoints.insert platform data sequence parentId) := by
  refine (readOnly_validateRefs _ _ _).sends.bind fun refs =>
    (readOnly_read _).sends.bind fun epochs => ?_
  refine (sends_create _ _).bind fun id => (readOnly_digest platform _).sends.bind fun sum => ?_
  refine (sends_send trivial).bind fun _ => (sends_forEach fun _ _ =>
    sends_send trivial).bind fun _ => ?_
  exact (sends_audit _ _).bind fun _ => trivial

/-- `create` saves its own receipt only. -/
theorem sends_createCheckpoint (data : CreateCheckpoint) (key : String) :
    Sends (Saves [.checkpoint]) (Checkpoints.create platform data key) := by
  refine (readOnly_scope _ _).sends.bind fun _ =>
    sends_once (fun r => (readOnly_checkpointReplayed platform r).sends) fun kd rd => ?_
  have hrun : Sends (Saves [.checkpoint]) (Checkpoints.ensureRun data) :=
    (sends_send trivial).bind fun _ => (readOnly_read _).sends.bind fun _ =>
      (readOnly_demand _ _).sends.bind fun _ => (readOnly_demand _ _).sends
  refine hrun.bind fun _ => (sends_send trivial).bind fun _ =>
    (readOnly_read _).sends.bind fun _ => ?_
  refine (readOnly_found _ _).sends.bind fun branch => (readOnly_demand _ _).sends.bind fun _ => ?_
  refine (readOnly_demand _ _).sends.bind fun _ => ?_
  have hinsert : Sends (Saves [.checkpoint]) (do
      let result ← Checkpoints.insert platform data (branch.sequence + 1) data.expectedHead
      saveResult .checkpoint kd rd result
      pure result) :=
    (sends_insertUnsaved platform data _ _).bind fun _ =>
      (sends_saveResult (List.mem_singleton_self _) _ _ _).bind fun _ => trivial
  split
  · exact hinsert
  · exact (readOnly_checkpointLoad platform _ _).sends.bind fun _ =>
      (readOnly_demand _ _).sends.bind fun _ => hinsert

/-- `restore` saves its own receipt only. -/
theorem sends_restore (data : RestoreCheckpoint) (key : String) :
    Sends (Saves [.restoreCheckpoint]) (Checkpoints.restore platform data key) := by
  refine (readOnly_checkpointLoad platform _ _).sends.bind fun saved =>
    sends_once (fun r => (readOnly_receiptEnvelope platform r).sends) fun kd rd => ?_
  refine (readOnly_demand _ _).sends.bind fun _ => ?_
  refine Sends.bind (p := sendReturning _) ⟨trivial, fun _ => trivial⟩ fun inserted => ?_
  refine (readOnly_demand _ _).sends.bind fun _ => ?_
  refine ((sends_fenceRestore _ _).mono fun st hst => ?_).bind fun _ => ?_
  · cases st with
    | operation st =>
      cases st with
      | saveResult operation kd' rd' result => exact hst.elim
      | _ => trivial
    | _ => trivial
  split
  · trivial
  · refine (sends_insertUnsaved platform _ _ _).bind fun _ =>
      (sends_saveResult ?_ _ _ _).bind fun _ => ?_
    · exact List.mem_singleton_self _
    · refine (readOnly_found _ _).sends.bind fun _ => (sends_audit _ _).bind fun _ => ?_
      exact (readOnly_envelope platform _).sends

/-- `put` saves its own receipt only. -/
theorem sends_put (data : PutEmbedding) (key : String) :
    Sends (Saves [.embedding]) (Embeddings.put platform data key) := by
  refine (readOnly_source _ _).sends.bind fun found => (readOnly_demand _ _).sends.bind fun _ => ?_
  refine sends_once (fun _ => (readOnly_embeddingReplayed platform _ data).sends) fun kd rd => ?_
  refine (readOnly_read _).sends.bind fun existing => ?_
  have hsave : Sends (Saves [.embedding]) (do
      saveResult .embedding kd rd (.embedding data.memoryId data.revision.val)
      pure (Receipt.embedding data.memoryId data.revision.val)) :=
    (sends_saveResult (List.mem_singleton_self _) _ _ _).bind fun _ => trivial
  split
  · exact (readOnly_demand _ _).sends.bind fun _ => hsave
  · refine (readOnly_read _).sends.bind fun _ => (readOnly_demand _ _).sends.bind fun _ => ?_
    refine (sends_send ?_).bind fun _ => (sends_audit _ _).bind fun _ => hsave
    unfold Embeddings.insertEmbedding
    split <;> trivial

/-- `forget` saves its own receipt only. -/
theorem sends_forget (data : Forget) (key : String) :
    Sends (Saves [.forget]) (forget platform data key) := by
  refine sends_once (fun _ => trivial) fun kd rd => ?_
  have hscopes : ReadOnly (admitDeletion data) :=
    (readOnly_forCollect fun _ => readOnly_object _ _).bind fun _ => trivial
  have htargets : ReadOnly (selectClosure data) :=
    (readOnly_read _).bind fun _ => (readOnly_demand _ _).bind fun _ => trivial
  refine hscopes.sends.bind fun scopes => htargets.sends.bind fun targets => ?_
  split
  · trivial
  · have herase : Sends (Saves [.forget]) (erase targets) :=
      sends_forEach fun _ _ => sends_send trivial
    refine Sends.bind ?_ fun _ => trivial
    refine herase.bind fun _ => (sends_send trivial).bind fun _ => ?_
    refine Sends.bind ?_ fun epoch => Sends.bind (p := drawUUID)
      (fun _ => trivial) fun id => ?_
    · refine Sends.bind (p := sendReturning _) ⟨trivial, fun _ => trivial⟩ fun returned => ?_
      split <;> trivial
    · refine (sends_send trivial).bind fun _ => (sends_saveResult ?_ _ _ _).bind fun _ => ?_
      · exact List.mem_singleton_self _
      · exact (sends_audit _ _).bind fun _ => trivial

end Operations

/-! ## Requests -/

/-- **The operations whose receipts a request saves.** -/
def Request.saves : Request → List Operation
  | .observe _ _ => [.observe]
  | .remember _ _ => [.remember]
  | .reviseAssertion _ _ _ => [.reviseAssertion]
  | .capture _ _ => .capture :: captureParts
  | .captureBatch _ _ => .captureBatch :: captureParts
  | .createEntity _ _ => [.createEntity]
  | .createRelation _ _ => [.createRelation]
  | .reviseRelation _ _ _ => [.reviseRelation]
  | .enqueue _ _ _ => [.enqueueJob, .retryJob]
  | .cancel _ _ _ => [.cancelJob]
  | .createCheckpoint _ _ => [.checkpoint]
  | .restoreCheckpoint _ _ => [.restoreCheckpoint]
  | .plan _ _ => [.planToolEffect]
  | .transition _ _ _ => [.transitionToolEffect]
  | .putEmbedding _ _ => [.embedding]
  | .forget _ _ => [.forget]
  | _ => []

/-- **Every request saves receipts of its own operations only.** -/
theorem Request.sends (platform : Platform) (request : Request) :
    Sends (Saves request.saves) (request.program platform) := by
  refine readOnly_bindIdentity.sends.bind fun _ => ?_
  have hread : ∀ {α : Type} {wrap : α → Response} {p : Tx α}, ReadOnly p →
      Sends (Saves []) (respond wrap p) := fun hp => hp.sends.bind fun _ => trivial
  cases request with
  | observe data key => exact (sends_observe platform _ _).bind fun _ => trivial
  | remember data key => exact (sends_remember platform _ _).bind fun _ => trivial
  | reviseAssertion id data key => exact (sends_reviseAssertion platform _ _ _).bind fun _ =>
      trivial
  | capture data key => exact (sends_capture platform _ _).bind fun _ => trivial
  | captureBatch data key => exact (sends_captureBatch platform _ _).bind fun _ => trivial
  | createEntity data key => exact (sends_createEntity platform _ _).bind fun _ => trivial
  | createRelation data key => exact (sends_createRelation platform _ _).bind fun _ => trivial
  | reviseRelation id data key => exact (sends_reviseRelation platform _ _ _).bind fun _ => trivial
  | enqueue data key retryOf => exact (sends_enqueue platform _ _ _).bind fun _ => trivial
  | cancel id data key => exact (sends_cancel platform _ _ _).bind fun _ => trivial
  | createCheckpoint data key => exact (sends_createCheckpoint platform _ _).bind fun _ => trivial
  | restoreCheckpoint data key => exact (sends_restore platform _ _).bind fun _ => trivial
  | plan data key => exact (sends_plan platform _ _).bind fun _ => trivial
  | transition id data key => exact (sends_transition platform _ _ _).bind fun _ => trivial
  | putEmbedding data key => exact (sends_put platform _ _).bind fun _ => trivial
  | forget data key => exact (sends_forget platform _ _).bind fun _ => trivial
  | «recall» data => exact hread (readOnly_recall platform data)
  | explain data => exact hread (readOnly_explain data)
  | entity id => exact hread (readOnly_entity id)
  | expand data => exact hread (readOnly_expand data)
  | checkpoint id => exact hread (readOnly_envelope platform id)
  | checkpointHead data => exact hread (readOnly_head platform data)
  | job id => exact hread (readOnly_jobGet id)
  | effect id => exact hread (readOnly_effectGet id)
  | query query => exact hread (readOnly_query platform query)
  | claim leaseSeconds => exact (sends_claim _).bind fun _ => trivial
  | heartbeat id token => exact (sends_heartbeat _ _).bind fun _ => trivial
  | publish id token prepared => exact (sends_publish platform _ _ _).bind fun _ => trivial
  | fail id token code retry => exact (sends_fail _ _ _ _).bind fun _ => trivial

end PgAgmemory

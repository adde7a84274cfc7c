import PgAgmemory.Operations.Saves
import PgAgmemory.System.Outcomes

/-! # The parts of operations

What a property of sessions needs to survive every request but `forget`: the minor statements keep it,
which write no episode, assertion, entity or job, and so do the parts that do (`Parts`). The other
operations are made of these parts (`Parts.request`). -/

namespace PgAgmemory

open Interactive (Program)
open Interactive.Program (ReadOnly Sends)
open MemoryService

/-! ## Minor statements -/

/-- **A minor statement** writes no row of an episode, an assertion, an entity or their evidence, and no
new job. -/
def Minor : Statement → Prop
  | .insertObject _ _ _ => True
  | .content (.insertEpisodeEmbedding _) => True
  | .content (.insertAssertionEmbedding _) => True
  | .checkpoint _ => True
  | .ledger _ => True
  | .queue (.insertIdentity _) => True
  | .queue (.updateJob _ _) => True
  | .operation _ => True
  | _ => False

/-- What a fence sends is minor. -/
theorem Fences.minor {st : Statement} (h : Fences st) : Minor st := by
  cases st with
  | ledger st => trivial
  | operation st => trivial
  | _ => exact h.elim

/-- What a fork sends is minor. -/
theorem Forks.minor {branch : UUID × UUID × UUID} {st : Statement} (h : Forks branch st) :
    Minor st := by
  cases st with
  | insertObject id scope kind => trivial
  | checkpoint st => trivial
  | operation st => trivial
  | _ => exact h.elim

section Minor

variable (platform : Platform)

/-- A revision of an effect is minor. -/
theorem minor_append (new : NewEffectRevision) : Sends Minor (ToolEffects.append new) :=
  (sends_send trivial).bind fun _ => (sends_send trivial).bind fun _ => trivial

/-- `plan` is minor. -/
theorem minor_plan (data : PlanToolEffect) (key : String) :
    Sends Minor (ToolEffects.plan platform data key) := by
  refine (readOnly_scope _ _).sends.bind fun _ =>
    sends_once (fun r => (readOnly_effectReplayed _ r).sends) fun kd rd => ?_
  have honce : Sends Minor (ToolEffects.planOnce platform data rd) := by
    refine (readOnly_read _).sends.bind fun row => ?_
    split
    · exact (readOnly_demand _ _).sends.bind fun _ =>
        (readOnly_effectLoad _ _).sends.bind fun _ => trivial
    · refine (readOnly_read _).sends.bind fun _ => (readOnly_found _ _).sends.bind fun _ => ?_
      refine (readOnly_demand _ _).sends.bind fun _ => (readOnly_listRun _ _).sends.bind fun _ => ?_
      refine (readOnly_demand _ _).sends.bind fun _ =>
        (readOnly_validateRefs _ _ _).sends.bind fun _ => ?_
      refine (readOnly_digest platform _).sends.bind fun _ =>
        (readOnly_digest platform _).sends.bind fun _ => ?_
      refine (sends_newObject fun _ => trivial).bind fun id => (sends_send trivial).bind fun _ => ?_
      refine (sends_forEach fun _ _ => sends_send trivial).bind fun _ =>
        (sends_send trivial).bind fun _ => ?_
      exact minor_append _
  exact honce.bind fun _ => (sends_send trivial).bind fun _ => trivial

/-- `transition` is minor. -/
theorem minor_transition (id : UUID) (data : TransitionToolEffect) (key : String) :
    Sends Minor (ToolEffects.transition platform id data key) := by
  refine (readOnly_effectLoad _ _).sends.bind fun _ => sends_once (fun _ => trivial) fun kd rd => ?_
  refine (readOnly_demand _ _).sends.bind fun _ => (readOnly_demand _ _).sends.bind fun _ => ?_
  exact (readOnly_demand _ _).sends.bind fun _ => (minor_append _).bind fun _ =>
    (sends_send trivial).bind fun _ => trivial

/-- `create` is minor. -/
theorem minor_createCheckpoint (data : CreateCheckpoint) (key : String) :
    Sends Minor (Checkpoints.create platform data key) := by
  refine (readOnly_scope _ _).sends.bind fun _ =>
    sends_once (fun r => (readOnly_checkpointReplayed platform r).sends) fun kd rd => ?_
  have hrun : Sends Minor (Checkpoints.ensureRun data) :=
    (sends_send trivial).bind fun _ => (readOnly_read _).sends.bind fun _ =>
      (readOnly_demand _ _).sends.bind fun _ => (readOnly_demand _ _).sends
  refine hrun.bind fun _ => (sends_send trivial).bind fun _ =>
    (readOnly_read _).sends.bind fun _ => ?_
  refine (readOnly_found _ _).sends.bind fun branch => (readOnly_demand _ _).sends.bind fun _ => ?_
  refine (readOnly_demand _ _).sends.bind fun _ => ?_
  have hinsert : Sends Minor (do
      let result ← Checkpoints.insert platform data (branch.sequence + 1) data.expectedHead
      saveResult .checkpoint kd rd result
      pure result) :=
    ((sends_insertCheckpoint platform data _ _).mono fun _ => Forks.minor).bind fun _ =>
      (sends_send trivial).bind fun _ => trivial
  split
  · exact hinsert
  · exact (readOnly_checkpointLoad platform _ _).sends.bind fun _ =>
      (readOnly_demand _ _).sends.bind fun _ => hinsert

/-- `restore` is minor. -/
theorem minor_restore (data : RestoreCheckpoint) (key : String) :
    Sends Minor (Checkpoints.restore platform data key) := by
  refine (readOnly_checkpointLoad platform _ _).sends.bind fun saved =>
    sends_once (fun r => (readOnly_receiptEnvelope platform r).sends) fun kd rd => ?_
  refine (readOnly_demand _ _).sends.bind fun _ => ?_
  refine Sends.bind (p := sendReturning _) ⟨trivial, fun _ => trivial⟩ fun inserted => ?_
  refine (readOnly_demand _ _).sends.bind fun _ => ?_
  refine ((sends_fenceRestore _ _).mono fun _ => Fences.minor).bind fun _ => ?_
  split
  · trivial
  · exact (sends_forkRest platform _ _ _ _).mono fun _ => Forks.minor

/-- `put` is minor. -/
theorem minor_put (data : PutEmbedding) (key : String) :
    Sends Minor (Embeddings.put platform data key) := by
  refine (readOnly_source _ _).sends.bind fun found => (readOnly_demand _ _).sends.bind fun _ => ?_
  refine sends_once (fun _ => (readOnly_embeddingReplayed platform _ data).sends) fun kd rd => ?_
  refine (readOnly_read _).sends.bind fun existing => ?_
  split
  · exact (readOnly_demand _ _).sends.bind fun _ => (sends_send trivial).bind fun _ => trivial
  · refine (readOnly_read _).sends.bind fun _ => (readOnly_demand _ _).sends.bind fun _ => ?_
    refine (sends_send ?_).bind fun _ => (sends_send trivial).bind fun _ =>
      (sends_send trivial).bind fun _ => trivial
    unfold Embeddings.insertEmbedding
    split <;> trivial

/-- `cancel` is minor. -/
theorem minor_cancel (id : UUID) (data : CancelJob) (key : String) :
    Sends Minor (Jobs.cancel platform id data key) := by
  refine (readOnly_read _).sends.bind fun _ => (readOnly_jobLoad _ _ _).sends.bind fun _ => ?_
  refine (readOnly_demand _ _).sends.bind fun _ => sends_once (fun _ => trivial) fun kd rd => ?_
  exact (sends_update trivial).bind fun _ => (readOnly_demand _ _).sends.bind fun _ =>
    (sends_send trivial).bind fun _ => (sends_send trivial).bind fun _ => trivial

/-- `claim` is minor. -/
theorem minor_claim (leaseSeconds : Nat) : Sends Minor (Jobs.claim leaseSeconds) := by
  unfold Jobs.claim
  split
  · refine (readOnly_readAt _).sends.bind fun row => ?_
    split
    · trivial
    · refine (readOnly_jobLoad _ _ _).sends.bind fun job => ?_
      split
      · exact (sends_update trivial).bind fun _ => (sends_send trivial).bind fun _ => trivial
      · exact (sends_update trivial).bind fun _ => (readOnly_found _ _).sends.bind fun _ =>
          (sends_send trivial).bind fun _ => trivial
  · trivial

/-- `heartbeat` is minor. -/
theorem minor_heartbeat (id token : UUID) : Sends Minor (Jobs.heartbeat id token) :=
  (readOnly_lease _ _ _).sends.bind fun _ => (sends_update trivial).bind fun _ => trivial

/-- `fail` is minor. -/
theorem minor_fail (id token : UUID) (code : JobError) (retry : Bool) :
    Sends Minor (Jobs.fail id token code retry) :=
  (readOnly_lease _ _ _).sends.bind fun _ => (sends_update trivial).bind fun _ =>
    (sends_send trivial).bind fun _ => trivial

end Minor

/-! ## Parts -/

/-- **Maintaining** a property: a run that ends leaves a session with it. -/
abbrev Maintains (platform : Platform) (timeline : Timeline) (I : Session → Prop) {α : Type} (p : Tx α)
    (n : Nat) (σ : Session) : Prop :=
  Outcome platform timeline p (fun _ _ σ' => I σ') (fun _ => True) n σ

/-- **What a property of sessions needs**: the minor statements and the parts that write content keep
it. -/
structure Parts (platform : Platform) (timeline : Timeline) (I : Session → Prop) : Prop where
  minor : ∀ {st m σ r σ'}, Minor st → I σ → step platform st m σ = .ok (r, σ') → I σ'
  episode : ∀ {σ} data requestDigest n, I σ →
    Maintains platform timeline I (recordEvent platform data requestDigest) n σ
  assertion : ∀ {σ} data n, I σ → Maintains platform timeline I (publishAssertion platform data) n σ
  correction : ∀ {σ} objectId data key n, I σ →
    Maintains platform timeline I (reviseAssertion platform objectId data key) n σ
  entity : ∀ {σ} data key n, I σ →
    Maintains platform timeline I (SqlGraph.createEntity platform data key) n σ
  relation : ∀ {σ} data key n, I σ →
    Maintains platform timeline I (SqlGraph.createRelation platform data key) n σ
  relationCorrection : ∀ {σ} assertionId data key n, I σ →
    Maintains platform timeline I (SqlGraph.reviseRelation platform assertionId data key) n σ
  job : ∀ {σ} data retryOf intent identity n, I σ →
    Maintains platform timeline I (Jobs.insertJob data retryOf intent identity) n σ

section Rules

variable {platform : Platform} {timeline : Timeline} {I : Session → Prop} {α β : Type} {n : Nat}
  {σ : Session}

/-- One part after the other. -/
theorem maintains_bind {p : Tx α} {k : α → Tx β} (hp : Maintains platform timeline I p n σ)
    (hk : ∀ a m σ', I σ' → Maintains platform timeline I (k a) m σ') :
    Maintains platform timeline I (p >>= k) n σ :=
  outcome_bind hp fun a m σ' _ h => hk a m σ' h

/-- A part that only reads. -/
theorem maintains_reading {p : Tx α} {k : α → Tx β} (hI : I σ) (hp : ReadOnly p)
    (hk : ∀ a m, I σ → Maintains platform timeline I (k a) m σ) :
    Maintains platform timeline I (p >>= k) n σ := by
  refine outcome_bind (outcome_readOnly hp fun _ => trivial) ?_
  rintro a m σ' - rfl
  exact hk a m hI

/-- A loop of maintaining passes. -/
theorem maintains_forCollect {xs : List α} {f : α → Tx β} (hI : I σ)
    (hf : ∀ x m σ', I σ' → Maintains platform timeline I (f x) m σ') :
    Maintains platform timeline I (forCollect f xs) n σ := by
  induction xs generalizing n σ with
  | nil => exact hI
  | cons x xs ih =>
    exact maintains_bind (hf x n σ hI) fun _ m σ' h' => maintains_bind (ih h') fun _ _ _ h'' => h''

/-- Once a key: the stored receipt is only read. -/
theorem maintains_once (hI : I σ) {operation : Operation} {key payload : String}
    {replayed : Receipt → Tx α} {fresh : Digest → Digest → Tx α}
    (hreplayed : ∀ receipt, ReadOnly (replayed receipt))
    (hfresh : ∀ kd rd m, Maintains platform timeline I (fresh kd rd) m σ) :
    Maintains platform timeline I (once platform operation key payload replayed fresh) n σ := by
  refine maintains_reading hI (readOnly_replay platform operation key payload) fun found m hI => ?_
  obtain ⟨kd, rd, previous⟩ := found
  cases previous with
  | none => exact hfresh kd rd m
  | some result =>
    exact (outcome_readOnly (hreplayed result) fun _ => trivial).mono (fun _ _ _ _ h => h ▸ hI)
      fun _ h => h

namespace Parts

variable (h : Parts platform timeline I)

include h

/-- A program that only sends minor statements. -/
theorem minors {p : Tx α} (hI : I σ) (hp : Sends Minor p) : Maintains platform timeline I p n σ :=
  hp.yields hI fun _ _ _ _ _ hst hI hstep => h.minor hst hI hstep

/-- `observe` maintains what its parts do. -/
theorem observe (hI : I σ) (data : Observe) (key : String) :
    Maintains platform timeline I (MemoryService.observe platform data key) n σ :=
  maintains_reading hI (readOnly_scope _ _) fun _ _ hI => maintains_once hI
    (fun _ => readOnly_pure _) fun _ rd m => maintains_bind (h.episode data rd m hI) fun _ _ _ hI =>
      h.minors hI ((sends_send trivial).bind fun _ => trivial)

/-- `remember` maintains what its parts do. -/
theorem remember (hI : I σ) (data : Remember) (key : String) :
    Maintains platform timeline I (MemoryService.remember platform data key) n σ :=
  maintains_reading hI (readOnly_scope _ _) fun _ _ hI => maintains_once hI
    (fun _ => readOnly_pure _) fun _ _ m => maintains_bind (h.assertion data m hI) fun _ _ _ hI =>
      h.minors hI ((sends_send trivial).bind fun _ => trivial)

/-- `publish` maintains what its parts do. -/
theorem publish (hI : I σ) (jobId token : UUID) (prepared : Remember) :
    Maintains platform timeline I (Jobs.publish platform jobId token prepared) n σ := by
  refine maintains_reading hI (readOnly_lease _ _ _) fun row _ hI => maintains_reading hI
    (readOnly_demand _ _) fun _ m hI => maintains_bind (h.assertion prepared m hI) fun _ _ _ hI =>
      h.minors hI ?_
  exact (readOnly_found _ _).sends.bind fun _ => (sends_update trivial).bind fun _ =>
    (readOnly_demand _ _).sends.bind fun _ => (sends_send trivial).bind fun _ => trivial

/-- The admission of a job maintains what its parts do. -/
theorem admitJob (hI : I σ) (data : EnqueueJob) (retryOf : Option UUID) :
    Maintains platform timeline I (Jobs.admitJob platform data retryOf) n σ := by
  refine outcome_digest (maintains_reading hI (readOnly_checkRetry _ _) fun _ _ hI =>
    outcome_digest (outcome_read ?_))
  split
  · exact h.minors hI ((readOnly_jobLoad _ _ _).sends.bind fun _ => trivial)
  · exact h.job data retryOf _ _ _ hI

/-- `enqueue` maintains what its parts do. -/
theorem enqueue (hI : I σ) (data : EnqueueJob) (key : String) (retryOf : Option UUID) :
    Maintains platform timeline I (Jobs.enqueue platform data key retryOf) n σ :=
  maintains_reading hI (readOnly_scope _ _) fun _ _ hI => maintains_once hI
    (fun _ => readOnly_pure _) fun _ _ _ => maintains_bind (h.admitJob hI data retryOf)
      fun _ _ _ hI => h.minors hI ((sends_send trivial).bind fun _ => trivial)

/-- The episode of a capture maintains what its parts do. -/
theorem observeEpisode (hI : I σ) (data : Observe) (key : String) :
    Maintains platform timeline I (Captures.observeEpisode platform data key) n σ := by
  refine maintains_bind (h.observe hI data key) fun receipt m σ' hI => ?_
  split
  · exact hI
  · exact outcome_raise trivial

/-- The queueing of a captured memory maintains what its parts do. -/
theorem enqueueMemory (hI : I σ) (scopeId episode : UUID) (memory : CapturedMemory) (key : String) :
    Maintains platform timeline I (Captures.enqueueMemory platform scopeId episode memory key) n σ := by
  refine maintains_bind (h.enqueue hI _ key none) fun receipt m σ' hI => ?_
  split
  · exact hI
  · exact outcome_raise trivial

/-- A capture maintains what its parts do. -/
theorem capture (hI : I σ) (data : Capture) (key : String) :
    Maintains platform timeline I (Captures.create platform data key) n σ := by
  refine maintains_reading hI (readOnly_scope _ _) fun _ _ hI => maintains_once hI
    (fun _ => readOnly_pure _) fun kd rd m => ?_
  refine maintains_bind (h.observeEpisode hI data.episode _) fun episode _ _ hI =>
    maintains_bind (h.enqueueMemory hI _ episode data.memory _) fun job _ _ hI => h.minors hI ?_
  exact (sends_send trivial).bind fun _ => (sends_send trivial).bind fun _ => trivial

/-- A batch maintains what its parts do. -/
theorem captureBatch (hI : I σ) (data : CaptureBatch) (key : String) :
    Maintains platform timeline I (Captures.createBatch platform data key) n σ := by
  refine maintains_reading hI (readOnly_scope _ _) fun _ _ hI => maintains_once hI
    (fun _ => readOnly_pure _) fun kd rd m => ?_
  refine maintains_bind (h.observeEpisode hI data.episode _) fun episode _ _ hI => ?_
  refine maintains_bind (maintains_forCollect hI fun memory _ _ hI =>
    h.enqueueMemory hI _ episode memory.1 _) fun jobs _ _ hI => h.minors hI ?_
  exact (sends_send trivial).bind fun _ => (sends_send trivial).bind fun _ => trivial

/-- **Every request but `forget` is made of the parts.** -/
theorem request {request : Request} (hdeletes : request.deletes = false) (hI : I σ) :
    Maintains platform timeline I (request.program platform) n σ := by
  refine maintains_reading hI readOnly_bindIdentity fun _ m hI => ?_
  have hwrap : ∀ {α : Type} {wrap : α → Response} {p : Tx α}, Maintains platform timeline I p m σ →
      Maintains platform timeline I (respond wrap p) m σ := fun hp => maintains_bind hp
        fun _ _ _ hI => hI
  have hminor : ∀ {α : Type} {wrap : α → Response} {p : Tx α}, Sends Minor p →
      Maintains platform timeline I (respond wrap p) m σ := fun hp => hwrap (h.minors hI hp)
  cases request with
  | observe data key => exact hwrap (h.observe hI data key)
  | remember data key => exact hwrap (h.remember hI data key)
  | reviseAssertion objectId data key => exact hwrap (h.correction objectId data key m hI)
  | capture data key => exact hwrap (h.capture hI data key)
  | captureBatch data key => exact hwrap (h.captureBatch hI data key)
  | createEntity data key => exact hwrap (h.entity data key m hI)
  | createRelation data key => exact hwrap (h.relation data key m hI)
  | reviseRelation assertionId data key =>
    exact hwrap (h.relationCorrection assertionId data key m hI)
  | enqueue data key retryOf => exact hwrap (h.enqueue hI data key retryOf)
  | cancel jobId data key => exact hminor (minor_cancel platform jobId data key)
  | createCheckpoint data key => exact hminor (minor_createCheckpoint platform data key)
  | restoreCheckpoint data key => exact hminor (minor_restore platform data key)
  | plan data key => exact hminor (minor_plan platform data key)
  | transition effectId data key => exact hminor (minor_transition platform effectId data key)
  | putEmbedding data key => exact hminor (minor_put platform data key)
  | forget data key => cases hdeletes
  | «recall» data => exact hminor (readOnly_recall platform data).sends
  | explain data => exact hminor (readOnly_explain data).sends
  | entity entityId => exact hminor (readOnly_entity entityId).sends
  | expand data => exact hminor (readOnly_expand data).sends
  | checkpoint checkpointId => exact hminor (readOnly_envelope platform checkpointId).sends
  | checkpointHead data => exact hminor (readOnly_head platform data).sends
  | job jobId => exact hminor (readOnly_jobGet jobId).sends
  | effect effectId => exact hminor (readOnly_effectGet effectId).sends
  | query query => exact hminor (readOnly_query platform query).sends
  | claim leaseSeconds => exact hminor (minor_claim leaseSeconds)
  | heartbeat jobId token => exact hminor (minor_heartbeat jobId token)
  | publish jobId token prepared => exact hwrap (h.publish hI jobId token prepared)
  | fail jobId token code retry => exact hminor (minor_fail jobId token code retry)

end Parts

end Rules

end PgAgmemory

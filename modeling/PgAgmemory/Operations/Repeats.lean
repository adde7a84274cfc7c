import PgAgmemory.Operations.Envelopes

/-! # Running once a key

Every mutating request of a client carries a key. Its program reads, and then runs `once` under that
key (`RunsOnce`): with a receipt under the key it changes nothing, and answers as that receipt says if
its payload has the receipt's digest; when it returns, a receipt with its answer is stored under the
key. `Request.runsOnce` says so of every request with a key. -/

namespace PgAgmemory

open Interactive (Program)
open Interactive.Program (ReadOnly)
open MemoryService

/-! ## Keys -/

/-- **What a request says under its key**: the operation, the key and the text of the payload. -/
structure KeyUse where
  operation : Operation
  key : String
  payload : String

/-- The use of the key of a request. A preview of a purge stores nothing. -/
def Request.keyUse : Request → Option KeyUse
  | .observe data key => some ⟨.observe, key, compactText data.dump⟩
  | .remember data key => some ⟨.remember, key, compactText data.dump⟩
  | .reviseAssertion id data key =>
    some ⟨.reviseAssertion, key, objectPayload "memory_id" id data.dump⟩
  | .capture data key => some ⟨.capture, key, compactText data.dump⟩
  | .captureBatch data key => some ⟨.captureBatch, key, compactText data.dump⟩
  | .createEntity data key => some ⟨.createEntity, key, compactText data.dump⟩
  | .createRelation data key => some ⟨.createRelation, key, compactText data.dump⟩
  | .reviseRelation id data key =>
    some ⟨.reviseRelation, key, objectPayload "memory_id" id data.dump⟩
  | .enqueue data key retryOf => some ⟨Jobs.enqueueOperation retryOf, key, data.payload retryOf⟩
  | .cancel id data key => some ⟨.cancelJob, key, objectPayload "job_id" id data.dump⟩
  | .createCheckpoint data key => some ⟨.checkpoint, key, compactText data.dump⟩
  | .restoreCheckpoint data key => some ⟨.restoreCheckpoint, key, compactText data.dump⟩
  | .plan data key => some ⟨.planToolEffect, key, compactText data.dump⟩
  | .transition id data key =>
    some ⟨.transitionToolEffect, key, objectPayload "memory_id" id data.dump⟩
  | .putEmbedding data key => some ⟨.embedding, key, compactText data.dump⟩
  | .forget data key =>
    if data.mode = .purge then some ⟨.forget, key, compactText data.dump⟩ else none
  | _ => none

/-- The row of a receipt. -/
def KeyUse.row (use : KeyUse) (platform : Platform) (s : Store) (principal : UUID)
    (result : Receipt) : IdempotencyRow :=
  ⟨principal, use.operation, s.digest platform use.key, s.digest platform use.payload, result⟩

/-- **Running once a key**, with answers that carry their receipts. -/
structure RunsOnce {α : Type} (platform : Platform) (use : KeyUse) (carries : Receipt → α → Prop)
    (p : Tx α) : Prop where
  /-- Under a receipt of the key nothing changes, and an answer carries that receipt. -/
  repeats : ∀ {timeline : Timeline} {n : Nat} {σ : Session} {row : IdempotencyRow},
    σ.Stored platform use.operation use.key row →
      Outcome platform timeline p (fun a _ σ' => σ' = σ
        ∧ row.requestDigest = σ.store.digest platform use.payload ∧ carries row.result a)
        (fun _ => True) n σ
  /-- When it returns, a receipt that its answer carries is stored under the key. -/
  settles : ∀ {timeline : Timeline} {n : Nat} {σ : Session},
    Outcome platform timeline p (fun a _ σ' => ∃ result, carries result a
      ∧ use.row platform σ.store σ.principal result ∈ σ'.store.operations.receipts)
      (fun _ => True) n σ

/-! ## Saving a receipt last -/

/-- **A program that ends with a saved receipt**, which its answer carries. -/
def EndsSaved {α : Type} (platform : Platform) (carries : Receipt → α → Prop)
    (operation : Operation) (keyDigest requestDigest : Digest) (p : Tx α) : Prop :=
  ∀ (timeline : Timeline) (σ : Session) (n : Nat), Outcome platform timeline p
    (fun a _ σ' => ∃ result, carries result a
      ∧ (⟨σ.principal, operation, keyDigest, requestDigest, result⟩ : IdempotencyRow)
        ∈ σ'.store.operations.receipts) (fun _ => True) n σ

section Saving

variable {platform : Platform} {timeline : Timeline} {α β : Type} {carries : Receipt → α → Prop}
  {operation : Operation} {kd rd : Digest} {n : Nat} {σ : Session}

/-- A session keeps its principal. -/
theorem outcome_principal (p : Tx α) :
    Outcome platform timeline p (fun _ _ σ' => σ'.principal = σ.principal) (fun _ => True) n σ := by
  have hany : p.Ensures (step platform) timeline.moment (fun _ _ => True) (fun _ _ _ => True) n σ :=
    Program.ensures_true p n σ
  have hkept := hany.invariant (I := fun _ (σ' : Session) => σ'.principal = σ.principal) (fun _ _ h => h)
    (fun statement m σ₁ r σ₂ h _ hstep => (step_eq_ok.mp hstep).2.2.2.1.trans h) rfl
  exact (hkept.mono fun _ _ _ _ h => h.2).yields

/-- Anything may happen before the receipt is saved. -/
theorem EndsSaved.after {p : Tx β} {k : β → Tx α}
    (h : ∀ b, EndsSaved platform carries operation kd rd (k b)) :
    EndsSaved platform carries operation kd rd (p >>= k) := by
  intro timeline σ n
  refine outcome_bind (outcome_principal p) fun b m σ' _ hprincipal => ?_
  rw [← hprincipal]
  exact h b timeline σ' m

/-- The answer may be wrapped. -/
theorem EndsSaved.map {f : α → β} {carried : Receipt → β → Prop} {p : Tx α}
    (h : EndsSaved platform carries operation kd rd p)
    (hwrap : ∀ result a, carries result a → carried result (f a)) :
    EndsSaved platform carried operation kd rd (p >>= fun a => pure (f a)) := by
  intro timeline σ n
  refine outcome_bind (h timeline σ n) ?_
  rintro a m σ' - ⟨result, hcarries, hrow⟩
  exact outcome_pure ⟨result, hwrap _ _ hcarries, hrow⟩

/-- A receipt is saved, and the rest keeps it. -/
theorem EndsSaved.save {result : Receipt} {k : Unit → Tx α}
    (h : ∀ (timeline : Timeline) (σ : Session) n, Outcome platform timeline (k ())
      (fun a _ σ' => carries result a ∧ ∀ row ∈ σ.store.operations.receipts,
        row ∈ σ'.store.operations.receipts) (fun _ => True) n σ) :
    EndsSaved platform carries operation kd rd (saveResult operation kd rd result >>= k) := by
  intro timeline σ n
  refine outcome_send (fun r σ₁ hstep => ?_) fun _ _ => trivial
  refine (h timeline σ₁ (n + 1)).mono ?_ fun _ h => h
  rintro a m σ₂ - ⟨hcarries, hkept⟩
  refine ⟨result, hcarries, hkept _ ?_⟩
  obtain ⟨o, ⟨-, t, hinsert, rfl⟩, hstore⟩ := Statement.accepted (step_eq_ok.mp hstep).2.1
  rw [hstore]
  exact Keyed.Table.mem_insert?_self hinsert

/-- A saved receipt that is the answer. -/
theorem EndsSaved.answer {result : Receipt} {a : α} (h : carries result a) :
    EndsSaved platform carries operation kd rd
      (saveResult operation kd rd result >>= fun _ => pure a) :=
  .save fun _ _ _ => outcome_pure ⟨h, fun _ hrow => hrow⟩

/-- An audit entry keeps the receipts. -/
theorem outcome_audit {action : String} {target : UUID} {k : Unit → Tx α}
    {Q : α → Nat → Session → Prop} {receipts : Keyed.Table IdempotencyRow}
    (hstart : σ.store.operations.receipts = receipts)
    (h : ∀ σ' m, σ'.store.operations.receipts = receipts →
      Outcome platform timeline (k ()) Q (fun _ => True) m σ') :
    Outcome platform timeline (audit action target >>= k) Q (fun _ => True) n σ := by
  refine outcome_send (fun r σ₁ hstep => h σ₁ _ ?_) fun _ _ => trivial
  obtain ⟨o, ⟨-, t, hinsert, rfl⟩, hstore⟩ := Statement.accepted (step_eq_ok.mp hstep).2.1
  rw [hstore]
  exact hstart

/-- A saved receipt that is the answer, after an audit entry. -/
theorem EndsSaved.audited {result : Receipt} {a : α} {action : String} {target : UUID}
    (h : carries result a) : EndsSaved platform carries operation kd rd
      (saveResult operation kd rd result >>= fun _ => audit action target >>= fun _ => pure a) :=
  .save fun _ _ _ => outcome_audit rfl fun _ _ hsame =>
    outcome_pure ⟨h, fun _ hrow => hsame ▸ hrow⟩

end Saving

/-! ## Rules -/

section Rules

variable {platform : Platform} {timeline : Timeline} {use : KeyUse} {α β : Type}
  {carries : Receipt → α → Prop} {n : Nat} {σ : Session}

/-- Reading before the part under the key. -/
theorem RunsOnce.reading {p : Tx β} {k : β → Tx α} (hp : ReadOnly p)
    (h : ∀ b, RunsOnce platform use carries (k b)) : RunsOnce platform use carries (p >>= k) where
  repeats hstored := by
    refine outcome_bind (outcome_readOnly hp fun _ => trivial) ?_
    rintro b m σ' - rfl
    exact (h b).repeats hstored
  settles := by
    refine outcome_bind (outcome_readOnly hp fun _ => trivial) ?_
    rintro b m σ' - rfl
    exact (h b).settles

/-- Wrapping an answer. -/
theorem RunsOnce.respond {wrap : α → Response} {carried : Receipt → Response → Prop} {p : Tx α}
    (h : RunsOnce platform use carries p)
    (hwrap : ∀ result a, carries result a → carried result (wrap a)) :
    RunsOnce platform use carried (PgAgmemory.respond wrap p) where
  repeats hstored := by
    refine outcome_bind (h.repeats hstored) ?_
    rintro a m σ' - ⟨rfl, hdigest, hcarries⟩
    exact outcome_pure ⟨rfl, hdigest, hwrap _ _ hcarries⟩
  settles := by
    refine outcome_bind h.settles ?_
    rintro a m σ' - ⟨result, hcarries, hrow⟩
    exact outcome_pure ⟨result, hwrap _ _ hcarries, hrow⟩

/-- The stored row of a key is the row of its result. -/
theorem KeyUse.row_eq {row : IdempotencyRow}
    (hstored : σ.Stored platform use.operation use.key row)
    (hdigest : row.requestDigest = σ.store.digest platform use.payload) :
    use.row platform σ.store σ.principal row.result = row := by
  obtain ⟨-, hkey⟩ := hstored
  obtain ⟨hprincipal, hkey⟩ := Prod.mk.inj hkey
  obtain ⟨hoperation, hkey⟩ := Prod.mk.inj hkey
  unfold KeyUse.row
  rw [← hprincipal, ← hoperation, ← hkey, ← hdigest]

/-- **The part under the key.** -/
theorem runsOnce_once {operation : Operation} {key payload : String} {replayed : Receipt → Tx α}
    {fresh : Digest → Digest → Tx α}
    (hreplayed : ∀ (timeline : Timeline) (σ : Session) result m, Outcome platform timeline
      (replayed result) (fun a _ σ' => σ' = σ ∧ carries result a) (fun _ => True) m σ)
    (hfresh : ∀ kd rd, EndsSaved platform carries operation kd rd (fresh kd rd)) :
    RunsOnce platform ⟨operation, key, payload⟩ carries
      (once platform operation key payload replayed fresh) where
  -- The key is settled: the stored receipt is the one that the digest is compared with.
  repeats := by
    intro timeline n σ row hstored
    refine outcome_once (fun row' m _ hstored' hdigest => ?_) fun m _ hnone => ?_
    · obtain rfl : row = row' := Keyed.Table.eq_of_key_eq hstored.1 hstored'.1
        (hstored.2.trans hstored'.2.symm)
      refine (hreplayed timeline σ row.result m).mono ?_ fun _ h => h
      rintro a m' σ' - ⟨rfl, hcarries⟩
      exact ⟨rfl, hdigest, hcarries⟩
    · exact absurd hstored (hnone row)
  -- The key is free or settled; either way the answer is one that a stored receipt carries.
  settles := by
    intro timeline n σ
    refine outcome_once (fun row m _ hstored hdigest => ?_) fun m _ _ => ?_
    · refine (hreplayed timeline σ row.result m).mono ?_ fun _ h => h
      rintro a m' σ' - ⟨rfl, hcarries⟩
      refine ⟨row.result, hcarries, ?_⟩
      rw [KeyUse.row_eq hstored hdigest]
      exact hstored.1
    · exact hfresh _ _ timeline σ m

/-- A receipt that is returned as it is. -/
theorem outcome_replayed_pure (result : Receipt) :
    Outcome platform timeline (pure result : Tx Receipt) (fun a _ σ' => σ' = σ ∧ result = a)
      (fun _ => True) n σ := outcome_pure ⟨rfl, rfl⟩

/-- A receipt that is returned after some reading. -/
theorem outcome_replayed_checked {p : Tx Unit} (hp : ReadOnly p) (result : Receipt) :
    Outcome platform timeline (p >>= fun _ => pure result) (fun a _ σ' => σ' = σ ∧ result = a)
      (fun _ => True) n σ := by
  refine outcome_bind (outcome_readOnly hp fun _ => trivial) ?_
  rintro - m σ' - rfl
  exact outcome_pure ⟨rfl, rfl⟩

end Rules

/-! ## Operations -/

section Operations

variable (platform : Platform)

/-- `observe` runs once under its key. -/
theorem runsOnce_observe (data : Observe) (key : String) :
    RunsOnce platform ⟨.observe, key, compactText data.dump⟩ Eq (observe platform data key) :=
  .reading (readOnly_scope _ _) fun _ => runsOnce_once (fun _ _ r _ => outcome_replayed_pure r)
    fun _ _ => .after fun _ => .answer rfl

/-- `remember` runs once under its key. -/
theorem runsOnce_remember (data : Remember) (key : String) :
    RunsOnce platform ⟨.remember, key, compactText data.dump⟩ Eq (remember platform data key) :=
  .reading (readOnly_scope _ _) fun _ => runsOnce_once (fun _ _ r _ => outcome_replayed_pure r)
    fun _ _ => .after fun _ => .answer rfl

/-- A correction runs once under its key, for its assertion. -/
theorem runsOnce_reviseAssertion (id : UUID) (data : ReviseAssertion) (key : String) :
    RunsOnce platform ⟨.reviseAssertion, key, objectPayload "memory_id" id data.dump⟩ Eq
      (reviseAssertion platform id data key) := by
  refine .reading (readOnly_object _ _) fun _ => .reading (readOnly_demand _ _) fun _ => ?_
  refine runsOnce_once (fun _ _ r _ => outcome_replayed_pure r) fun _ _ => ?_
  refine .after fun _ => .after fun _ => .after fun _ => .after fun _ => .after fun _ => ?_
  exact .after fun _ => .after fun _ => .audited rfl

/-- A capture runs once under its key, whatever its parts have stored. -/
theorem runsOnce_capture (data : Capture) (key : String) :
    RunsOnce platform ⟨.capture, key, compactText data.dump⟩ Eq (Captures.create platform data key) :=
  .reading (readOnly_scope _ _) fun _ => runsOnce_once (fun _ _ r _ => outcome_replayed_pure r)
    fun _ _ => .after fun _ => .after fun _ => .audited rfl

/-- A batch runs once under its key, whatever its parts have stored. -/
theorem runsOnce_captureBatch (data : CaptureBatch) (key : String) :
    RunsOnce platform ⟨.captureBatch, key, compactText data.dump⟩ Eq
      (Captures.createBatch platform data key) :=
  .reading (readOnly_scope _ _) fun _ => runsOnce_once (fun _ _ r _ => outcome_replayed_pure r)
    fun _ _ => .after fun _ => .after fun _ => .audited rfl

/-- An entity is created once under its key. -/
theorem runsOnce_createEntity (data : CreateEntity) (key : String) :
    RunsOnce platform ⟨.createEntity, key, compactText data.dump⟩ Eq
      (SqlGraph.createEntity platform data key) := by
  refine .reading (readOnly_scope _ _) fun _ => runsOnce_once (fun _ _ r _ => ?_) fun _ _ => ?_
  · exact outcome_replayed_checked (readOnly_forEach fun _ =>
      (readOnly_entity _).bind fun _ => readOnly_pure _) r
  · exact .after fun _ => .after fun _ => .after fun _ => .after fun _ => .after fun _ => .answer rfl

/-- A relation is created once under its key. -/
theorem runsOnce_createRelation (data : CreateRelation) (key : String) :
    RunsOnce platform ⟨.createRelation, key, compactText data.dump⟩ Eq
      (SqlGraph.createRelation platform data key) := by
  refine .reading (readOnly_scope _ _) fun _ =>
    runsOnce_once (fun _ _ r _ => outcome_replayed_pure r) fun _ _ => ?_
  refine .after fun _ => .after fun _ => .after fun _ => .after fun _ => .after fun _ => ?_
  exact .after fun _ => .after fun _ => .after fun _ => .after fun _ => .answer rfl

/-- A relation is corrected once under its key. -/
theorem runsOnce_reviseRelation (id : UUID) (data : ReviseRelation) (key : String) :
    RunsOnce platform ⟨.reviseRelation, key, objectPayload "memory_id" id data.dump⟩ Eq
      (SqlGraph.reviseRelation platform id data key) := by
  refine .reading (readOnly_object _ _) fun _ => .reading (readOnly_read _) fun _ =>
    .reading (readOnly_found _ _) fun _ => ?_
  refine runsOnce_once (fun _ _ r _ => outcome_replayed_pure r) fun _ _ => ?_
  refine .after fun _ => .after fun _ => .after fun _ => .after fun _ => ?_
  exact .after fun _ => .after fun _ => .after fun _ => .answer rfl

/-- A job is queued, or retried, once under its key. -/
theorem runsOnce_enqueue (data : EnqueueJob) (key : String) (retryOf : Option UUID) :
    RunsOnce platform ⟨Jobs.enqueueOperation retryOf, key, data.payload retryOf⟩ Eq
      (Jobs.enqueue platform data key retryOf) :=
  .reading (readOnly_scope _ _) fun _ => runsOnce_once (fun _ _ r _ => outcome_replayed_pure r)
    fun _ _ => .after fun _ => .answer rfl

/-- A job is cancelled once under its key. -/
theorem runsOnce_cancel (id : UUID) (data : CancelJob) (key : String) :
    RunsOnce platform ⟨.cancelJob, key, objectPayload "job_id" id data.dump⟩ Eq
      (Jobs.cancel platform id data key) := by
  refine .reading (readOnly_read _) fun _ => .reading (readOnly_jobLoad _ _ _) fun _ =>
    .reading (readOnly_demand _ _) fun _ => ?_
  refine runsOnce_once (fun _ _ r _ => outcome_replayed_pure r) fun _ _ => ?_
  exact .after fun _ => .after fun _ => .after fun _ => .answer rfl

/-- An effect is planned once under its key. -/
theorem runsOnce_plan (data : PlanToolEffect) (key : String) :
    RunsOnce platform ⟨.planToolEffect, key, compactText data.dump⟩ Eq
      (ToolEffects.plan platform data key) := by
  refine .reading (readOnly_scope _ _) fun _ => runsOnce_once (fun _ _ r _ => ?_) fun _ _ => ?_
  · exact outcome_replayed_checked (readOnly_forEach fun _ =>
      (readOnly_effectLoad _ _).bind fun _ => readOnly_pure _) r
  · exact .after fun _ => .answer rfl

/-- An effect moves once under its key. -/
theorem runsOnce_transition (id : UUID) (data : TransitionToolEffect) (key : String) :
    RunsOnce platform ⟨.transitionToolEffect, key, objectPayload "memory_id" id data.dump⟩ Eq
      (ToolEffects.transition platform id data key) := by
  refine .reading (readOnly_effectLoad _ _) fun _ => ?_
  refine runsOnce_once (fun _ _ r _ => outcome_replayed_pure r) fun _ _ => ?_
  exact .after fun _ => .after fun _ => .after fun _ => .after fun _ => .answer rfl

/-- A checkpoint is created once under its key. -/
theorem runsOnce_createCheckpoint (data : CreateCheckpoint) (key : String) :
    RunsOnce platform ⟨.checkpoint, key, compactText data.dump⟩ Eq
      (Checkpoints.create platform data key) := by
  refine .reading (readOnly_scope _ _) fun _ => runsOnce_once (fun _ _ r _ => ?_) fun kd rd => ?_
  · exact outcome_replayed_checked (readOnly_forEach fun _ =>
      (readOnly_checkpointLoad platform _ _).bind fun _ => readOnly_pure _) r
  · refine .after fun _ => .after fun _ => .after fun _ => .after fun branch => .after fun _ =>
      .after fun _ => ?_
    split
    · exact .after fun _ => .answer rfl
    · exact .after fun _ => .after fun _ => .after fun _ => .answer rfl

/-- The checkpoint that an envelope answers with. -/
def Envelope.AnswersFor (result : Receipt) (e : Envelope) : Prop :=
  Checkpoints.checkpointId result = some e.saved.payload.checkpointId

/-- An envelope is the envelope of its id. -/
theorem outcome_envelope_id {timeline : Timeline} {n : Nat} {σ : Session} (id : UUID) :
    Outcome platform timeline (Checkpoints.envelope platform id)
      (fun e _ σ' => σ' = σ ∧ e.saved.payload.checkpointId = id) (fun _ => True) n σ := by
  refine outcome_bind (outcome_checkpointLoad id .read) ?_
  rintro saved m σ' - ⟨rfl, ⟨c, -, run, -, refs, hid, -, -, hpayload, -⟩, -⟩
  refine outcome_read (outcome_read (outcome_pure ⟨rfl, ?_⟩))
  exact (congrArg CheckpointPayload.checkpointId hpayload).trans hid

/-- A restore runs once under its key, and is answered with an envelope of the same checkpoint later. -/
theorem runsOnce_restore (data : RestoreCheckpoint) (key : String) :
    RunsOnce platform ⟨.restoreCheckpoint, key, compactText data.dump⟩ Envelope.AnswersFor
      (Checkpoints.restore platform data key) := by
  refine .reading (readOnly_checkpointLoad platform _ _) fun saved => ?_
  refine runsOnce_once (fun _ _ result _ => ?_) fun kd rd => ?_
  · unfold Checkpoints.receiptEnvelope
    split
    next id hid =>
      refine (outcome_envelope_id platform id).mono ?_ fun _ h => h
      rintro e m σ' - ⟨rfl, rfl⟩
      exact ⟨rfl, hid⟩
    next => trivial
  · refine .after fun _ => .after fun _ => .after fun _ => .after fun _ => ?_
    split
    · exact fun _ _ _ => trivial
    · refine .after fun result => .save fun timeline σ n => outcome_found (fun id hid => ?_)
        fun _ => trivial
      refine outcome_audit rfl fun σ' m hsame => (outcome_envelope_id platform id).mono ?_ fun _ h => h
      rintro e m' σ'' - ⟨rfl, rfl⟩
      exact ⟨hid, fun _ hrow => hsame ▸ hrow⟩

/-- An embedding is put once under its key, and the answer is read off the request. -/
theorem runsOnce_put (data : PutEmbedding) (key : String) :
    RunsOnce platform ⟨.embedding, key, compactText data.dump⟩
      (fun _ a => a = .embedding data.memoryId data.revision.val)
      (Embeddings.put platform data key) := by
  refine .reading (readOnly_source _ _) fun found => .reading (readOnly_demand _ _) fun _ => ?_
  refine runsOnce_once (fun timeline σ result n => ?_) fun kd rd => ?_
  · refine outcome_read (outcome_found (fun stored _ => outcome_demand (fun _ => ?_)
      fun _ => trivial) fun _ => trivial)
    exact outcome_pure ⟨rfl, rfl⟩
  · refine .after fun existing => ?_
    split
    · exact .after fun _ => .answer rfl
    · exact .after fun _ => .after fun _ => .after fun _ => .after fun _ => .answer rfl

/-- The statements of a purge end with its receipt. -/
theorem endsSaved_purge (scopes targets : List UUID) (kd rd : Digest) :
    EndsSaved platform Eq .forget kd rd (purge scopes targets kd rd) :=
  .after fun _ => .after fun _ => .after fun _ => .after fun _ => .after fun _ => .audited rfl

/-- A request for a purge ends with its receipt; a preview does not. -/
theorem endsSaved_forgetOnce (data : Forget) (hmode : data.mode = .purge) (kd rd : Digest) :
    EndsSaved platform (fun result a => a = .purged result) .forget kd rd
      (forgetOnce data kd rd) := by
  unfold forgetOnce
  rw [hmode]
  -- how the targets are selected does not matter
  generalize selectClosure data = selection
  refine .after fun scopes => .after fun targets => ?_
  exact (endsSaved_purge platform scopes targets kd rd).map fun _ _ h =>
    congrArg ForgetResult.purged h.symm

/-- A purge runs once under its key. -/
theorem runsOnce_forget (data : Forget) (key : String) (hmode : data.mode = .purge) :
    RunsOnce platform ⟨.forget, key, compactText data.dump⟩ (fun result a => a = .purged result)
      (forget platform data key) :=
  runsOnce_once (fun _ _ _ _ => outcome_pure ⟨rfl, rfl⟩) fun kd rd =>
    endsSaved_forgetOnce platform data hmode kd rd

end Operations

/-! ## Requests -/

/-- **What the answer to a request says of its receipt**: it is the receipt, or its checkpoint. -/
def Request.Carries : Request → Receipt → Response → Prop
  | .restoreCheckpoint _ _, result, r => ∃ e, r = .envelope e ∧ e.AnswersFor result
  | .putEmbedding data _, _, r => r = .receipt (.embedding data.memoryId data.revision.val)
  | .forget _ _, result, r => r = .deletion (.purged result)
  | _, result, r => r = .receipt result

/-- **Every request with a key runs once under it.** -/
theorem Request.runsOnce (platform : Platform) {request : Request} {use : KeyUse}
    (huse : request.keyUse = some use) :
    RunsOnce platform use request.Carries (request.program platform) := by
  refine .reading readOnly_bindIdentity fun _ => ?_
  have hreceipt : ∀ (result a : Receipt), result = a → Response.receipt a = .receipt result :=
    fun _ _ h => congrArg Response.receipt h.symm
  cases request with
  | observe data key =>
    cases huse
    exact (runsOnce_observe platform data key).respond hreceipt
  | remember data key =>
    cases huse
    exact (runsOnce_remember platform data key).respond hreceipt
  | reviseAssertion id data key =>
    cases huse
    exact (runsOnce_reviseAssertion platform id data key).respond hreceipt
  | capture data key =>
    cases huse
    exact (runsOnce_capture platform data key).respond hreceipt
  | captureBatch data key =>
    cases huse
    exact (runsOnce_captureBatch platform data key).respond hreceipt
  | createEntity data key =>
    cases huse
    exact (runsOnce_createEntity platform data key).respond hreceipt
  | createRelation data key =>
    cases huse
    exact (runsOnce_createRelation platform data key).respond hreceipt
  | reviseRelation id data key =>
    cases huse
    exact (runsOnce_reviseRelation platform id data key).respond hreceipt
  | enqueue data key retryOf =>
    cases huse
    exact (runsOnce_enqueue platform data key retryOf).respond hreceipt
  | cancel id data key =>
    cases huse
    exact (runsOnce_cancel platform id data key).respond hreceipt
  | createCheckpoint data key =>
    cases huse
    exact (runsOnce_createCheckpoint platform data key).respond hreceipt
  | restoreCheckpoint data key =>
    cases huse
    exact (runsOnce_restore platform data key).respond fun _ e h => ⟨e, rfl, h⟩
  | plan data key =>
    cases huse
    exact (runsOnce_plan platform data key).respond hreceipt
  | transition id data key =>
    cases huse
    exact (runsOnce_transition platform id data key).respond hreceipt
  | putEmbedding data key =>
    cases huse
    exact (runsOnce_put platform data key).respond fun _ _ h => congrArg Response.receipt h
  | forget data key =>
    change (if data.mode = .purge then some _ else none) = some use at huse
    by_cases hmode : data.mode = .purge
    · rw [if_pos hmode] at huse
      cases huse
      exact (runsOnce_forget platform data key hmode).respond fun _ _ h =>
        congrArg Response.deletion h
    · rw [if_neg hmode] at huse
      cases huse
  | _ => cases huse

end PgAgmemory

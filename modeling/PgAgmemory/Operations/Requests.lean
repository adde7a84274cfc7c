import PgAgmemory.Operations.Jobs

/-! # Tool effects, checkpoints and requests by the discipline

With these, every request but `forget` runs by the discipline (`Request.does`), so whatever the
statements of the discipline preserve holds of every run of such a request. -/

namespace PgAgmemory

open Keyed (HasKey Table key)
open Interactive (Program)
open Interactive.Program (ReadOnly Ensures Sends)
open MemoryService

variable {c : Setting} {n : Nat} {σ : Session}

/-! ## Tool effects -/

/-- A loaded effect is not deleted. -/
theorem does_effectLoad (h : Underway c σ) (effectId : UUID) (permission : Permission) :
    Does c (ToolEffects.load effectId permission)
      (fun _ σ' => σ' = σ ∧ Untombstoned σ.store effectId) n σ := by
  refine does_object_bind h fun o n₀ _ _ hfree => does_demand fun _ => does_read ?_
  exact does_found fun effect _ => does_read (does_demand fun _ => does_pure ⟨rfl, hfree⟩)

/-- A revision of an effect is written as it may be, and answered as it is. -/
theorem does_append (new : NewEffectRevision) :
    Does c (ToolEffects.append new)
      (fun r _ => r = .effect new.effectId new.revision new.status) n σ :=
  does_send trivial fun _ _ _ _ => does_audit fun _ _ _ => does_pure rfl

/-- **The effect of an identity** is recorded and not deleted, whether it was found or inserted. -/
theorem does_planOnce (h : Underway c σ) (data : PlanToolEffect) (requestDigest : Digest) :
    Does c (ToolEffects.planOnce c.platform data requestDigest)
      (fun r σ' => ∃ id revision status, r = .effect id revision status
        ∧ Untombstoned σ'.store id ∧ RecordedEffect σ'.store data id) n σ := by
  refine does_read ?_
  split
  next row hrow =>
    obtain ⟨hfind, -⟩ := Option.filter_eq_some_iff.mp hrow
    obtain ⟨hmem, hkey⟩ := Table.find?_eq_some_iff.mp hfind
    obtain ⟨hscope, hkey⟩ := Prod.mk.inj hkey
    obtain ⟨hrun, hoperation⟩ := Prod.mk.inj hkey
    refine does_demand fun _ => does_bind (does_effectLoad h _ _) ?_
    rintro effect n₁ σ' - ⟨rfl, hfree⟩
    exact does_pure ⟨_, _, _, rfl, hfree, row, hmem, hscope, hrun, hoperation, rfl⟩
  next =>
    refine does_read (does_found fun run _ => does_demand fun _ => does_read (does_demand fun _ => ?_))
    refine does_readOnly_bind (readOnly_validateRefs _ _ _) fun refs n₁ => ?_
    refine does_read (does_read (does_newObject h fun id n₂ σ₁ hf₁ hid => ?_))
    refine does_send hid fun _ σ₂ _ hf₂ => ?_
    refine does_bind (does_forEach fun ref _ n' σ' _ =>
      does_send_last (R := fun _ _ => True) hid fun _ _ _ _ => trivial) fun _ n₃ σ₃ hf₃ _ => ?_
    refine does_send trivial fun _ σ₄ hstep hf₄ => ?_
    have hf := ((hf₁.trans hf₂).trans hf₃).trans hf₄
    refine (does_append _).mono fun r σ₅ hf₅ hr => ⟨_, _, _, hr,
      (h.follows (hf.trans hf₅)).untombstoned hid, ?_⟩
    obtain ⟨-, hexec, -⟩ := step_eq_ok.mp hstep
    simp only [Statement.exec, LedgerStatement.exec, bind_eq_ok, insertRow_eq_ok] at hexec
    obtain ⟨l, ⟨_, _, t, hinsert, hpure⟩, hpure'⟩ := hexec
    cases hpure
    have hidentities : σ₄.store.ledger.identities = t := by
      rw [← (Prod.mk.inj (Except.ok.inj hpure')).2]
    exact ⟨_, hf₅.grown.effectIdentities _ (hidentities ▸ Table.mem_insert?_self hinsert), rfl, rfl,
      rfl, rfl⟩

/-- `plan` writes what it may, and its receipt is backed by the effect. -/
theorem does_plan (h : Underway c σ) (data : PlanToolEffect) (key : String)
    (htext : c.Covers σ (compactText data.dump)) :
    Does c (ToolEffects.plan c.platform data key)
      (fun r σ' => Done c .planToolEffect key (compactText data.dump) r σ') n σ := by
  refine does_readOnly_bind (readOnly_scope _ _) fun _ n₀ => ?_
  refine does_once_receipt h (fun result n' => does_checked_receipt (readOnly_forEach fun _ =>
    (readOnly_effectLoad _ _).bind fun _ => readOnly_pure _) result n') fun n₁ => ?_
  refine does_bind (does_planOnce h data _) ?_
  rintro r n₂ σ₁ hf ⟨id, revision, status, rfl, hfree, hrecorded⟩
  refine does_saveResult (Store.digest_eq hf.grown _).symm (Store.digest_eq hf.grown _).symm ?_ ?_
    fun n₃ σ₂ hf₂ hdone => does_pure hdone
  · exact fun id' hid' => List.mem_singleton.mp hid' ▸ hfree
  · exact fun hdistinct => ⟨data, ⟨htext σ₁ hf hdistinct, (Store.digest_eq hf.grown _).symm⟩, id,
      revision, status, rfl, hrecorded⟩

/-- `transition` writes what it may, and stores its receipt. -/
theorem does_transition (h : Underway c σ) (effectId : UUID) (data : TransitionToolEffect)
    (key : String) :
    Does c (ToolEffects.transition c.platform effectId data key)
      (fun r σ' => Done c .transitionToolEffect key (objectPayload "memory_id" effectId data.dump) r
        σ') n σ := by
  refine does_bind (does_effectLoad h _ _) ?_
  rintro effect n₀ σ' - ⟨rfl, hfree⟩
  refine does_once_receipt h does_pure_receipt fun n₁ => ?_
  refine does_demand fun _ => does_demand fun _ => does_demand fun _ => ?_
  refine does_bind (does_append _) ?_
  rintro r n₂ σ₁ hf rfl
  refine does_saveResult (Store.digest_eq hf.grown _).symm (Store.digest_eq hf.grown _).symm ?_
    (fun _ => trivial) fun n₃ σ₂ hf₂ hdone => does_pure hdone
  exact fun id hid => List.mem_singleton.mp hid ▸ hfree.of_grown hf.grown

/-- A fence appends revisions only. -/
theorem does_fenceRestore (scopeId runId : UUID) :
    Does c (ToolEffects.fenceRestore scopeId runId) (fun _ _ => True) n σ := by
  refine does_readOnly_bind (readOnly_listRun _ _) fun effects n₀ => ?_
  refine does_forEach fun effect _ n' σ' _ => ?_
  split
  · exact does_bind (does_append _) fun _ _ _ _ _ => does_pure trivial
  · exact does_pure trivial

/-! ## Checkpoints -/

/-- An inserted checkpoint is new. -/
theorem does_insertCheckpoint (h : Underway c σ) (data : CreateCheckpoint) (sequence : Nat)
    (parentId : Option UUID) :
    Does c (Checkpoints.insert c.platform data sequence parentId)
      (fun r σ' => ∃ id sum, r = .checkpoint id data.runId data.branchId sequence parentId sum
        ∧ Untombstoned σ'.store id) n σ := by
  refine does_readOnly_bind (readOnly_validateRefs _ _ _) fun refs n₀ => does_read ?_
  refine does_newObject h fun id n₁ σ₁ hf₁ hid => ?_
  refine does_readOnly_bind (readOnly_digest c.platform _) fun sum n₂ => ?_
  refine does_send hid fun _ σ₂ _ hf₂ => ?_
  refine does_bind (does_forEach fun ref _ n' σ' _ =>
    does_send_last (R := fun _ _ => True) hid fun _ _ _ _ => trivial) fun _ n₂ σ₃ hf₃ _ => ?_
  refine does_audit fun n₃ σ₄ hf₄ => does_pure ⟨id, _, rfl, ?_⟩
  exact (h.follows (((hf₁.trans hf₂).trans hf₃).trans hf₄)).untombstoned hid

/-- `create` writes what it may, and stores its receipt. -/
theorem does_createCheckpoint (h : Underway c σ) (data : CreateCheckpoint) (key : String) :
    Does c (Checkpoints.create c.platform data key)
      (fun r σ' => Done c .checkpoint key (compactText data.dump) r σ') n σ := by
  refine does_readOnly_bind (readOnly_scope _ _) fun _ n₀ => ?_
  refine does_once_receipt h (fun result n' => does_checked_receipt (readOnly_forEach fun _ =>
    (readOnly_checkpointLoad c.platform _ _).bind fun _ => readOnly_pure _) result n') fun n₁ => ?_
  have hrun : Does c (Checkpoints.ensureRun data) (fun _ _ => True) n₁ σ := by
    refine does_send trivial fun _ σ₁ _ _ => does_read (does_demand fun _ => ?_)
    exact (does_readOnly (readOnly_demand _ _)).mono fun _ _ _ _ => trivial
  refine does_bind hrun fun _ n₂ σ₁ hf₁ _ => does_send trivial fun _ σ₂ _ hf₂ => ?_
  refine does_read (does_found fun branch _ => does_demand fun _ => does_demand fun _ => ?_)
  have hinsert : ∀ n₃, Does c (Checkpoints.insert c.platform data (branch.sequence + 1)
      data.expectedHead >>= fun result => saveResult .checkpoint (σ.store.digest c.platform key)
        (σ.store.digest c.platform (compactText data.dump)) result >>= fun _ => pure result)
      (fun r σ' => Done c .checkpoint key (compactText data.dump) r σ') n₃ σ₂ := by
    intro n₃
    have hf := hf₁.trans hf₂
    refine does_bind (does_insertCheckpoint (h.follows hf) data _ _) ?_
    rintro r n₄ σ₃ hf₃ ⟨id, sum, rfl, hfree⟩
    have hf' := hf.trans hf₃
    refine does_saveResult (Store.digest_eq hf'.grown _).symm (Store.digest_eq hf'.grown _).symm ?_
      (fun _ => trivial) fun n₅ σ₄ hf₄ hdone => does_pure hdone
    exact fun id' hid' => List.mem_singleton.mp hid' ▸ hfree
  split
  next => exact hinsert _
  next parentId _ =>
    exact does_readOnly_bind (readOnly_checkpointLoad c.platform _ _) fun parent n₃ =>
      does_demand fun _ => hinsert _

/-- An inserted branch was not there before. -/
theorem insertBranch_new {m : Moment} {scope run branch : UUID} {returning row : Bool} {σ' : Session}
    (hstep : step c.platform (.checkpoint (.insertBranch scope run branch returning)) m σ
      = .ok (.inserted row, σ')) (hrow : row = true) :
    ∀ b ∈ σ.store.checkpointing.branches, key b ≠ (scope, run, branch) := by
  obtain ⟨-, hexec, -⟩ := step_eq_ok.mp hstep
  obtain ⟨⟨row', checkpointing⟩, hexec, hpure⟩ := bind_eq_ok.mp hexec
  have hsame : row' = row := Returned.inserted.inj (Prod.mk.inj (Except.ok.inj hpure)).1
  obtain ⟨-, ⟨hfalse, -⟩ | ⟨-, t, ht, -⟩⟩ := CheckpointStatement.accepted hexec
  · rw [hsame, hrow] at hfalse
    cases hfalse
  · exact (Table.insert?_eq_some_iff.mp ht).1

/-- **A fork** onto a branch that was not there before. -/
theorem does_forkOnce (h : Underway c σ) (data : RestoreCheckpoint) (saved : SavedCheckpoint)
    (key : String) :
    Does c (Checkpoints.forkOnce c.platform data saved (σ.store.digest c.platform key)
        (σ.store.digest c.platform (compactText data.dump)))
      (fun _ σ' => (∃ result, Done c .restoreCheckpoint key (compactText data.dump) result σ')
        ∧ ∀ b ∈ σ.store.checkpointing.branches, HasKey.key b
          ≠ (saved.payload.scopeId, saved.payload.runId, data.targetBranchId)) n σ := by
  refine does_demand fun _ => does_sendReturning trivial fun inserted σ₁ hstep hf₁ => ?_
  refine does_demand fun hinserted => does_bind (does_fenceRestore _ _) fun _ n₂ σ₂ hf₂ _ => ?_
  split
  next => exact does_raise
  next fork _ =>
    have hf := hf₁.trans hf₂
    refine does_bind (does_insertCheckpoint (h.follows hf) fork 1 _) ?_
    rintro r n₃ σ₃ hf₃ ⟨id, sum, rfl, hfree⟩
    have hf' := hf.trans hf₃
    refine does_saveResult (Store.digest_eq hf'.grown _).symm (Store.digest_eq hf'.grown _).symm ?_
      (fun _ => trivial) fun n₄ σ₄ hf₄ hdone => does_found fun _ _ => ?_
    · exact fun id' hid' => List.mem_singleton.mp hid' ▸ hfree
    · refine does_audit fun n₅ σ₅ hf₅ => ?_
      refine (does_readOnly (readOnly_envelope c.platform _)).mono fun _ σ' _ heq =>
        ⟨⟨_, heq ▸ hdone.follows hf₅⟩, ?_⟩
      cases inserted with
      | inserted row => exact insertBranch_new hstep hinserted
      | done => cases hinserted
      | job row => cases hinserted
      | epoch deletionEpoch => cases hinserted

/-- `restore` writes what it may, and stores its receipt. -/
theorem does_restore (h : Underway c σ) (data : RestoreCheckpoint) (key : String) :
    Does c (Checkpoints.restore c.platform data key)
      (fun _ σ' => ∃ result, Done c .restoreCheckpoint key (compactText data.dump) result σ')
      n σ := by
  refine does_readOnly_bind (readOnly_checkpointLoad c.platform _ _) fun saved n₀ => ?_
  refine does_once h (fun result n₁ hdone => ?_) fun n₁ =>
    (does_forkOnce h data saved key).mono fun _ _ _ hpost => hpost.1
  exact (does_readOnly (readOnly_receiptEnvelope c.platform result)).mono fun _ σ' _ heq =>
    ⟨result, heq ▸ hdone⟩

/-! ## The statements of a restore -/

/-- A fence sends revisions of effects that become unknown, and audit entries. -/
def Fences : Statement → Prop
  | .ledger (.insertRevision n) => n.status = .unknown ∧ n.origin = .checkpointRestore
  | .operation (.audit _ _) => True
  | _ => False

/-- A fork sends objects, one branch's checkpoints and their references, and what it records. -/
def Forks (branch : UUID × UUID × UUID) : Statement → Prop
  | .insertObject _ _ _ => True
  | .checkpoint (.insertCheckpoint n) => (n.scopeId, n.runId, n.branchId) = branch
  | .checkpoint (.insertReference _) => True
  | .operation _ => True
  | _ => False

/-- A statement of a kind is a program of that kind. -/
theorem sends_send {kind : Statement → Prop} {st : Statement} (h : kind st) :
    Sends kind (send st) := ⟨h, fun _ => trivial⟩

/-- A new object is a statement of any kind that has its insertions. -/
theorem sends_newObject {kind : Statement → Prop} {scopeId : UUID} {objectKind : ObjectKind}
    (h : ∀ id, kind (.insertObject id scopeId objectKind)) :
    Sends kind (newObject scopeId objectKind) :=
  fun id => (sends_send (h id)).bind fun _ => trivial

/-- The fence of a restore only fences. -/
theorem sends_fenceRestore (scopeId runId : UUID) :
    Sends Fences (ToolEffects.fenceRestore scopeId runId) := by
  refine (readOnly_listRun _ _).sends.bind fun effects => Program.sends_forM fun effect _ => ?_
  split
  · refine Sends.bind ?_ fun _ => trivial
    exact (sends_send ⟨rfl, rfl⟩).bind fun _ => (sends_send trivial).bind fun _ => trivial
  · trivial

/-- A checkpoint is put on its own branch only. -/
theorem sends_insertCheckpoint (platform : Platform) (data : CreateCheckpoint) (sequence : Nat)
    (parentId : Option UUID) :
    Sends (Forks (data.scopeId, data.runId, data.branchId))
      (Checkpoints.insert platform data sequence parentId) := by
  refine (readOnly_validateRefs _ _ _).sends.bind fun refs => (readOnly_read _).sends.bind
    fun epochs => (sends_newObject fun _ => trivial).bind fun id => ?_
  refine (readOnly_digest platform _).sends.bind fun sum => Sends.bind (sends_send ?_) fun _ => ?_
  · exact rfl
  refine (Program.sends_forM fun ref _ => sends_send trivial).bind fun _ => ?_
  exact (sends_send trivial).bind fun _ => trivial

/-- The branch that a fork appends to. -/
theorem RestoreCheckpoint.fork_branch {data : RestoreCheckpoint} {saved : SavedCheckpoint}
    {fork : CreateCheckpoint} (h : data.fork? saved = some fork) :
    (fork.scopeId, fork.runId, fork.branchId)
      = (saved.payload.scopeId, saved.payload.runId, data.targetBranchId) := by
  obtain ⟨refs, -, hfork⟩ := Option.bind_eq_some_iff.mp h
  split at hfork
  · cases hfork
    rfl
  · cases hfork

/-- What a fork sends once the run is fenced. -/
theorem sends_forkRest (platform : Platform) (fork : CreateCheckpoint) (parentId : UUID)
    (keyDigest requestDigest : Digest) :
    Sends (Forks (fork.scopeId, fork.runId, fork.branchId)) (do
      let result ← Checkpoints.insert platform fork 1 (some parentId)
      saveResult .restoreCheckpoint keyDigest requestDigest result
      let id ← found (Checkpoints.checkpointId result) .notFound
      audit "restore_checkpoint" id
      Checkpoints.envelope platform id) := by
  refine (sends_insertCheckpoint platform fork 1 _).bind fun result => (sends_send trivial).bind
    fun _ => (readOnly_found _ _).sends.bind fun id => (sends_send trivial).bind fun _ => ?_
  exact (readOnly_envelope platform id).sends

/-! ## Requests -/

/-- Whether a request deletes. -/
def Request.deletes : Request → Bool
  | .forget _ _ => true
  | _ => false

/-- A response wraps what its program returns. -/
theorem does_respond {α : Type} {wrap : α → Response} {p : Tx α} {Q : α → Session → Prop}
    (h : Does c p Q n σ) :
    Does c (respond wrap p) (fun r σ' => ∃ a, r = wrap a ∧ Q a σ') n σ :=
  does_bind h fun a _ _ _ hQ => does_pure ⟨a, rfl, hQ⟩

/-- A response to a question. -/
theorem does_respond_readOnly {α : Type} {wrap : α → Response} {p : Tx α} (hp : ReadOnly p) :
    Does c (respond wrap p) (fun _ _ => True) n σ :=
  (does_respond (does_readOnly hp)).mono fun _ _ _ _ => trivial

/-- The captures of the request are covered. -/
theorem Setting.coversCapture {request : Request} (hrequest : c.request = request) {episode : Observe}
    {memories : List CapturedMemory}
    (h : ∀ s, captureTexts c.platform s episode memories ⊆ request.texts c.platform s)
    (σ : Session) : c.CoversCapture σ episode memories :=
  fun σ' _ hdistinct => (h σ'.store).trans (hrequest ▸ hdistinct.covered)

/-- **Every request but `forget` runs by the discipline.** -/
theorem Request.does {request : Request} (hrequest : c.request = request) (h : Underway c σ)
    (hquiet : request.deletes = false) :
    Does c (request.program c.platform) (fun _ _ => True) n σ := by
  refine does_readOnly_bind readOnly_bindIdentity fun _ n₀ => ?_
  have hwrap : ∀ {α : Type} {wrap : α → Response} {p : Tx α} {Q : α → Session → Prop},
      Does c p Q n₀ σ → Does c (respond wrap p) (fun _ _ => True) n₀ σ :=
    fun hp => (does_respond hp).mono fun _ _ _ _ => trivial
  cases request with
  | observe data key => exact hwrap (does_observe h data key (c.covers hrequest (fun _ => rfl) σ))
  | remember data key => exact hwrap (does_remember h data key)
  | reviseAssertion objectId data key => exact hwrap (does_reviseAssertion h objectId data key)
  | capture data key =>
    exact hwrap (does_capture h data key (c.covers hrequest (fun _ => Or.inl rfl) σ)
      (c.coversCapture hrequest (fun _ => Set.subset_union_right) σ))
  | captureBatch data key =>
    exact hwrap (does_captureBatch h data key (c.covers hrequest (fun _ => Or.inl rfl) σ)
      (c.coversCapture hrequest (fun _ => Set.subset_union_right) σ))
  | createEntity data key => exact hwrap (does_createEntity h data key)
  | createRelation data key => exact hwrap (does_createRelation h data key)
  | reviseRelation assertionId data key => exact hwrap (does_reviseRelation h assertionId data key)
  | enqueue data key retryOf => exact hwrap (does_enqueue h data key retryOf (c.covers hrequest (fun _ => rfl) σ))
  | cancel jobId data key => exact hwrap (does_cancel h jobId data key)
  | createCheckpoint data key => exact hwrap (does_createCheckpoint h data key)
  | restoreCheckpoint data key => exact hwrap (does_restore h data key)
  | plan data key => exact hwrap (does_plan h data key (c.covers hrequest (fun _ => rfl) σ))
  | transition effectId data key => exact hwrap (does_transition h effectId data key)
  | putEmbedding data key => exact hwrap (does_put h data key)
  | forget data key => exact absurd hquiet Bool.noConfusion
  | «recall» data => exact does_respond_readOnly (readOnly_recall c.platform data)
  | explain data => exact does_respond_readOnly (readOnly_explain data)
  | entity entityId => exact does_respond_readOnly (readOnly_entity entityId)
  | expand data => exact does_respond_readOnly (readOnly_expand data)
  | checkpoint checkpointId => exact does_respond_readOnly (readOnly_envelope c.platform _)
  | checkpointHead data => exact does_respond_readOnly (readOnly_head c.platform data)
  | job jobId => exact does_respond_readOnly (readOnly_jobGet jobId)
  | effect effectId => exact does_respond_readOnly (readOnly_effectGet effectId)
  | query query => exact does_respond_readOnly (readOnly_query c.platform query)
  | claim leaseSeconds => exact hwrap (does_claim leaseSeconds)
  | heartbeat jobId token => exact hwrap (does_heartbeat jobId token)
  | publish jobId token prepared => exact hwrap (does_publish h jobId token prepared)
  | fail jobId token code retry => exact hwrap (does_jobFail jobId token code retry)

/-- **Rule for runs of requests that do not delete**: what every statement of the discipline preserves,
from a start that meets it, the end of a run meets. -/
theorem Request.run_invariant {c : Setting} {request : Request} {principal : UUID} {response : Response}
    {n : Nat} {σ' : Session} {I : Session → Prop} (hforeign : ForeignKeys c.start)
    (hquiet : request.deletes = false) (hrequest : c.request = request)
    (hstart : I (.start principal c.start))
    (hstep : ∀ statement n (σ : Session) r σ', Underway c σ → I σ → Writes c σ statement →
      step c.platform statement (c.timeline.moment n) σ = .ok (r, σ') → I σ')
    (h : runFrom c.platform c.timeline (request.program c.platform) 0 (.start principal c.start)
      = .ok (response, n, σ')) : Underway c σ' ∧ I σ' := by
  have hdoes : Does c (request.program c.platform) (fun _ _ => True) 0 (.start principal c.start) :=
    Request.does hrequest (.start hforeign principal) hquiet
  have hboth : ∀ statement n (σ : Session) r σ', (Underway c σ ∧ I σ) → Writes c σ statement →
      step c.platform statement (c.timeline.moment n) σ = .ok (r, σ') → Underway c σ' ∧ I σ' := by
    intro statement n σ r σ' ⟨hσ, hI⟩ hallow hrun
    exact ⟨hσ.follows (hallow.follows hrun), hstep statement n σ r σ' hσ hI hallow hrun⟩
  exact (Ensures.run_invariant (I := fun _ σ => Underway c σ ∧ I σ) (fun _ _ h => h) hboth hdoes
    ⟨.start hforeign principal, hstart⟩ h).2

/-- **Rule for requests that do not delete**: what every statement of the discipline preserves, from
a start that meets it, the commit of such a request meets. -/
theorem Request.attempt_invariant {c : Setting} {request : Request} {principal : UUID} {s' : Store}
    {response : Response} {I : Session → Prop} (hforeign : ForeignKeys c.start)
    (hquiet : request.deletes = false) (hrequest : c.request = request)
    (hstart : I (.start principal c.start))
    (hstep : ∀ statement n (σ : Session) r σ', Underway c σ → I σ → Writes c σ statement →
      step c.platform statement (c.timeline.moment n) σ = .ok (r, σ') → I σ')
    (h : attempt c.platform c.timeline principal (request.program c.platform) c.start
      = .ok (response, s')) :
    ∃ n σ, σ.store = s' ∧ Underway c σ ∧ I σ ∧ commit (c.timeline.moment n) σ = .ok s' := by
  obtain ⟨n, σ, hrun, hcommit⟩ := attempt_eq_ok.mp h
  obtain ⟨hσ, hI⟩ := Request.run_invariant hforeign hquiet hrequest hstart hstep hrun
  exact ⟨n, σ, (commit_eq_ok.mp hcommit).2, hσ, hI, hcommit⟩

end PgAgmemory

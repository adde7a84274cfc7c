import PgAgmemory.Operations.Memory

/-! # Jobs and captures by the discipline

The payload of a queued request determines the request (`EnqueueJob.payload_inj`), so the receipt that
a capture finds under its internal key belongs to the same episode or job. -/

namespace PgAgmemory

open Json (Value)
open Keyed (HasKey Table key)
open Interactive.Program (ReadOnly)
open MemoryService

/-! ## Sorted requests -/

/-- The members of objects with the same sorted text. -/
theorem sortKeys_member (name : String) (a b : Value) {v w : Value} (h : v.sortKeys = w.sortKeys)
    (ha : v.get? name = some a) (hb : w.get? name = some b) : a.sortKeys = b.sortKeys := by
  have hmember := congrArg (fun x => Value.get? x name) h
  simp only [Value.get?_sortKeys, ha, hb, Option.map_some, Option.some.injEq] at hmember
  exact hmember

/-- An optional value with sorted keys has them sorted. -/
theorem sortKeys_jsonOption {α : Type} {dump : α → Value} (hdump : ∀ a, (dump a).sortKeys = dump a)
    (x : Option α) : (jsonOption dump x).sortKeys = jsonOption dump x := by
  cases x with
  | none => rfl
  | some a => exact hdump a

/-- Sorted evidence determines the evidence. -/
theorem Evidence.sortKeys_inj {e f : Evidence} (h : e.dump.sortKeys = f.dump.sortKeys) : e = f := by
  have hid : jsonUUID e.memoryId = jsonUUID f.memoryId :=
    sortKeys_member "memory_id" (jsonUUID e.memoryId) (jsonUUID f.memoryId) h (by simp [dump])
      (by simp [dump])
  have hquote : e.quote.dump = f.quote.dump :=
    sortKeys_member "quote" e.quote.dump f.quote.dump h (by simp [dump]) (by simp [dump])
  exact Evidence.dump_inj.mp (by rw [dump, dump, hid, hquote])

/-- **A request with sorted keys determines the request.** -/
theorem Remember.sortKeys_inj {r s : Remember} (h : r.dump.sortKeys = s.dump.sortKeys) : r = s := by
  have hscope : jsonUUID r.scopeId = jsonUUID s.scopeId :=
    sortKeys_member "scope_id" (jsonUUID r.scopeId) (jsonUUID s.scopeId) h (by simp [dump])
      (by simp [dump])
  have hsubject : r.subject.dump = s.subject.dump :=
    sortKeys_member "subject" r.subject.dump s.subject.dump h (by simp [dump]) (by simp [dump])
  have hpredicate : r.predicate.dump = s.predicate.dump :=
    sortKeys_member "predicate" r.predicate.dump s.predicate.dump h (by simp [dump])
      (by simp [dump])
  have hvalue : r.value.dump = s.value.dump :=
    sortKeys_member "value" r.value.dump s.value.dump h (by simp [dump]) (by simp [dump])
  have hfrom := sortKeys_member "valid_from" (jsonOption AwareDatetime.dump r.validFrom)
    (jsonOption AwareDatetime.dump s.validFrom) h (by simp [dump]) (by simp [dump])
  have hto := sortKeys_member "valid_to" (jsonOption AwareDatetime.dump r.validTo)
    (jsonOption AwareDatetime.dump s.validTo) h (by simp [dump]) (by simp [dump])
  have hevidence := sortKeys_member "evidence" (jsonList Evidence.dump r.evidence)
    (jsonList Evidence.dump s.evidence) h (by simp [dump]) (by simp [dump])
  rw [sortKeys_jsonOption fun _ => rfl, sortKeys_jsonOption fun _ => rfl] at hfrom hto
  simp only [jsonList, Value.sortKeys_arr, Value.arr_inj, List.map_map] at hevidence
  have hsame : r.evidence = s.evidence :=
    List.map_injective_iff.mpr (fun _ _ => Evidence.sortKeys_inj) hevidence
  exact Remember.dump_inj.mp
    (by rw [dump, dump, hscope, hsubject, hpredicate, hvalue, hfrom, hto, hsame])

/-- **The payload determines the request.** -/
theorem EnqueueJob.payload_inj {data data' : EnqueueJob} {retryOf retryOf' : Option UUID}
    (h : data.payload retryOf = data'.payload retryOf') : data = data' ∧ retryOf = retryOf' := by
  have hsorted := spacedText_injective h
  have hretry := sortKeys_member "retry_of" (jsonOption jsonUUID retryOf)
    (jsonOption jsonUUID retryOf') hsorted (by simp) (by simp)
  rw [sortKeys_jsonOption fun _ => rfl, sortKeys_jsonOption fun _ => rfl] at hretry
  have hrequest := sortKeys_member "request" data.dump data'.dump hsorted (by simp) (by simp)
  have hmemory : data.memory = data'.memory := Remember.sortKeys_inj
    (sortKeys_member "memory" data.memory.dump data'.memory.dump hrequest (by simp [dump])
      (by simp [dump]))
  refine ⟨?_, jsonOption_uuid_inj.mp hretry⟩
  cases data
  cases data'
  cases hmemory
  rfl

/-! ## The queue -/

section Operations

variable {c : Setting} {n : Nat} {σ : Session}

/-- A loaded job is not deleted. -/
theorem does_jobLoad (h : Underway c σ) (jobId : UUID) (permission : Permission) (lock : Bool) :
    Does c (Jobs.load jobId permission lock)
      (fun _ σ' => σ' = σ ∧ Untombstoned σ.store jobId) n σ := by
  refine does_object_bind h fun o n₀ _ _ hfree => does_demand fun _ => does_read ?_
  exact does_found fun row _ => does_read (does_demand fun _ => does_pure ⟨rfl, hfree⟩)

/-- An inserted job is new, and recorded under its identity. -/
theorem does_insertJob (h : Underway c σ) (data : EnqueueJob) (retryOf : Option UUID)
    (intent identity : Digest) :
    Does c (Jobs.insertJob data retryOf intent identity)
      (fun id σ' => Untombstoned σ'.store id ∧ ∃ i ∈ σ'.store.queue.identities,
        i.scopeId = data.memory.scopeId ∧ i.principalId = σ.principal ∧ i.inputDigest = identity
          ∧ i.jobId = id) n σ := by
  refine does_read (does_demand fun _ => ?_)
  refine does_readOnly_bind (readOnly_validateEvidence _ _) fun _ n₀ => ?_
  refine does_newObject h fun id n₁ σ₁ hf₁ hid => does_send hid fun _ σ₂ _ hf₂ => ?_
  refine does_bind (does_forEach fun evidence _ n' σ' _ =>
    does_send_last (R := fun _ _ => True) hid fun _ _ _ _ => trivial) fun _ n₂ σ₃ hf₃ _ => ?_
  refine does_read (does_send trivial fun _ σ₄ hstep hf₄ => does_audit fun n₃ σ₅ hf₅ => ?_)
  have hf := (((hf₁.trans hf₂).trans hf₃).trans hf₄).trans hf₅
  refine does_pure ⟨(h.follows hf).untombstoned hid, ?_⟩
  obtain ⟨-, hexec, -⟩ := step_eq_ok.mp hstep
  simp only [Statement.exec, QueueStatement.exec, bind_eq_ok, insertRow_eq_ok] at hexec
  obtain ⟨⟨row, jobs⟩, ⟨_, _, t, hinsert, hpure⟩, hpure'⟩ := hexec
  cases hpure
  have hidentities : σ₄.store.queue.identities = t := by
    rw [← (Prod.mk.inj (Except.ok.inj hpure')).2]
  refine ⟨_, hf₅.grown.jobIdentities _ (hidentities ▸ Table.mem_insert?_self hinsert), rfl, ?_, rfl,
    rfl⟩
  exact ((hf₁.trans hf₂).trans hf₃).principal

/-- **The job of an intent** is recorded and not deleted, whether it was found or inserted. -/
theorem does_admitJob (h : Underway c σ) (data : EnqueueJob) (retryOf : Option UUID) :
    Does c (Jobs.admitJob c.platform data retryOf)
      (fun id σ' => Untombstoned σ'.store id
        ∧ RecordedJob c.platform σ'.store σ.principal data retryOf id) n σ := by
  refine does_read (does_readOnly_bind (readOnly_checkRetry _ _) fun _ n₀ => ?_)
  refine does_read (does_read ?_)
  split
  next row hrow =>
    obtain ⟨hfind, -⟩ := Option.filter_eq_some_iff.mp hrow
    obtain ⟨hmem, hkey⟩ := Table.find?_eq_some_iff.mp hfind
    obtain ⟨hscope, hkey⟩ := Prod.mk.inj hkey
    obtain ⟨hprincipal, hdigest⟩ := Prod.mk.inj hkey
    refine does_bind (does_jobLoad h _ _ _) ?_
    rintro job n₁ σ' - ⟨rfl, hfree⟩
    exact does_pure ⟨hfree, row, hmem, hscope, hprincipal, hdigest, rfl⟩
  next =>
    refine (does_insertJob h data retryOf _ _).mono ?_
    rintro id σ' hf ⟨hfree, i, hi, hscope, hprincipal, hdigest, hid⟩
    refine ⟨hfree, i, hi, hscope, hprincipal, hdigest.trans ?_, hid⟩
    exact (Store.jobDigest_eq hf.grown data retryOf).symm

/-- `enqueue` writes what it may, and its receipt is backed by the job. -/
theorem does_enqueue (h : Underway c σ) (data : EnqueueJob) (key : String) (retryOf : Option UUID)
    (htext : c.Covers σ (data.payload retryOf)) :
    Does c (Jobs.enqueue c.platform data key retryOf)
      (fun r σ' => Done c (Jobs.enqueueOperation retryOf) key (data.payload retryOf) r σ') n σ := by
  refine does_readOnly_bind (readOnly_scope _ _) fun _ n₀ => ?_
  refine does_once_receipt h does_pure_receipt fun n₁ => ?_
  refine does_bind (does_admitJob h data retryOf) fun id n₂ σ₁ hf hrecorded => ?_
  refine does_saveResult (Store.digest_eq hf.grown _).symm (Store.digest_eq hf.grown _).symm ?_ ?_
    fun n₃ σ₂ hf₂ hdone => does_pure hdone
  · exact fun id hid => List.mem_singleton.mp hid ▸ hrecorded.1
  · intro hdistinct
    have hdigested := (⟨htext σ₁ hf hdistinct, (Store.digest_eq hf.grown _).symm⟩ :
      Digested c.platform c.texts σ₁.store (data.payload retryOf) _)
    have hjob := hf.principal ▸ hrecorded.2
    cases retryOf with
    | none => exact ⟨data, hdigested, id, rfl, hjob⟩
    | some parent => exact ⟨data, parent, hdigested, id, rfl, hjob⟩

/-- An update of a job writes nothing else. -/
theorem does_update {jobId : UUID} {change : JobChange} {β : Type} {k : Option JobRow → Tx β}
    {R : β → Session → Prop}
    (hk : ∀ row n' σ', σ.Follows c σ' → Does c (k row) R n' σ') :
    Does c (Jobs.update jobId change >>= k) R n σ := by
  have hupdate : Does c (Jobs.update jobId change) (fun _ _ => True) n σ := by
    refine does_sendReturning trivial fun returned σ' _ _ => ?_
    cases returned <;> exact does_pure trivial
  exact does_bind hupdate fun row n' σ' hf _ => hk row n' σ' hf

/-- `cancel` writes what it may, and stores its receipt. -/
theorem does_cancel (h : Underway c σ) (jobId : UUID) (data : CancelJob) (key : String) :
    Does c (Jobs.cancel c.platform jobId data key)
      (fun r σ' => Done c .cancelJob key (objectPayload "job_id" jobId data.dump) r σ') n σ := by
  refine does_read (does_bind (does_jobLoad h _ _ _) ?_)
  rintro job n₀ σ' - ⟨rfl, hfree⟩
  refine does_demand fun _ => does_once_receipt h does_pure_receipt fun n₁ => ?_
  refine does_update fun row n₂ σ₁ hf₁ => does_demand fun _ => does_audit fun n₃ σ₂ hf₂ => ?_
  have hf := hf₁.trans hf₂
  refine does_saveResult (Store.digest_eq hf.grown _).symm (Store.digest_eq hf.grown _).symm ?_
    (fun _ => trivial) fun n₄ σ₃ hf₃ hdone => does_pure hdone
  exact fun id hid => List.mem_singleton.mp hid ▸ hfree.of_grown hf.grown

/-- `claim` writes what it may. -/
theorem does_claim (leaseSeconds : Nat) :
    Does c (Jobs.claim leaseSeconds) (fun _ _ => True) n σ := by
  unfold Jobs.claim
  split
  · refine does_readOnly_bind (readOnly_readAt _) fun row n₀ => ?_
    split
    · exact does_pure trivial
    · refine does_readOnly_bind (readOnly_jobLoad _ _ _) fun job n₁ => ?_
      split
      · exact does_update fun row n₂ σ₁ _ => does_audit fun n₃ σ₂ _ => does_pure trivial
      · exact does_update fun row n₂ σ₁ _ => does_found fun _ _ => does_audit fun n₃ σ₂ _ =>
          does_pure trivial
  · exact does_raise

/-- `heartbeat` writes what it may. -/
theorem does_heartbeat (jobId token : UUID) :
    Does c (Jobs.heartbeat jobId token) (fun _ _ => True) n σ :=
  does_readOnly_bind (readOnly_lease _ _ _) fun _ _ => does_update fun _ _ _ _ => does_pure trivial

/-- `publish` writes what it may: the assertion of the request before the update. -/
theorem does_publish (h : Underway c σ) (jobId token : UUID) (prepared : Remember) :
    Does c (Jobs.publish c.platform jobId token prepared) (fun _ _ => True) n σ := by
  refine does_readOnly_bind (readOnly_lease _ _ _) fun row n₀ => does_demand fun _ => ?_
  refine does_bind (does_publishAssertion h prepared) fun result n₁ σ₁ hf₁ _ => ?_
  exact does_found fun memoryId _ => does_update fun saved n₂ σ₂ _ => does_demand fun _ =>
    does_audit fun n₃ σ₃ _ => does_pure trivial

/-- `fail` writes what it may. -/
theorem does_jobFail (jobId token : UUID) (code : JobError) (retry : Bool) :
    Does c (Jobs.fail jobId token code retry) (fun _ _ => True) n σ :=
  does_readOnly_bind (readOnly_lease _ _ _) fun _ _ => does_update fun _ _ _ _ =>
    does_audit fun _ _ _ => does_pure trivial

/-! ## Captures -/

/-- **The episode of a capture** is the one recorded for its source event. -/
theorem does_observeEpisode (h : Underway c σ) (data : Observe) (key : String)
    (htext : c.Covers σ (compactText data.dump)) :
    Does c (Captures.observeEpisode c.platform data key)
      (fun id σ' => Untombstoned σ'.store id
        ∧ (c.Distinct σ' → RecordedEvent c.platform σ'.store data id)) n σ := by
  refine does_bind (does_observe h data key htext) fun r n₁ σ₁ hf hdone => ?_
  cases r with
  | observed id =>
    refine does_pure ⟨hdone.live id List.mem_cons_self, fun hdistinct => ?_⟩
    have hσ₁ := h.follows hf
    obtain ⟨data', hdigested, id', hresult, hrecorded⟩ := hdone.backed hσ₁ hdistinct
    have hdata : data' = data := Observe.dump_inj.mp
      (compactText_injective (hσ₁.text_eq hdistinct hdigested (htext σ₁ hf hdistinct)))
    cases hresult
    exact hdata ▸ hrecorded
  | _ => exact does_raise

/-- **The job of a captured assertion** is the one recorded for its intent. -/
theorem does_enqueueMemory (h : Underway c σ) (scopeId episode : UUID) (memory : CapturedMemory)
    (key : String)
    (htext : c.Covers σ (EnqueueJob.payload ⟨memory.remember scopeId episode⟩ none)) :
    Does c (Captures.enqueueMemory c.platform scopeId episode memory key)
      (fun id σ' => Untombstoned σ'.store id ∧ (c.Distinct σ' → RecordedJob c.platform σ'.store
        σ.principal ⟨memory.remember scopeId episode⟩ none id)) n σ := by
  refine does_bind (does_enqueue h ⟨memory.remember scopeId episode⟩ key none htext)
    fun r n₁ σ₁ hf hdone => ?_
  cases r with
  | job id =>
    refine does_pure ⟨hdone.live id List.mem_cons_self, fun hdistinct => ?_⟩
    have hσ₁ := h.follows hf
    obtain ⟨data', hdigested, id', hresult, hrecorded⟩ := hdone.backed hσ₁ hdistinct
    have htexts := hσ₁.text_eq hdistinct hdigested (htext σ₁ hf hdistinct)
    have hdata := (EnqueueJob.payload_inj htexts).1
    cases hresult
    exact hf.principal ▸ hdata ▸ hrecorded
  | _ => exact does_raise

/-- **A covered capture**: its texts are covered from a session on. -/
def Setting.CoversCapture (c : Setting) (σ : Session) (episode : Observe)
    (memories : List CapturedMemory) : Prop :=
  ∀ σ', σ.Follows c σ' → c.Distinct σ' → captureTexts c.platform σ'.store episode memories ⊆ c.texts

/-- The texts of a capture have that of its episode. -/
theorem Setting.CoversCapture.event {episode : Observe} {memories : List CapturedMemory}
    (h : c.CoversCapture σ episode memories) : c.Covers σ (compactText episode.dump) :=
  fun σ' hf hdistinct => h σ' hf hdistinct (Or.inl rfl)

/-- The text of a job about the recorded episode is covered. -/
theorem Setting.CoversCapture.job {episode : Observe} {memories : List CapturedMemory} {σ' : Session}
    (h : c.CoversCapture σ episode memories) (hf : σ.Follows c σ') {id : UUID}
    (hevent : c.Distinct σ' → RecordedEvent c.platform σ'.store episode id) {memory : CapturedMemory}
    (hmemory : memory ∈ memories) :
    c.Covers σ' (EnqueueJob.payload ⟨memory.remember episode.scopeId id⟩ none) := by
  intro σ'' hf' hdistinct
  have hdistinct' := hdistinct.of_grown hf'.grown
  exact h σ' hf hdistinct' (Or.inr ⟨id, hevent hdistinct', memory, hmemory, rfl⟩)

/-- **A capture** writes what it may, and its receipt is backed by the episode and the job. -/
theorem does_capture (h : Underway c σ) (data : Capture) (key : String)
    (htext : c.Covers σ (compactText data.dump))
    (htexts : c.CoversCapture σ data.episode [data.memory]) :
    Does c (Captures.create c.platform data key)
      (fun r σ' => Done c .capture key (compactText data.dump) r σ') n σ := by
  refine does_readOnly_bind (readOnly_scope _ _) fun _ n₀ => ?_
  refine does_once_receipt h does_pure_receipt fun n₁ => ?_
  refine does_bind (does_observeEpisode h data.episode _ htexts.event)
    fun episode n₂ σ₁ hf₁ hepisode => ?_
  have htext' := htexts.job hf₁ hepisode.2 (List.mem_singleton_self _)
  refine does_bind (does_enqueueMemory (h.follows hf₁) data.episode.scopeId episode data.memory _
    htext') fun job n₃ σ₂ hf₂ hjob => ?_
  have hf := hf₁.trans hf₂
  refine does_saveResult (Store.digest_eq hf.grown _).symm (Store.digest_eq hf.grown _).symm ?_ ?_
    fun n₄ σ₃ hf₃ hdone => does_audit fun n₅ σ₄ hf₄ => does_pure (hdone.follows hf₄)
  · exact List.forall_mem_cons.mpr ⟨hepisode.1.of_grown hf₂.grown,
      List.forall_mem_singleton.mpr hjob.1⟩
  · intro hdistinct
    have hevent := hepisode.2 (hdistinct.of_grown hf₂.grown)
    refine ⟨data, ⟨htext σ₂ hf hdistinct, (Store.digest_eq hf.grown _).symm⟩, episode, job, rfl,
      hevent.of_grown hf₂.grown, ?_⟩
    rw [hf₂.principal]
    exact hjob.2 hdistinct

/-- **A batch** writes what it may, and its receipt is backed by the episode and each of the jobs. -/
theorem does_captureBatch (h : Underway c σ) (data : CaptureBatch) (key : String)
    (htext : c.Covers σ (compactText data.dump))
    (htexts : c.CoversCapture σ data.episode data.memories) :
    Does c (Captures.createBatch c.platform data key)
      (fun r σ' => Done c .captureBatch key (compactText data.dump) r σ') n σ := by
  refine does_readOnly_bind (readOnly_scope _ _) fun _ n₀ => ?_
  refine does_once_receipt h does_pure_receipt fun n₁ => ?_
  refine does_bind (does_observeEpisode h data.episode _ htexts.event)
    fun episode n₂ σ₁ hf₁ hepisode => ?_
  refine does_bind (does_forCollect
    (P := fun memory job σ' => Untombstoned σ'.store job ∧ (c.Distinct σ' → RecordedJob c.platform
      σ'.store σ.principal ⟨CapturedMemory.remember memory.1 data.episode.scopeId episode⟩ none job))
    ?_ ?_) fun jobs n₃ σ₂ hf₂ hjobs => ?_
  · exact fun memory job σ' σ'' hf hjob => ⟨hjob.1.of_grown hf.grown, fun hdistinct =>
      (hjob.2 (hdistinct.of_grown hf.grown)).of_grown hf.grown⟩
  · intro memory hmemory n' σ' hf
    have hmem : memory.1 ∈ data.memories := List.fst_mem_of_mem_zipIdx hmemory
    have htext' := (htexts.job hf₁ hepisode.2 hmem).follows hf
    refine (does_enqueueMemory ((h.follows hf₁).follows hf) data.episode.scopeId episode memory.1 _
      htext').mono fun job σ'' _ hjob => ⟨hjob.1, fun hdistinct => ?_⟩
    rw [← hf₁.principal, ← hf.principal]
    exact hjob.2 hdistinct
  have hf := hf₁.trans hf₂
  refine does_saveResult (Store.digest_eq hf.grown _).symm (Store.digest_eq hf.grown _).symm ?_ ?_
    fun n₄ σ₃ hf₃ hdone => does_audit fun n₅ σ₄ hf₄ => does_pure (hdone.follows hf₄)
  · have hflip : List.Forall₂ (fun job (_ : CapturedMemory × Nat) =>
        Untombstoned σ₂.store job ∧ True) jobs data.memories.zipIdx :=
      List.Forall₂.flip (hjobs.imp fun _ _ hjob => ⟨hjob.1, trivial⟩)
    exact List.forall_mem_cons.mpr ⟨hepisode.1.of_grown hf₂.grown,
      ((List.forall₂_and_left jobs _).mp hflip).1⟩
  · intro hdistinct
    have hevent := hepisode.2 (hdistinct.of_grown hf₂.grown)
    refine ⟨data, ⟨htext σ₂ hf hdistinct, (Store.digest_eq hf.grown _).symm⟩, episode, jobs, rfl,
      hevent.of_grown hf₂.grown, ?_⟩
    have hfst : data.memories = data.memories.zipIdx.map Prod.fst :=
      (List.zipIdx_map_fst 0 data.memories).symm
    rw [hfst, List.forall₂_map_left_iff, hf.principal]
    exact hjobs.imp fun memory job hjob => hjob.2 hdistinct

end Operations

end PgAgmemory

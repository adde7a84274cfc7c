import PgAgmemory.Operations.Shared

/-! # Episodes, assertions, embeddings and the graph by the discipline

Each operation sends only rows of objects and revisions that it creates itself, and ends with a stored
receipt (`Done`). -/

namespace PgAgmemory

open Keyed (HasKey Table key)
open Interactive.Program (ReadOnly)
open MemoryService

variable {c : Setting} {n : Nat} {σ : Session}

/-! ## Episodes -/

/-- **The source event of an observation** is recorded for an object that is not deleted. -/
theorem does_recordEvent (h : Underway c σ) (data : Observe) (requestDigest : Digest) :
    Does c (recordEvent c.platform data requestDigest)
      (fun id σ' => Untombstoned σ'.store id ∧ RecordedEvent c.platform σ'.store data id) n σ := by
  refine does_read (does_read ?_)
  split
  next row hrow =>
    obtain ⟨hfind, -⟩ := Option.filter_eq_some_iff.mp hrow
    obtain ⟨hmem, hkey⟩ := Table.find?_eq_some_iff.mp hfind
    obtain ⟨hscope, hdigest⟩ := Prod.mk.inj hkey
    refine does_demand fun _ => does_object_bind h fun o n' _ _ hfree => does_pure ⟨hfree, ?_⟩
    exact ⟨row, hmem, hscope, hdigest, rfl⟩
  next =>
    refine does_newObject h fun id n₁ σ₁ hf₁ hid => ?_
    refine does_send hid fun _ σ₂ _ hf₂ => does_segment fun segmented n₂ => ?_
    refine does_send hid fun _ σ₃ _ hf₃ => does_send trivial fun _ σ₄ hstep hf₄ => ?_
    refine does_audit fun n₅ σ₅ hf₅ => does_pure ?_
    have hf := (((hf₁.trans hf₂).trans hf₃).trans hf₄).trans hf₅
    refine ⟨(h.follows hf).untombstoned hid, ?_⟩
    obtain ⟨-, hexec, -⟩ := step_eq_ok.mp hstep
    simp only [Statement.exec, OperationStatement.exec, bind_eq_ok, insertRow_eq_ok] at hexec
    obtain ⟨o, ⟨_, _, t, hinsert, hpure⟩, hpure'⟩ := hexec
    cases hpure
    have hevents : σ₄.store.operations.sourceEvents = t := by
      rw [← (Prod.mk.inj (Except.ok.inj hpure')).2]
    refine ⟨_, hf₅.grown.sourceEvents _ (hevents ▸ Table.mem_insert?_self hinsert), rfl, ?_, rfl⟩
    exact (Store.digest_eq hf.grown _).symm

/-- `observe` writes what it may, and its receipt is backed by the event. -/
theorem does_observe (h : Underway c σ) (data : Observe) (key : String)
    (htext : c.Covers σ (compactText data.dump)) :
    Does c (observe c.platform data key)
      (fun r σ' => Done c .observe key (compactText data.dump) r σ') n σ := by
  refine does_readOnly_bind (readOnly_scope _ _) fun _ n₀ => ?_
  refine does_once_receipt h does_pure_receipt fun n₁ => ?_
  refine does_bind (does_recordEvent h data _) fun id n₂ σ₁ hf hrecorded => ?_
  refine does_saveResult (Store.digest_eq hf.grown _).symm (Store.digest_eq hf.grown _).symm ?_ ?_
    fun n₃ σ₂ hf₂ hdone => does_pure hdone
  · exact fun id hid => List.mem_singleton.mp hid ▸ hrecorded.1
  · exact fun hdistinct => ⟨data, ⟨htext σ₁ hf hdistinct, (Store.digest_eq hf.grown _).symm⟩, id, rfl,
      hrecorded.2⟩

/-! ## Assertions -/

/-- Inserting a revision takes a number that was free. -/
theorem newRevisionOf_of_insert {platform : Platform} {v : View} {m : Moment} {new : NewRevision}
    {contents : Contents}
    (h : ContentStatement.exec platform v m (.insertRevision new) = .ok contents) :
    NewRevisionOf v.store new.assertionId new.revision := by
  simp only [ContentStatement.exec, insertRevision, bind_eq_ok, require_eq_ok,
    insertRow_eq_ok] at h
  obtain ⟨adopted, hadopt, -, -, -, -, t, hinsert, -⟩ := h
  intro r hr heq
  obtain ⟨r', hr', hkey⟩ := (adoptRevision_eq_ok hadopt).keys hr
  exact (Table.insert?_eq_some_iff.mp hinsert).1 r' hr' (hkey.trans heq)

/-- **A revision with its evidence and projection**, whose number was free at the start. -/
theorem does_insertRevision (h : Underway c σ) (id scopeId : UUID) (revision : Nat)
    (data : RevisionContent) :
    Does c (MemoryService.insertRevision c.platform id scopeId revision data)
      (fun _ _ => NewRevisionOf c.start id revision) n σ := by
  refine does_send trivial fun _ σ₁ hstep hf₁ => ?_
  have hnew : NewRevisionOf c.start id revision := by
    obtain ⟨-, hexec, -⟩ := step_eq_ok.mp hstep
    simp only [Statement.exec, bind_eq_ok] at hexec
    obtain ⟨contents, hcontents, -⟩ := hexec
    exact (newRevisionOf_of_insert hcontents).of_grown h.grown
  refine does_bind (does_forEach fun evidence _ n' σ' _ =>
    does_send_last (R := fun _ _ => True) hnew fun _ _ _ _ => trivial) fun _ n₂ σ₂ hf₂ _ => ?_
  refine does_read (does_found fun identity _ => does_segment fun segmented n₃ => ?_)
  exact does_send_last hnew fun _ _ _ _ => hnew

/-- **A published assertion** is new. -/
theorem does_publishAssertion (h : Underway c σ) (data : Remember) :
    Does c (publishAssertion c.platform data)
      (fun r _ => ∃ id, r = .assertion id 1 ∧ Fresh c.start id) n σ := by
  refine does_readOnly_bind (readOnly_scope _ _) fun _ n₀ => ?_
  refine does_readOnly_bind (readOnly_validateEvidence _ _) fun _ n₁ => ?_
  refine does_newObject h fun id n₂ σ₁ hf₁ hid => ?_
  refine does_send hid fun _ σ₂ _ hf₂ => ?_
  refine does_bind (does_insertRevision ((h.follows hf₁).follows hf₂) id data.scopeId 1
    data.content) fun _ n₃ σ₃ hf₃ _ => ?_
  exact does_audit fun n₄ σ₄ hf₄ => does_pure ⟨id, rfl, hid⟩

/-- `remember` writes what it may, and stores its receipt. -/
theorem does_remember (h : Underway c σ) (data : Remember) (key : String) :
    Does c (remember c.platform data key)
      (fun r σ' => Done c .remember key (compactText data.dump) r σ') n σ := by
  refine does_readOnly_bind (readOnly_scope _ _) fun _ n₀ => ?_
  refine does_once_receipt h does_pure_receipt fun n₁ => ?_
  refine does_bind (does_publishAssertion h data) ?_
  rintro r n₂ σ₁ hf ⟨id, rfl, hid⟩
  refine does_saveResult (Store.digest_eq hf.grown _).symm (Store.digest_eq hf.grown _).symm ?_
    (fun _ => trivial) fun n₃ σ₂ hf₂ hdone => does_pure hdone
  exact fun id' hid' => List.mem_singleton.mp hid' ▸ (h.follows hf).untombstoned hid

/-- A correction writes what it may, and stores its receipt. -/
theorem does_reviseAssertion (h : Underway c σ) (objectId : UUID) (data : ReviseAssertion)
    (key : String) :
    Does c (reviseAssertion c.platform objectId data key)
      (fun r σ' => Done c .reviseAssertion key (objectPayload "memory_id" objectId data.dump) r σ')
      n σ := by
  refine does_object_bind h fun o n₀ _ _ hfree => does_demand fun _ => ?_
  refine does_once_receipt h does_pure_receipt fun n₁ => ?_
  refine does_read (does_found fun head _ => does_demand fun _ => does_demand fun _ =>
    does_demand fun _ => ?_)
  refine does_readOnly_bind (readOnly_validateEvidence _ _) fun _ n₂ => ?_
  refine does_bind (does_insertRevision h objectId o.scopeId _ data.content)
    fun _ n₃ σ₁ hf _ => ?_
  refine does_saveResult (Store.digest_eq hf.grown _).symm (Store.digest_eq hf.grown _).symm ?_
    (fun _ => trivial) fun n₄ σ₂ hf₂ hdone => does_audit fun n₅ σ₃ hf₃ => ?_
  · exact fun id hid => List.mem_singleton.mp hid ▸ hfree.of_grown hf.grown
  · exact does_pure (hdone.follows hf₃)

/-! ## Embeddings -/

/-- The source of an embedding is not deleted. -/
theorem does_source (h : Underway c σ) (data : Explain) (permission : Permission) :
    Does c (Embeddings.source data permission)
      (fun _ σ' => σ' = σ ∧ Untombstoned σ.store data.memoryId) n σ := by
  refine does_object_bind h fun o n₀ _ _ hfree => does_demand fun _ => ?_
  refine does_readOnly_bind (readOnly_explain data) fun explained n₁ => ?_
  split
  · exact does_pure ⟨rfl, hfree⟩
  · exact does_raise
  · exact does_pure ⟨rfl, hfree⟩

/-- `put` writes what it may, and answers with the revision that it was asked to embed. -/
theorem does_put (h : Underway c σ) (data : PutEmbedding) (key : String) :
    Does c (Embeddings.put c.platform data key)
      (fun r σ' => r = .embedding data.memoryId data.revision.val
        ∧ ∃ result, Done c .embedding key (compactText data.dump) result σ') n σ := by
  refine does_bind (does_source h _ _) ?_
  rintro ⟨obj, text⟩ n₀ σ' - ⟨rfl, hfree⟩
  refine does_demand fun _ => does_once h (fun result n₁ hdone => ?_) fun n₁ => ?_
  · refine does_read (does_found fun existing _ => does_demand fun _ => ?_)
    exact does_pure ⟨rfl, result, hdone⟩
  have hstored : ∀ n₂ σ₁, σ'.Follows c σ₁ →
      Does c (saveResult .embedding (σ'.store.digest c.platform key)
          (σ'.store.digest c.platform (compactText data.dump))
          (.embedding data.memoryId data.revision.val) >>= fun _ =>
            pure (Receipt.embedding data.memoryId data.revision.val))
        (fun r σ'' => r = .embedding data.memoryId data.revision.val
          ∧ ∃ result, Done c .embedding key (compactText data.dump) result σ'') n₂ σ₁ := by
    intro n₂ σ₁ hf
    refine does_saveResult (Store.digest_eq hf.grown _).symm (Store.digest_eq hf.grown _).symm ?_
      (fun _ => trivial) fun n₃ σ₂ hf₂ hdone => does_pure ⟨rfl, _, hdone⟩
    exact fun id hid => List.mem_singleton.mp hid ▸ hfree.of_grown hf.grown
  refine does_read ?_
  split
  next stored _ => exact does_demand fun _ => hstored _ _ (.refl c σ')
  next =>
    refine does_read (does_demand fun _ => ?_)
    have hallow : Writes c σ' (Embeddings.insertEmbedding c.platform obj data) := by
      unfold Embeddings.insertEmbedding
      split <;> trivial
    exact does_send hallow fun _ σ₁ _ hf₁ => does_audit fun n₂ σ₂ hf₂ =>
      hstored n₂ σ₂ (hf₁.trans hf₂)

/-! ## Entities and relations -/

/-- An entity is written as it may be, with its receipt. -/
theorem does_createEntity (h : Underway c σ) (data : CreateEntity) (key : String) :
    Does c (SqlGraph.createEntity c.platform data key)
      (fun r σ' => Done c .createEntity key (compactText data.dump) r σ') n σ := by
  refine does_readOnly_bind (readOnly_scope _ _) fun _ n₀ => ?_
  refine does_once_receipt h (fun result n' => does_checked_receipt (readOnly_forEach fun _ =>
    (readOnly_entity _).bind fun _ => readOnly_pure _) result n') fun n₁ => ?_
  refine does_readOnly_bind (readOnly_validateEvidence _ _) fun _ n₂ => ?_
  refine does_newObject h fun id n₃ σ₁ hf₁ hid => does_send hid fun _ σ₂ _ hf₂ => ?_
  refine does_bind (does_forEach fun evidence _ n' σ' _ =>
    does_send_last (R := fun _ _ => True) hid fun _ _ _ _ => trivial) fun _ n₄ σ₃ hf₃ _ => ?_
  refine does_audit fun n₅ σ₄ hf₄ => ?_
  have hf := ((hf₁.trans hf₂).trans hf₃).trans hf₄
  refine does_saveResult (Store.digest_eq hf.grown _).symm (Store.digest_eq hf.grown _).symm ?_
    (fun _ => trivial) fun n₆ σ₅ hf₅ hdone => does_pure hdone
  exact fun id' hid' => List.mem_singleton.mp hid' ▸ (h.follows hf).untombstoned hid

/-- An assertion that was inserted as a relation is typed. -/
theorem typed_of_insertAssertion {platform : Platform} {m : Moment} {σ σ' : Session} {r : Returned}
    {id scope : UUID} {subject : ShortText} {predicate : Predicate}
    (h : step platform (.content (.insertAssertion id scope subject predicate true)) m σ
      = .ok (r, σ')) : σ'.store.contents.Typed id := by
  obtain ⟨c, ⟨-, t, ht, hcontents⟩, hstore⟩ := Statement.accepted (step_eq_ok.mp h).2.1
  have hrow : (⟨id, scope, subject, predicate, true, 1⟩ : AssertionRow)
      ∈ σ'.store.contents.assertions := by
    rw [hstore, hcontents]
    exact Table.mem_insert?_self ht
  exact ⟨_, hrow, rfl, rfl⟩

/-- A relation is written as it may be, with its receipt. -/
theorem does_createRelation (h : Underway c σ) (data : CreateRelation) (key : String) :
    Does c (SqlGraph.createRelation c.platform data key)
      (fun r σ' => Done c .createRelation key (compactText data.dump) r σ') n σ := by
  refine does_readOnly_bind (readOnly_scope _ _) fun _ n₀ => ?_
  refine does_once_receipt h does_pure_receipt fun n₁ => ?_
  refine does_readOnly_bind (readOnly_endpoint _ _) fun source n₂ => ?_
  refine does_readOnly_bind (readOnly_endpoint _ _) fun target n₃ => ?_
  refine does_readOnly_bind (readOnly_validateEvidence _ _) fun _ n₄ => ?_
  refine does_newObject h fun id n₅ σ₁ hf₁ hid => does_send hid fun _ σ₂ hstep hf₂ => ?_
  refine does_send ⟨hid, typed_of_insertAssertion hstep⟩ fun _ σ₃ _ hf₃ => ?_
  have hσ₃ := ((h.follows hf₁).follows hf₂).follows hf₃
  refine does_bind (does_insertRevision hσ₃ id data.scopeId 1 _) fun _ n₆ σ₄ hf₄ hnew => ?_
  refine does_send hnew fun _ σ₅ _ hf₅ => does_audit fun n₇ σ₆ hf₆ => ?_
  have hf := ((((hf₁.trans hf₂).trans hf₃).trans hf₄).trans hf₅).trans hf₆
  refine does_saveResult (Store.digest_eq hf.grown _).symm (Store.digest_eq hf.grown _).symm ?_
    (fun _ => trivial) fun n₈ σ₇ hf₇ hdone => does_pure hdone
  exact fun id' hid' => List.mem_singleton.mp hid' ▸ (h.follows hf).untombstoned hid

/-- A corrected relation is written as it may be, with its receipt. -/
theorem does_reviseRelation (h : Underway c σ) (assertionId : UUID) (data : ReviseRelation)
    (key : String) :
    Does c (SqlGraph.reviseRelation c.platform assertionId data key)
      (fun r σ' => Done c .reviseRelation key (objectPayload "memory_id" assertionId data.dump) r σ')
      n σ := by
  refine does_object_bind h fun o n₀ _ _ hfree => does_read (does_found fun head _ => ?_)
  refine does_once_receipt h does_pure_receipt fun n₁ => ?_
  refine does_demand fun _ => does_demand fun _ => ?_
  refine does_readOnly_bind (readOnly_endpoint _ _) fun target n₂ => ?_
  refine does_readOnly_bind (readOnly_validateEvidence _ _) fun _ n₃ => ?_
  refine does_bind (does_insertRevision h assertionId o.scopeId _ _) fun _ n₄ σ₁ hf₁ hnew => ?_
  refine does_send hnew fun _ σ₂ _ hf₂ => does_audit fun n₅ σ₃ hf₃ => ?_
  have hf := (hf₁.trans hf₂).trans hf₃
  refine does_saveResult (Store.digest_eq hf.grown _).symm (Store.digest_eq hf.grown _).symm ?_
    (fun _ => trivial) fun n₆ σ₄ hf₄ hdone => does_pure hdone
  exact fun id hid => List.mem_singleton.mp hid ▸ hfree.of_grown hf.grown

end PgAgmemory

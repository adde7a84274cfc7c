import PgAgmemory.System.Reading
import PgAgmemory.System.Writers

/-! # What every operation shares

`Underway` is what a session has in the middle of any operation but `forget`: the store has only
grown since the start. Under it the shared steps have one specification each: a looked-up object is not
deleted (`does_object`), a new object is new since the start (`does_newObject`), a stored receipt
names objects that are not deleted (`does_replay`), and a saved receipt stays (`Done`). -/

namespace PgAgmemory

open Keyed (HasKey Table key)
open Interactive.Program (ReadOnly)
open MemoryService

/-- **The middle of an operation.** -/
structure Underway (c : Setting) (σ : Session) : Prop where
  foreign : ForeignKeys c.start
  grown : Grown c.start σ.store
  backed : c.Distinct σ → AllBacked c.platform c.texts σ.store

/-- The start of an operation. -/
theorem Underway.start {c : Setting} (h : ForeignKeys c.start) (principal : UUID) :
    Underway c (.start principal c.start) := ⟨h, .refl _, Setting.Distinct.backed⟩

/-- A request under way stays so. -/
theorem Underway.follows {c : Setting} {σ σ' : Session} (h : Underway c σ) (hf : σ.Follows c σ') :
    Underway c σ' :=
  ⟨h.foreign, h.grown.trans hf.grown, fun hdistinct =>
    hf.backed hdistinct (h.backed (hdistinct.of_grown hf.grown))⟩

/-- **A covered text**: the texts of the setting have it, from a session on. -/
def Setting.Covers (c : Setting) (σ : Session) (text : String) : Prop :=
  ∀ σ', σ.Follows c σ' → c.Distinct σ' → text ∈ c.texts

/-- A covered text is one of the request's where the digests are told apart. -/
theorem Setting.Covers.here {c : Setting} {σ : Session} {text : String} (h : c.Covers σ text)
    (hdistinct : c.Distinct σ) : text ∈ c.texts := h σ (.refl c σ) hdistinct

/-- A covered text stays so. -/
theorem Setting.Covers.follows {c : Setting} {σ σ' : Session} {text : String} (h : c.Covers σ text)
    (hf : σ.Follows c σ') : c.Covers σ' text := fun σ'' hf' => h σ'' (hf.trans hf')

/-- The texts of the request are covered. -/
theorem Setting.covers {c : Setting} {request : Request} (hrequest : c.request = request)
    {text : String} (h : ∀ s, text ∈ request.texts c.platform s) (σ : Session) : c.Covers σ text :=
  fun σ' _ hdistinct => hdistinct.covered (hrequest ▸ h σ'.store)

/-- Tombstones mark objects throughout. -/
theorem Underway.marked {c : Setting} {σ : Session} (h : Underway c σ) : Marked σ.store := by
  intro t ht k hk
  have hstart : t ∈ c.start.anchor.tombstones.rows := h.grown.tombstones ▸ ht
  obtain ⟨o, ho, hkey⟩ := h.foreign.marked t hstart k hk
  exact ⟨o, h.grown.objects o ho, hkey⟩

/-- A new object is not deleted. -/
theorem Underway.untombstoned {c : Setting} {σ : Session} (h : Underway c σ) {id : UUID}
    (hid : Fresh c.start id) : Untombstoned σ.store id := by
  intro t ht heq
  rw [h.grown.tombstones] at ht
  obtain ⟨o, ho, hkey⟩ := h.foreign.marked.exists_parent ht rfl
  exact hid o ho ((Prod.mk.inj hkey).1.trans heq)

/-- **Digests of known texts determine the texts.** -/
theorem Underway.text_eq {c : Setting} {σ : Session} (h : Underway c σ) (hdistinct : c.Distinct σ)
    {text text' : String} (hdigested : Digested c.platform c.texts σ.store text
      (σ.store.digest c.platform text')) (htext' : text' ∈ c.texts) : text = text' := by
  refine hdistinct.injective hdigested.1 htext' ?_
  have heq := hdigested.2
  rw [Store.digest, Store.digest, h.grown.access] at heq
  exact heq.symm

/-! ## Receipts -/

/-- **An operation is done**: its receipt is stored, and names no deleted object. -/
structure Done (c : Setting) (operation : Operation) (key payload : String) (result : Receipt)
    (σ : Session) : Prop where
  saved : (⟨σ.principal, operation, σ.store.digest c.platform key,
    σ.store.digest c.platform payload, result⟩ : IdempotencyRow) ∈ σ.store.operations.receipts
  live : ∀ id ∈ result.objects, Untombstoned σ.store id

/-- What is done stays done. -/
theorem Done.follows {c : Setting} {operation : Operation} {key payload : String}
    {result : Receipt} {σ σ' : Session} (h : Done c operation key payload result σ)
    (hf : σ.Follows c σ') : Done c operation key payload result σ' := by
  refine ⟨?_, fun id hid => (h.live id hid).of_grown hf.grown⟩
  have hrow := hf.grown.receipts _ h.saved
  rw [Store.digest_eq hf.grown, Store.digest_eq hf.grown, hf.principal]
  exact hrow

/-- What the receipt of a finished operation rests on. -/
theorem Done.backed {c : Setting} {operation : Operation} {key payload : String}
    {result : Receipt} {σ : Session} (h : Done c operation key payload result σ)
    (hσ : Underway c σ) (hdistinct : c.Distinct σ) :
    Backed c.platform c.texts σ.store σ.principal (σ.store.digest c.platform payload) operation
      result := hσ.backed hdistinct _ h.saved

section Rules

variable {c : Setting} {α β : Type} {n : Nat} {σ : Session}

/-- A loop that only reads, and what each pass finds. -/
theorem does_forEach_reading {xs : List α} {f : α → Tx Unit} {P : α → Prop}
    (h : ∀ x ∈ xs, ∀ n', Does c (f x) (fun _ σ' => σ' = σ ∧ P x) n' σ) :
    Does c (forEach xs f) (fun _ σ' => σ' = σ ∧ ∀ x ∈ xs, P x) n σ := by
  unfold forEach
  rw [List.forM_eq_forM]
  induction xs generalizing n with
  | nil => exact does_pure ⟨rfl, fun _ hx => absurd hx List.not_mem_nil⟩
  | cons x xs ih =>
    rw [List.forM_cons]
    refine does_bind (h x List.mem_cons_self n) ?_
    rintro - n' σ' - ⟨rfl, hx⟩
    refine (ih fun y hy => h y (List.mem_cons_of_mem x hy)).mono ?_
    rintro - σ'' - ⟨rfl, hxs⟩
    exact ⟨rfl, List.forall_mem_cons.mpr ⟨hx, hxs⟩⟩

/-- **Looking up an object**: it exists and is not deleted. -/
theorem does_object (h : Underway c σ) (id : UUID) (permission : Permission) :
    Does c (object id permission)
      (fun o σ' => σ' = σ ∧ o ∈ σ.store.anchor.objects ∧ o.id = id ∧ Untombstoned σ.store id)
      n σ := by
  refine does_read (does_found fun o ho => ?_)
  obtain ⟨hmem, hid, hread⟩ := View.object?_eq_some.mp ho
  refine does_readOnly_bind (readOnly_scope _ _) fun _ n' => does_pure ⟨rfl, hmem, hid, ?_⟩
  rw [← hid]
  exact ((View.readable_iff h.marked hmem).mp hread).2

/-- A program that begins by looking up an object. -/
theorem does_object_bind (h : Underway c σ) {id : UUID} {permission : Permission}
    {k : ObjectRow → Tx β} {R : β → Session → Prop}
    (hk : ∀ o n', o ∈ σ.store.anchor.objects → o.id = id → Untombstoned σ.store id →
      Does c (k o) R n' σ) : Does c (object id permission >>= k) R n σ := by
  refine does_bind (does_object h id permission) ?_
  rintro o n' σ' - ⟨rfl, hmem, hid, hfree⟩
  exact hk o n' hmem hid hfree

/-- **A new object** was not there at the start. -/
theorem does_newObject (h : Underway c σ) {scopeId : UUID} {kind : ObjectKind} {k : UUID → Tx β}
    {R : β → Session → Prop}
    (hk : ∀ id n' σ', σ.Follows c σ' → Fresh c.start id → Does c (k id) R n' σ') :
    Does c (newObject scopeId kind >>= k) R n σ := by
  have hsend : Does c (newObject scopeId kind) (fun id _ => Fresh c.start id) n σ := by
    refine does_drawUUID (does_send trivial fun r σ' hstep _ => does_pure ?_)
    obtain ⟨-, hexec, -⟩ := step_eq_ok.mp hstep
    simp only [Statement.exec, insertObject, bind_eq_ok, insertRow_eq_ok] at hexec
    obtain ⟨_, ⟨_, _, objects, hinsert, _⟩, _⟩ := hexec
    have hfresh : Fresh σ.store (c.timeline.moment n).uuid :=
      (Table.insert?_eq_some_iff.mp hinsert).1
    exact hfresh.of_grown h.grown
  exact does_bind hsend fun id n' σ' hf hid => hk id n' σ' hf hid

/-- **The stored receipt of a key**: it carries the digest of the payload, and its objects are not
deleted. -/
theorem does_replay (h : Underway c σ) (operation : Operation) (key payload : String) :
    Does c (replay c.platform operation key payload)
      (fun r σ' => σ' = σ ∧ r.1 = σ.store.digest c.platform key
        ∧ r.2.1 = σ.store.digest c.platform payload
        ∧ ∀ result, r.2.2 = some result → Done c operation key payload result σ) n σ := by
  refine does_read (does_read (does_read ?_))
  split
  next hrow =>
    refine does_pure ⟨rfl, rfl, rfl, fun result hresult => ?_⟩
    cases hresult
  next row hrow =>
    refine does_demand fun hdigest => ?_
    have hlive : Does c (checkReceipt row.result)
        (fun _ σ' => σ' = σ ∧ ∀ id ∈ row.result.objects, Untombstoned σ.store id)
        (n + 1 + 1 + 1) σ := by
      refine does_bind (does_forEach_reading (P := fun id => Untombstoned σ.store id)
        fun id _ n' => does_object_bind h fun o n'' _ _ hfree => does_pure ⟨rfl, hfree⟩) ?_
      rintro - n' σ' - ⟨rfl, hfree⟩
      exact (does_readOnly (readOnly_forEach fun _ => readOnly_scope _ _)).mono
        fun _ _ _ heq => ⟨heq, hfree⟩
    refine does_bind hlive ?_
    rintro - n' σ' - ⟨rfl, hfree⟩
    refine does_pure ⟨rfl, rfl, rfl, fun result hresult => ?_⟩
    cases hresult
    obtain ⟨hmem, hkey⟩ := Table.find?_eq_some_iff.mp hrow
    obtain ⟨hprincipal, hkey⟩ := Prod.mk.inj hkey
    obtain ⟨hoperation, hkey⟩ := Prod.mk.inj hkey
    refine ⟨?_, hfree⟩
    have hrequest : row.requestDigest = σ'.store.digest c.platform payload := of_decide_eq_true hdigest
    have heta : row = ⟨σ'.principal, operation, σ'.store.digest c.platform key,
        σ'.store.digest c.platform payload, row.result⟩ := by
      cases row
      cases hprincipal
      cases hoperation
      cases hkey
      cases hrequest
      rfl
    exact heta ▸ hmem

/-- **Once a key**: the stored receipt or the fresh part. -/
theorem does_once (h : Underway c σ) {operation : Operation} {key payload : String}
    {replayed : Receipt → Tx α} {fresh : Digest → Digest → Tx α} {R : α → Session → Prop}
    (hreplayed : ∀ result n', Done c operation key payload result σ →
      Does c (replayed result) R n' σ)
    (hfresh : ∀ n', Does c (fresh (σ.store.digest c.platform key)
      (σ.store.digest c.platform payload)) R n' σ) :
    Does c (once c.platform operation key payload replayed fresh) R n σ := by
  refine does_bind (does_replay h operation key payload) ?_
  rintro ⟨kd, rd, previous⟩ n' σ' - ⟨rfl, rfl, rfl, hprevious⟩
  cases previous with
  | none => exact hfresh n'
  | some result => exact hreplayed result n' (hprevious result rfl)

/-- Once a key, where the stored receipt is returned after some reading. -/
theorem does_once_receipt (h : Underway c σ) {operation : Operation} {key payload : String}
    {replayed : Receipt → Tx Receipt} {fresh : Digest → Digest → Tx Receipt}
    (hreplayed : ∀ result n', Does c (replayed result) (fun r σ' => σ' = σ ∧ r = result) n' σ)
    (hfresh : ∀ n', Does c (fresh (σ.store.digest c.platform key)
      (σ.store.digest c.platform payload))
        (fun r σ' => Done c operation key payload r σ') n' σ) :
    Does c (once c.platform operation key payload replayed fresh)
      (fun r σ' => Done c operation key payload r σ') n σ := by
  refine does_once h (fun result n' hdone => ?_) hfresh
  refine (hreplayed result n').mono ?_
  rintro r σ' - ⟨rfl, rfl⟩
  exact hdone

/-- A stored receipt that is returned as it is. -/
theorem does_pure_receipt (result : Receipt) (n : Nat) :
    Does c (pure result : Tx Receipt) (fun r σ' => σ' = σ ∧ r = result) n σ := does_pure ⟨rfl, rfl⟩

/-- A stored receipt that is returned after some reading. -/
theorem does_checked_receipt {p : Tx Unit} (hp : ReadOnly p) (result : Receipt) (n : Nat) :
    Does c (p >>= fun _ => pure result) (fun r σ' => σ' = σ ∧ r = result) n σ :=
  does_readOnly_bind hp fun _ _ => does_pure ⟨rfl, rfl⟩

/-- **Saving a receipt.** -/
theorem does_saveResult {operation : Operation} {key payload : String} {kd rd : Digest}
    {result : Receipt} {k : Unit → Tx β} {R : β → Session → Prop}
    (hkd : kd = σ.store.digest c.platform key) (hrd : rd = σ.store.digest c.platform payload)
    (hlive : ∀ id ∈ result.objects, Untombstoned σ.store id)
    (hbacked : c.Distinct σ → Backed c.platform c.texts σ.store σ.principal rd operation result)
    (hk : ∀ n' σ', σ.Follows c σ' → Done c operation key payload result σ' →
      Does c (k ()) R n' σ') :
    Does c (saveResult operation kd rd result >>= k) R n σ := by
  have hallow : Writes c σ (.operation (.saveResult operation kd rd result)) := ⟨hlive, hbacked⟩
  refine does_send hallow fun r σ' hstep hf => hk _ σ' hf ⟨?_, fun id hid =>
    (hlive id hid).of_grown hf.grown⟩
  obtain ⟨-, hexec, -⟩ := step_eq_ok.mp hstep
  simp only [Statement.exec, OperationStatement.exec, bind_eq_ok, insertRow_eq_ok] at hexec
  obtain ⟨o, ⟨t, hinsert, hpure⟩, hpure'⟩ := hexec
  cases hpure
  have hstore : σ'.store.operations.receipts = t := by
    have heq := (Prod.mk.inj (Except.ok.inj hpure')).2
    rw [← heq]
  rw [hstore, Store.digest_eq hf.grown, Store.digest_eq hf.grown, hf.principal, ← hkd, ← hrd]
  exact Table.mem_insert?_self hinsert

/-- Writing to the audit log. -/
theorem does_audit {action : String} {target : UUID} {k : Unit → Tx β} {R : β → Session → Prop}
    (hk : ∀ n' σ', σ.Follows c σ' → Does c (k ()) R n' σ') :
    Does c (audit action target >>= k) R n σ :=
  does_send trivial fun _ σ' _ hf => hk _ σ' hf

/-- The segmentation of a text only reads. -/
theorem does_segment {text : String} {k : String → Tx β} {R : β → Session → Prop}
    (hk : ∀ segmented n', Does c (k segmented) R n' σ) :
    Does c (segment c.platform text >>= k) R n σ :=
  does_readOnly_bind (readOnly_segment c.platform text) hk

end Rules

end PgAgmemory

import PgAgmemory.Forgetting.Run
import PgAgmemory.History.Effects
import PgAgmemory.System.Outcomes

/-! # Statements that are accepted

When a statement succeeds, said in the terms of the store: the rows that its triggers look up are there,
its checks hold and its new row meets the constraints. With these a program is followed to its end. -/

namespace PgAgmemory

open Keyed (HasKey Table key)
open Keyed.Table (References)
open Interactive (Program)

section Rules

variable {platform : Platform} {timeline : Timeline} {α : Type} {n : Nat} {σ : Session}
  {Q : α → Nat → Session → Prop} {F : Fault → Prop}

/-- A statement that succeeds is sent. -/
theorem outcome_sent {st : Statement} {k : Unit → Tx α} {r : Returned} {σ' : Session}
    (hstep : step platform st (timeline.moment n) σ = .ok (r, σ'))
    (hk : Outcome platform timeline (k ()) Q F (n + 1) σ') :
    Outcome platform timeline (send st >>= k) Q F n σ := by
  refine outcome_send (fun r' σ'' hrun => ?_) fun fault hfault => ?_
  · cases hstep.symm.trans hrun
    exact hk
  · cases hstep.symm.trans hfault

/-- **The audit log takes every entry.** -/
theorem step_audit (platform : Platform) (hforeign : ForeignKeys σ.store) (hunique : UniqueKeys σ.store)
    (haudit : AuditFresh σ.store) (action : String) (target : UUID) (m : Moment) :
    ∃ entry : AuditEventRow, ∃ t, entry.id = σ.store.operations.nextAudit
      ∧ σ.store.operations.audit.insert? entry = some t
      ∧ step platform (.operation (.audit action target)) m σ
        = .ok (.done, { σ with store.operations.audit := t, store.operations.nextAudit := σ.store.operations.nextAudit + 1 }) := by
  let entry : AuditEventRow :=
    ⟨σ.store.operations.nextAudit, σ.principal, action, target, m.clock 0⟩
  obtain ⟨t, ht⟩ := Table.exists_insert? (t := σ.store.operations.audit) (r := entry)
    fun r hr => Nat.ne_of_lt (haudit r hr)
  exact ⟨entry, t, rfl, ht, step_operation platform _ m σ hforeign hunique
    (bind_eq_ok.mpr ⟨t, insertRow_eq_ok.mpr ht, rfl⟩) rfl⟩

/-- **A receipt is saved** under a key that has none. -/
theorem step_saveResult (platform : Platform) (hforeign : ForeignKeys σ.store) (hunique : UniqueKeys σ.store)
    {operation : Operation} {keyDigest : Digest}
    (hfree : ∀ r ∈ σ.store.operations.receipts, key r ≠ (σ.principal, operation, keyDigest))
    (requestDigest : Digest) (result : Receipt) (m : Moment) :
    ∃ t, σ.store.operations.receipts.insert?
        ⟨σ.principal, operation, keyDigest, requestDigest, result⟩ = some t
      ∧ step platform (.operation (.saveResult operation keyDigest requestDigest result)) m σ
        = .ok (.done, { σ with store.operations.receipts := t }) := by
  obtain ⟨t, ht⟩ := Table.exists_insert? (t := σ.store.operations.receipts)
    (r := ⟨σ.principal, operation, keyDigest, requestDigest, result⟩) hfree
  exact ⟨t, ht, step_operation platform _ m σ hforeign hunique
    (bind_eq_ok.mpr ⟨t, insertRow_eq_ok.mpr ht, rfl⟩) rfl⟩

/-! ## The next revision of an effect -/

/-- The effects of the ledger with the head of one moved, and a revision more. -/
def Ledger.extended (l : Ledger) (id : UUID) (revision : Nat) (t : Table ToolEffectRevisionRow) :
    Ledger :=
  { l with effects := moveEffectHead l.effects id revision, revisions := t }

theorem LedgerKeys.extended {s : Store} (h : LedgerKeys s) {id : UUID} {revision : Nat}
    {row : ToolEffectRevisionRow} {t : Table ToolEffectRevisionRow}
    (ht : s.ledger.revisions.insert? row = some t) (heffect : ∃ e ∈ s.ledger.effects, e.id = row.effectId) :
    LedgerKeys { s with ledger := s.ledger.extended id revision t } where
  effect_object := by
    apply References.update h.effect_object
    all_goals exact fun _ => rfl
  effect_run := by
    apply References.update h.effect_run
    all_goals exact fun _ => rfl
  revision_effect := by
    apply References.insert_child _ ht
    · intro k hk
      cases hk
      obtain ⟨e, he, hid⟩ := heffect
      exact ⟨_, mem_moveEffectHead_iff.mpr ⟨e, he, rfl⟩, by split <;> exact hid⟩
    · apply References.update_parent h.revision_effect
      all_goals exact fun _ => rfl
  reference_effect := by
    apply References.update_parent h.reference_effect
    all_goals exact fun _ => rfl
  reference_source := h.reference_source
  reference_episode := h.reference_episode
  reference_revision := h.reference_revision
  reference_entity := h.reference_entity
  identity_object := h.identity_object

/-- Moving heads keeps the constraints. -/
theorem keys_extended {s : Store} (id : UUID) (revision : Nat) (hforeign : ForeignKeys s)
    (hunique : UniqueKeys s) {row : ToolEffectRevisionRow} {t : Table ToolEffectRevisionRow}
    (ht : s.ledger.revisions.insert? row = some t)
    (heffect : ∃ e ∈ s.ledger.effects, e.id = row.effectId) :
    ForeignKeys { s with ledger := s.ledger.extended id revision t }
      ∧ UniqueKeys { s with ledger := s.ledger.extended id revision t } := by
  obtain ⟨hcontent, hgraph, hcheckpoint, hledger, hqueue⟩ := hforeign
  refine ⟨⟨?_, ?_, ?_, hledger.extended ht heffect, ?_⟩, ?_⟩
  · cases hcontent
    constructor <;> assumption
  · cases hgraph
    constructor <;> assumption
  · cases hcheckpoint
    constructor <;> assumption
  · cases hqueue
    constructor <;> assumption
  · obtain ⟨hrevision, hcheckpoint, heffect, hjob⟩ := hunique
    refine ⟨hrevision, hcheckpoint, ?_, hjob⟩
    have hsame : (moveEffectHead s.ledger.effects id revision).rows.map
        (fun e => (e.scopeId, e.runId, e.operationId))
        = s.ledger.effects.rows.map fun e => (e.scopeId, e.runId, e.operationId) := by
      rw [moveEffectHead, Table.update, List.map_map]
      refine List.map_congr_left fun e _ => ?_
      rw [Function.comp_apply]
      split <;> rfl
    exact hsame ▸ heffect

/-- **The next revision of an effect is accepted**: it follows the current one, later. -/
theorem step_nextRevision (platform : Platform) (new : NewEffectRevision)
    (hforeign : ForeignKeys σ.store) (hunique : UniqueKeys σ.store) {m : Moment}
    {e : ToolEffectRow} {r : ToolEffectRevisionRow}
    (heffect : (σ.view m).effect? e.id = some e)
    (hrevision : (σ.view m).effectRevision? e.id e.currentRevision = some r)
    (hwritable : (σ.view m).writable e.id = true) (hrecorded : σ.store.ledger.Recorded e)
    (hid : new.effectId = e.id)
    (hnext : new.revision = e.currentRevision + 1) (hfollows : follows r.status new.status = true)
    (horigin : new.origin = .api)
    (hactive : (decide (new.status = .dispatched) && runInvalidated (σ.view m) e.id) = false)
    (hchecks : new.checks = true) (htexts : (LedgerStatement.insertRevision new).texts.all storable = true)
    (hlater : r.recordedAt < m.clock 0) :
    ∃ t, σ.store.ledger.revisions.insert? (new.row (σ.view m) m) = some t
      ∧ step platform (.ledger (.insertRevision new)) m σ
        = .ok (.done, { σ with
            store.ledger := σ.store.ledger.extended e.id new.revision t
            deferred := σ.deferred ++ [.toolEffect e.id] }) := by
  obtain ⟨hmem, -⟩ := Table.find?_eq_some_iff.mp (Option.filter_eq_some_iff.mp heffect).1
  obtain ⟨hr, hkey⟩ := Table.find?_eq_some_iff.mp (Option.filter_eq_some_iff.mp hrevision).1
  obtain ⟨hof, hcurrent⟩ := Prod.mk.inj hkey
  have hpositive : 1 ≤ e.currentRevision := by
    have hone := hrecorded.positive r ⟨hr, hof⟩
    rwa [hcurrent] at hone
  -- the number is free: no revision is beyond the head
  obtain ⟨t, ht⟩ := Table.exists_insert? (t := σ.store.ledger.revisions)
    (r := new.row (σ.view m) m) fun q hq hsame => by
      obtain ⟨hqid, hqnumber⟩ := Prod.mk.inj hsame
      have hbound := hrecorded.bounded q ⟨hq, hqid.trans hid⟩
      have hnumber : q.revision = new.revision := hqnumber
      omega
  obtain ⟨hforeign', hunique'⟩ := keys_extended e.id new.revision hforeign hunique
    ht ⟨e, hmem, hid.symm⟩
  refine ⟨t, ht, step_eq_ok.mpr ⟨htexts, ?_, ⟨hforeign', hunique'⟩, rfl, ?_⟩⟩
  · have hadopt : adoptEffectRevision (σ.view m) m new
        = .ok (moveEffectHead σ.store.ledger.effects e.id new.revision) := by
      have hhead : ((σ.view m).effect? new.effectId).filter
          (fun _ => (σ.view m).writable new.effectId) = some e := by
        rw [hid, heffect, Option.filter_some, if_pos hwritable]
      refine bind_eq_ok.mpr ⟨e, requireSome_eq_ok.mpr hhead, bind_eq_ok.mpr
        ⟨(), require_eq_ok.mpr ?_, ?_⟩⟩
      · rw [hid, hactive]
        rfl
      rw [if_neg (by omega)]
      refine bind_eq_ok.mpr ⟨r, requireSome_eq_ok.mpr (hid ▸ hrevision), bind_eq_ok.mpr
        ⟨(), require_eq_ok.mpr ?_, ?_⟩⟩
      · rw [transitionAdoptable, decide_eq_true hnext, hfollows, decide_eq_true horigin]
        rfl
      rw [if_neg (not_le.mpr hlater)]
      refine bind_eq_ok.mpr ⟨(), require_eq_ok.mpr ?_, ?_⟩
      · rw [NewEffectRevision.checks, Bool.and_eq_true] at hchecks
        exact hchecks.1
      · rw [← hid]
        rfl
    exact bind_eq_ok.mpr ⟨_, bind_eq_ok.mpr ⟨_, hadopt, bind_eq_ok.mpr
      ⟨(), require_eq_ok.mpr (hid ▸ hwritable), bind_eq_ok.mpr ⟨(), require_eq_ok.mpr hchecks,
        bind_eq_ok.mpr ⟨t, insertRow_eq_ok.mpr ht, rfl⟩⟩⟩⟩, rfl⟩
  · rw [← hid]
    rfl

end Rules

end PgAgmemory

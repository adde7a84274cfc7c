import PgAgmemory.Forgetting.Purge

/-! # The run of a purge

After the deletion statements a purge marks what its marking statement can still read and records the
deletion under a drawn id (`run_purge`); nothing but a taken id stops it before the commit. The commit
refuses exactly when a current revision was erased without its head (`commit_purged`). -/

namespace PgAgmemory

open Keyed (HasKey Table key)
open Keyed.Table (References)
open Interactive (Program)

section Run

variable {timeline : Timeline} {principal : UUID} {s : Store} {targets : List UUID} {n : Nat}

/-! ## The marks -/

/-- The tombstones of objects that can be deleted and are not marked yet. -/
theorem insertTombstones_eq_ok {v : View} {m : Moment} (os : List ObjectRow) (t : Table TombstoneRow)
    (hdelete : ∀ o ∈ os, v.permitted o.scopeId .delete = true) (hnodup : (os.map ObjectRow.id).Nodup)
    (hfresh : ∀ o ∈ os, ∀ r ∈ t, r.objectId ≠ o.id) :
    ∃ t', insertTombstones v m os t = .ok t' ∧
      ∀ r, r ∈ t' ↔ r ∈ t ∨ ∃ o ∈ os, r = ⟨o.id, o.scopeId, m.clock 0⟩ := by
  induction os generalizing t with
  | nil => exact ⟨t, rfl, fun r => by simp⟩
  | cons o os ih =>
    rw [List.map_cons, List.nodup_cons] at hnodup
    obtain ⟨t₁, hinsert⟩ := Table.exists_insert? (t := t) (r := ⟨o.id, o.scopeId, m.clock 0⟩)
      (hfresh o List.mem_cons_self)
    obtain ⟨t', hrest, hmem⟩ := ih t₁ (fun o' ho' => hdelete o' (List.mem_cons_of_mem _ ho'))
      hnodup.2 fun o' ho' r hr => by
        rcases (Table.mem_insert? hinsert).mp hr with rfl | hr
        · exact fun heq => hnodup.1 (List.mem_map.mpr ⟨o', ho', heq.symm⟩)
        · exact hfresh o' (List.mem_cons_of_mem _ ho') r hr
    refine ⟨t', ?_, fun r => ?_⟩
    · simp only [insertTombstones, bind_eq_ok, require_eq_ok, insertRow_eq_ok]
      exact ⟨(), hdelete o List.mem_cons_self, t₁, hinsert, hrest⟩
    · rw [hmem r, Table.mem_insert? hinsert, List.exists_mem_cons_iff]
      tauto

/-- **The marks of a purge**: the tombstones of the targets in the scopes that the marking statement
can read. -/
def Marks (timeline : Timeline) (principal : UUID) (s : Store) (targets : List UUID) (k : Nat)
    (tombstones : Table TombstoneRow) : Prop :=
  ∀ t, t ∈ tombstones ↔ t ∈ s.anchor.tombstones ∨ ∃ o ∈ s.anchor.objects, o.id ∈ targets
    ∧ (viewAt timeline principal s k).permitted o.scopeId .read = true
    ∧ t = ⟨o.id, o.scopeId, (timeline.moment k).clock 0⟩

/-- Marks name objects of their own scope. -/
theorem Marks.references {k : Nat} {tombstones : Table TombstoneRow} (hmarked : Marked s)
    (h : Marks timeline principal s targets k tombstones) :
    References tombstones (fun r => some (r.objectId, r.scopeId)) s.anchor.objects
      (fun o => (o.id, o.scopeId)) := by
  intro t ht key hkey
  rcases (h t).mp ht with hold | ⟨o, ho, -, -, rfl⟩
  · exact hmarked t hold key hkey
  · exact ⟨o, ho, Option.some.inj hkey⟩

/-- Keys do not depend on permissions, receipts or marks of the same objects. -/
theorem ForeignKeys.beside (h : ForeignKeys s) (access : Access) {tombstones : Table TombstoneRow}
    (hmarks : References tombstones (fun r => some (r.objectId, r.scopeId)) s.anchor.objects
      (fun o => (o.id, o.scopeId)))
    {operations : Operations} (hevents : operations.sourceEvents = s.operations.sourceEvents) :
    ForeignKeys { s with
      access := access, anchor.tombstones := tombstones, operations := operations } := by
  obtain ⟨hcontent, hgraph, hcheckpoint, hledger, hqueue⟩ := h
  refine ⟨?_, ?_, ?_, ?_, ?_⟩
  · cases hcontent
    constructor <;> assumption
  · cases hgraph
    constructor <;> assumption
  · cases hcheckpoint
    constructor <;> assumption
  · cases hledger
    constructor <;> assumption
  · cases hqueue with
    | mk job retry result input source identity event =>
      exact ⟨job, retry, result, input, source, identity, hevents ▸ event⟩

/-- **The store that a purge leaves**: the erasure, the marks, the next deletion epoch and what the
purge records. -/
def Store.purged (s : Store) (gone : Gone) (tombstones : Table TombstoneRow)
    (operations : Operations) : Store :=
  { s.erase gone with
    access.deletionEpoch := s.access.deletionEpoch + 1
    anchor.tombstones := tombstones
    operations := operations }

/-- **What a purge records**: the deletion, its receipt and an audit entry. -/
structure Records (s : Store) (deletion : DeletionRequestRow) (receipt : IdempotencyRow)
    (entry : AuditEventRow) (operations : Operations) : Prop where
  sourceEvents : operations.sourceEvents = s.operations.sourceEvents
  deletions : ∀ r, r ∈ operations.deletions ↔ r = deletion ∨ r ∈ s.operations.deletions
  receipts : ∀ r, r ∈ operations.receipts ↔ r = receipt ∨ r ∈ s.operations.receipts
  audit : ∀ r, r ∈ operations.audit ↔ r = entry ∨ r ∈ s.operations.audit
  nextAudit : operations.nextAudit = s.operations.nextAudit + 1

/-- The ids of the audit log are below its next id. -/
def AuditFresh (s : Store) : Prop := ∀ r ∈ s.operations.audit, r.id < s.operations.nextAudit

/-! ## The run -/

section Platform

variable (platform : Platform)

variable {platform} in
/-- Go on after a part that succeeds. -/
theorem runFrom_bind_ok {α β : Type} {p : Tx α} {k : α → Tx β} {m : Nat} {session session' : Session}
    {a : α} (h : runFrom platform timeline p n session = .ok (a, m, session')) :
    runFrom platform timeline (p >>= k) n session = runFrom platform timeline (k a) m session' := by
  rw [runFrom] at h ⊢
  rw [Program.run_bind, h]

variable {platform} in
/-- Read, and go on. -/
theorem runFrom_read {α β : Type} {query : View → α} {k : α → Tx β} {session : Session} :
    runFrom platform timeline (read query >>= k) n session
      = runFrom platform timeline (k (query (session.view (timeline.moment n)))) (n + 1) session :=
  rfl

variable {platform} in
/-- What runs alike goes on alike. -/
theorem runFrom_bind_congr {α β : Type} {p p' : Tx α} {k : α → Tx β} {m : Nat}
    {session session' : Session}
    (h : runFrom platform timeline p n session = runFrom platform timeline p' m session') :
    runFrom platform timeline (p >>= k) n session
      = runFrom platform timeline (p' >>= k) m session' := by
  rw [runFrom, runFrom] at h ⊢
  rw [Program.run_bind, Program.run_bind, h]

variable {platform} in
/-- Stop after a part that fails. -/
theorem runFrom_bind_error {α β : Type} {p : Tx α} {k : α → Tx β} {session : Session} {fault : Fault}
    (h : runFrom platform timeline p n session = .error fault) :
    runFrom platform timeline (p >>= k) n session = .error fault := by
  rw [runFrom] at h ⊢
  rw [Program.run_bind, h]

/-- Send a statement that is accepted, and go on. -/
theorem run_send {α : Type} {statement : Statement} {k : Unit → Tx α} {session session' : Session}
    {returned : Returned}
    (h : step platform statement (timeline.moment n) session = .ok (returned, session')) :
    runFrom platform timeline (send statement >>= k) n session
      = runFrom platform timeline (k ()) (n + 1) session' := by
  rw [send, Program.execute_bind, runFrom, Program.run_execute, h]
  rfl

/-- The deletion that a purge records. -/
def deletionOf (timeline : Timeline) (principal : UUID) (s : Store) (targets : List UUID) (n : Nat) :
    DeletionRequestRow :=
  ⟨(timeline.moment (n + 19)).uuid, principal, targets.length, s.access.deletionEpoch + 1,
    (timeline.moment (n + 20)).clock 0⟩

/-- The receipt of a purge. -/
def receiptOf (timeline : Timeline) (s : Store) (scopes targets : List UUID) (n : Nat) : Receipt :=
  .deletion (timeline.moment (n + 19)).uuid targets.length (s.access.deletionEpoch + 1) scopes

/-- The audit entry of a purge. -/
def entryOf (timeline : Timeline) (principal : UUID) (s : Store) (n : Nat) : AuditEventRow :=
  ⟨s.operations.nextAudit, principal, "forget", (timeline.moment (n + 19)).uuid,
    (timeline.moment (n + 22)).clock 0⟩

/-- **A purge erases and marks**, and then records the deletion under a drawn id. -/
theorem run_purge_marked (hs : Grounded s) (hu : UniqueKeys s)
    (h : Targets timeline principal s targets n) (scopes : List UUID) (keyDigest requestDigest : Digest) :
    ∃ D tombstones, (∀ d ∈ D, OfPurge s targets (goneAt timeline principal s targets n) d)
      ∧ Marks timeline principal s targets (n + 17) tombstones
      ∧ runFrom platform timeline (MemoryService.purge scopes targets keyDigest requestDigest) n
          ⟨principal, s, []⟩
        = runFrom platform timeline (do
            send (.operation (.insertDeletion (timeline.moment (n + 19)).uuid targets.length
              (s.access.deletionEpoch + 1)))
            MemoryService.saveResult .forget keyDigest requestDigest
              (receiptOf timeline s scopes targets n)
            MemoryService.audit "forget" (timeline.moment (n + 19)).uuid
            pure (receiptOf timeline s scopes targets n)) (n + 20)
          ⟨principal, s.purged (goneAt timeline principal s targets n) tombstones s.operations, D⟩ := by
  -- The seventeen statements that erase, then the one that marks what is still readable.
  obtain ⟨D, herase, hD⟩ := run_erase platform hs hu h []
  let gone := goneAt timeline principal s targets n
  let v : View := ⟨s.erase gone, principal, (timeline.moment (n + 17)).timestamp⟩
  have hkeys : ForeignKeys (s.erase gone) := hs.foreign.erase (coherent_goneAt hs h)
  have hmarked : Marked v.store := hkeys.marked
  have hreach : ∀ o, o ∈ v.objectsOf targets ↔ o ∈ s.anchor.objects ∧ o.id ∈ targets
      ∧ v.permitted o.scopeId .read = true := by
    intro o
    rw [View.objectsOf, List.mem_filter, Bool.and_eq_true, decide_eq_true_eq]
    refine and_congr_right fun ho => and_congr_right fun hid => ?_
    rw [View.readable_iff hmarked ho]
    exact and_iff_left (h.live o.id hid)
  obtain ⟨tombstones, hinsert, hmem⟩ := insertTombstones_eq_ok (v := v)
    (m := timeline.moment (n + 17)) (v.objectsOf targets) s.anchor.tombstones
    (fun o ho => by
      obtain ⟨hobject, hid, hread⟩ := (hreach o).mp ho
      exact h.deletes o.id hid o.scopeId ⟨o, hobject, rfl, rfl⟩ (n + 17) hread)
    (s.anchor.objects.nodup.sublist (List.filter_sublist.map _))
    (fun o ho t ht => by
      obtain ⟨-, hid, -⟩ := (hreach o).mp ho
      exact h.live o.id hid t ht)
  have hmarks : Marks timeline principal s targets (n + 17) tombstones := by
    intro t
    rw [hmem t]
    refine or_congr_right (exists_congr fun o => ?_)
    rw [hreach o, and_assoc, and_assoc]
    exact Iff.rfl
  have href := hmarks.references hs.foreign.marked
  have hunique := hu.erase gone
  have hmark : step platform (.insertTombstones targets) (timeline.moment (n + 17))
      ⟨principal, s.erase gone, D⟩
      = .ok (.done, ⟨principal, { s.erase gone with anchor.tombstones := tombstones }, D⟩) := by
    refine step_eq_ok.mpr ⟨rfl, ?_, ⟨hkeys.beside s.access href rfl, ?_⟩, rfl,
      (List.append_nil D).symm⟩
    · simp only [Statement.exec, bind_eq_ok]
      exact ⟨tombstones, hinsert, rfl⟩
    · cases hunique
      constructor <;> assumption
  have hbump : step platform .bumpDeletionEpoch (timeline.moment (n + 18))
      ⟨principal, { s.erase gone with anchor.tombstones := tombstones }, D⟩
      = .ok (.epoch (s.access.deletionEpoch + 1),
          ⟨principal, s.purged gone tombstones s.operations, D⟩) := by
    refine step_eq_ok.mpr ⟨rfl, rfl, ⟨hkeys.beside _ href rfl, ?_⟩, rfl, (List.append_nil D).symm⟩
    cases hunique
    constructor <;> assumption
  refine ⟨D, tombstones, hD, hmarks, ?_⟩
  rw [List.nil_append] at herase
  rw [MemoryService.purge, runFrom_bind_ok herase]
  refine (run_send platform hmark).trans ?_
  rw [MemoryService.bumpDeletionEpoch, sendReturning, Program.execute_bind, Program.execute_bind,
    runFrom, Program.run_execute, hbump]
  rfl

/-- A statement on the operation tables that keeps the source events is accepted when its insertion
is. -/
theorem step_operation (statement : OperationStatement) (m : Moment) (session : Session)
    {operations : Operations} (hforeign : ForeignKeys session.store)
    (hunique : UniqueKeys session.store)
    (hexec : statement.exec (session.view m) m = .ok operations)
    (hevents : operations.sourceEvents = session.store.operations.sourceEvents) :
    step platform (.operation statement) m session
      = .ok (.done, { session with store := { session.store with operations := operations } }) := by
  refine step_eq_ok.mpr ⟨rfl, ?_, ⟨?_, ?_⟩, rfl, (List.append_nil _).symm⟩
  · simp only [Statement.exec, hexec]
    rfl
  · exact hforeign.beside session.store.access hforeign.marked hevents
  · cases hunique
    constructor <;> assumption

/-- **A purge with a free deletion id runs to its end.** -/
theorem run_purge (hs : Grounded s) (hu : UniqueKeys s)
    (h : Targets timeline principal s targets n) (haudit : AuditFresh s) (scopes : List UUID)
    {keyDigest : Digest} (requestDigest : Digest)
    (hreceipt : ∀ r ∈ s.operations.receipts, key r ≠ (principal, Operation.forget, keyDigest))
    (hdeletion : ∀ r ∈ s.operations.deletions, r.id ≠ (timeline.moment (n + 19)).uuid) :
    ∃ D tombstones operations,
      (∀ d ∈ D, OfPurge s targets (goneAt timeline principal s targets n) d)
      ∧ Marks timeline principal s targets (n + 17) tombstones
      ∧ Records s (deletionOf timeline principal s targets n)
          ⟨principal, .forget, keyDigest, requestDigest, receiptOf timeline s scopes targets n⟩
          (entryOf timeline principal s n) operations
      ∧ runFrom platform timeline (MemoryService.purge scopes targets keyDigest requestDigest) n
          ⟨principal, s, []⟩
        = .ok (receiptOf timeline s scopes targets n, n + 23,
            ⟨principal, s.purged (goneAt timeline principal s targets n) tombstones operations, D⟩) := by
  obtain ⟨D, tombstones, hD, hmarks, hrun⟩ :=
    run_purge_marked platform hs hu h scopes keyDigest requestDigest
  obtain ⟨deletions, hdeletions⟩ := Table.exists_insert? (t := s.operations.deletions)
    (r := deletionOf timeline principal s targets n) hdeletion
  obtain ⟨receipts, hreceipts⟩ := Table.exists_insert? (t := s.operations.receipts)
    (r := ⟨principal, .forget, keyDigest, requestDigest, receiptOf timeline s scopes targets n⟩)
    hreceipt
  obtain ⟨audit, haudits⟩ := Table.exists_insert? (t := s.operations.audit)
    (r := entryOf timeline principal s n) fun r hr => Nat.ne_of_lt (haudit r hr)
  let gone := goneAt timeline principal s targets n
  let store := s.purged gone tombstones
  have hforeign : ∀ operations : Operations,
      operations.sourceEvents = s.operations.sourceEvents → ForeignKeys (store operations) :=
    fun operations hevents => (hs.foreign.erase (coherent_goneAt hs h)).beside _
      (hmarks.references hs.foreign.marked) hevents
  have hunique : ∀ operations, UniqueKeys (store operations) := fun operations => by
    have hkeys := hu.erase gone
    cases hkeys
    constructor <;> assumption
  have hdeleted := step_operation platform (.insertDeletion (timeline.moment (n + 19)).uuid
      targets.length (s.access.deletionEpoch + 1)) (timeline.moment (n + 20))
    ⟨principal, store s.operations, D⟩
    (hforeign _ rfl) (hunique _)
    (bind_eq_ok.mpr ⟨deletions, insertRow_eq_ok.mpr hdeletions, rfl⟩) rfl
  have hsaved := step_operation platform (.saveResult .forget keyDigest requestDigest
      (receiptOf timeline s scopes targets n)) (timeline.moment (n + 21))
    ⟨principal, store { s.operations with deletions := deletions }, D⟩
    (hforeign _ rfl) (hunique _)
    (bind_eq_ok.mpr ⟨receipts, insertRow_eq_ok.mpr hreceipts, rfl⟩) rfl
  have haudited := step_operation platform (.audit "forget" (timeline.moment (n + 19)).uuid)
    (timeline.moment (n + 22))
    ⟨principal, store { s.operations with deletions := deletions, receipts := receipts }, D⟩
    (hforeign _ rfl) (hunique _)
    (bind_eq_ok.mpr ⟨audit, insertRow_eq_ok.mpr haudits, rfl⟩) rfl
  refine ⟨D, tombstones, _, hD, hmarks, ⟨?_, fun r => ?_, fun r => ?_, fun r => ?_, ?_⟩,
    hrun.trans ((run_send platform hdeleted).trans ((run_send platform hsaved).trans
      ((run_send platform haudited).trans rfl)))⟩
  · rfl
  · exact Table.mem_insert? hdeletions
  · exact Table.mem_insert? hreceipts
  · exact Table.mem_insert? haudits
  · rfl

/-- **A purge whose deletion id is taken fails.** -/
theorem run_purge_taken (hs : Grounded s) (hu : UniqueKeys s)
    (h : Targets timeline principal s targets n) (scopes : List UUID)
    (keyDigest requestDigest : Digest)
    (hdeletion : ∃ r ∈ s.operations.deletions, r.id = (timeline.moment (n + 19)).uuid) :
    runFrom platform timeline (MemoryService.purge scopes targets keyDigest requestDigest) n
      ⟨principal, s, []⟩ = .error .database := by
  obtain ⟨D, tombstones, -, -, hrun⟩ :=
    run_purge_marked platform hs hu h scopes keyDigest requestDigest
  obtain ⟨r, hr, hid⟩ := hdeletion
  have htaken : s.operations.deletions.insert? (deletionOf timeline principal s targets n) = none :=
    dif_neg (not_not.mpr (List.mem_map.mpr ⟨r, hr, hid⟩))
  have hrefused : step platform (.operation (.insertDeletion (timeline.moment (n + 19)).uuid
      targets.length (s.access.deletionEpoch + 1))) (timeline.moment (n + 20))
      ⟨principal, s.purged (goneAt timeline principal s targets n) tombstones s.operations, D⟩
      = .error .database := by
    have hexec : insertRow s.operations.deletions (deletionOf timeline principal s targets n)
        = .error .database := by rw [insertRow, htaken]; rfl
    have hstatement : (OperationStatement.insertDeletion (timeline.moment (n + 19)).uuid
        targets.length (s.access.deletionEpoch + 1)).exec
        ((Session.mk principal (s.purged (goneAt timeline principal s targets n) tombstones
          s.operations) D).view (timeline.moment (n + 20))) (timeline.moment (n + 20))
        = .error .database := congrArg (· >>= _) hexec
    simp only [step, Statement.exec, hstatement]
    rfl
  rw [hrun, send, Program.execute_bind, runFrom, Program.run_execute, hrefused]

end Platform

/-! ## The commit -/

/-- **Nothing that a purge deferred refuses its commit**: a target is hidden there, and a sealed branch
is not checked. -/
theorem OfPurge.check (hs : Grounded s) {tombstones : Table TombstoneRow}
    (hmarks : Marks timeline principal s targets (n + 17) tombstones) (operations : Operations) {w : View} {k : Nat} (hk : n + 17 ≤ k)
    (hstore : w.store = s.purged (goneAt timeline principal s targets n) tombstones operations)
    (hprincipal : w.principal = principal) (htime : w.timestamp = (timeline.moment k).timestamp)
    {d : Deferred} (hd : OfPurge s targets (goneAt timeline principal s targets n) d) :
    d.check w = true := by
  rcases hd with ⟨id, hid, hsubject⟩ | ⟨b, hb, rfl, hhead⟩
  · refine Deferred.check_of_hidden hsubject ?_
    by_contra hvisible
    rw [Bool.not_eq_false] at hvisible
    have hreferences := hmarks.references hs.foreign.marked
    have hmarked : Marked w.store := by
      rw [hstore]
      exact hreferences
    obtain ⟨hfree, o, ho, rfl, hread⟩ := (View.visible_iff hmarked).mp hvisible
    rw [hstore] at ho hfree
    have hearlier : (viewAt timeline principal s (n + 17)).permitted o.scopeId .read = true := by
      refine permitted_viewAt_of_le hk ?_
      rw [← hread]
      exact View.permitted_congr (by rw [hstore]; rfl) hprincipal.symm htime.symm _ _
    exact hfree _ ((hmarks _).mpr (Or.inr ⟨o, ho, hid, hearlier, rfl⟩)) rfl
  · have hsealed : { b with invalidated := true } ∈ w.store.checkpointing.branches := by
      rw [hstore]
      exact Store.mem_erase_branches.mpr ⟨b, hb, by rw [hhead, if_pos rfl]⟩
    have hfind : w.store.checkpointing.branches.find? (b.scopeId, b.runId, b.branchId)
        = some { b with invalidated := true } := Table.find?_eq_some_iff.mpr ⟨hsealed, rfl⟩
    rw [Deferred.check, View.checkCheckpointHead, View.branch?, hfind, Option.filter_some]
    split
    · rfl
    · rfl

/-- **A cut**: a scope stopped being readable between the deletion of the revisions of a target and
the deletion of its head. -/
def Cut (timeline : Timeline) (principal : UUID) (s : Store) (targets : List UUID) (n : Nat) : Prop :=
  (∃ a ∈ s.contents.assertions, a.id ∈ targets
    ∧ (viewAt timeline principal s (n + PurgeStep.revisions.rank)).permitted a.scopeId .read = true
    ∧ (viewAt timeline principal s (n + PurgeStep.assertions.rank)).permitted a.scopeId .read = false)
  ∨ ∃ e ∈ s.ledger.effects, e.id ∈ targets
    ∧ (viewAt timeline principal s (n + PurgeStep.effectRevisions.rank)).permitted e.scopeId .read
      = true
    ∧ (viewAt timeline principal s (n + PurgeStep.effects.rank)).permitted e.scopeId .read = false

/-- **The deferred keys hold after a purge** exactly when nothing was cut. -/
theorem deferredKeys_purged (hs : Grounded s) (hdeferred : DeferredKeys s)
    (h : Targets timeline principal s targets n) (tombstones : Table TombstoneRow)
    (operations : Operations) :
    DeferredKeys (s.purged (goneAt timeline principal s targets n) tombstones operations)
      ↔ ¬ Cut timeline principal s targets n := by
  have hgone := fun {id scope : UUID} (ha : Anchored s id scope) => goneAt_eq hs h ha
  constructor
  · rintro ⟨hassertion, heffect⟩ (⟨a, ha, hid, hread, hlost⟩ | ⟨e, he, hid, hread, hlost⟩)
    · have hkept : goneAt timeline principal s targets n .assertions a.id = false := by
        rw [hgone (hs.assertion ha).anchored, hlost, Bool.and_false]
      obtain ⟨v, hv, hkey⟩ := hassertion.exists_parent (Table.mem_delete.mpr ⟨ha, hkept⟩) rfl
      obtain ⟨-, hkeptv⟩ := Table.mem_delete.mp hv
      rw [(Prod.mk.inj hkey).1, hgone (hs.assertion ha).anchored, hread, decide_eq_true hid] at hkeptv
      cases hkeptv
    · have hkept : goneAt timeline principal s targets n .effects e.id = false := by
        rw [hgone (hs.effect he).anchored, hlost, Bool.and_false]
      obtain ⟨v, hv, hkey⟩ := heffect.exists_parent (Table.mem_delete.mpr ⟨he, hkept⟩) rfl
      obtain ⟨-, hkeptv⟩ := Table.mem_delete.mp hv
      rw [(Prod.mk.inj hkey).1, hgone (hs.effect he).anchored, hread, decide_eq_true hid] at hkeptv
      cases hkeptv
  · intro hcut
    constructor
    · refine hdeferred.assertion_current.delete fun a ha hkept k hk v _ hvk => ?_
      cases hk
      rw [(Prod.mk.inj hvk).1]
      rw [hgone (hs.assertion ha).anchored] at hkept ⊢
      by_contra hlost
      rw [Bool.not_eq_false, Bool.and_eq_true, decide_eq_true_eq] at hlost
      rw [decide_eq_true hlost.1, Bool.true_and] at hkept
      exact hcut (Or.inl ⟨a, ha, hlost.1, hlost.2, hkept⟩)
    · refine hdeferred.effect_current.delete fun e he hkept k hk v _ hvk => ?_
      cases hk
      rw [(Prod.mk.inj hvk).1]
      rw [hgone (hs.effect he).anchored] at hkept ⊢
      by_contra hlost
      rw [Bool.not_eq_false, Bool.and_eq_true, decide_eq_true_eq] at hlost
      rw [decide_eq_true hlost.1, Bool.true_and] at hkept
      exact hcut (Or.inr ⟨e, he, hlost.1, hlost.2, hkept⟩)

/-- **The commit of a purge** refuses a cut and nothing else. -/
theorem commit_purged (hs : Grounded s) (hdeferred : DeferredKeys s)
    (h : Targets timeline principal s targets n) {tombstones : Table TombstoneRow}
    (hmarks : Marks timeline principal s targets (n + 17) tombstones) (operations : Operations)
    {D : List Deferred} (hD : ∀ d ∈ D, OfPurge s targets (goneAt timeline principal s targets n) d)
    {s' : Store} :
    commit (timeline.moment (n + 23)) ⟨principal,
        s.purged (goneAt timeline principal s targets n) tombstones operations, D⟩ = .ok s'
      ↔ ¬ Cut timeline principal s targets n
        ∧ s.purged (goneAt timeline principal s targets n) tombstones operations = s' := by
  rw [commit_eq_ok, deferredKeys_purged hs hdeferred h]
  refine and_congr_left fun _ => and_iff_right (List.all_eq_true.mpr fun d hd => ?_)
  exact (hD d hd).check hs hmarks operations (by omega) rfl rfl rfl

end Run

end PgAgmemory

import PgAgmemory.Library.Program
import PgAgmemory.Storage.Constraints
import PgAgmemory.Storage.Purge

/-! # Statements and transactions

The statements of all areas as one type, with the one function that executes them (`step`): texts
that PostgreSQL cannot store are refused, the statement of the area runs, and the whole store must
meet its immediate constraints afterwards. `commit` runs what was deferred, through the policies of
the commit's own timestamp, and the deferred foreign keys, which no policy filters.

A transaction (`transact`) is a program over these statements. When any part of it fails the store
stays as it was. -/

namespace PgAgmemory

open Keyed (HasKey Table)
open Interactive (Program)

/-! ## Receipts, audit and deletion -/

/-- Statements on source events, receipts, completed purges and the audit log. -/
inductive OperationStatement where
  | insertSourceEvent (row : SourceEventRow)
  | saveResult (operation : Operation) (keyDigest requestDigest : Digest) (result : Receipt)
  | audit (action : String) (target : UUID)
  | insertDeletion (id : UUID) (objectCount deletionEpoch : Nat)

/-- Execute a statement on source events, receipts, completed purges or the audit log. -/
def OperationStatement.exec (v : View) (m : Moment) : OperationStatement → Except Fault Operations
  | .insertSourceEvent r => do
    require (v.permitted r.scopeId .write)
    let sourceEvents ← insertRow v.store.operations.sourceEvents r
    pure { v.store.operations with sourceEvents := sourceEvents }
  | .saveResult operation keyDigest requestDigest result => do
    let receipts ← insertRow v.store.operations.receipts
      ⟨v.principal, operation, keyDigest, requestDigest, result⟩
    pure { v.store.operations with receipts := receipts }
  | .audit action target => do
    let id := v.store.operations.nextAudit
    let audit ← insertRow v.store.operations.audit ⟨id, v.principal, action, target, m.clock 0⟩
    pure { v.store.operations with audit := audit, nextAudit := id + 1 }
  | .insertDeletion id objectCount deletionEpoch => do
    let deletions ← insertRow v.store.operations.deletions
      ⟨id, v.principal, objectCount, deletionEpoch, m.clock 0⟩
    pure { v.store.operations with deletions := deletions }

/-! ## The statements -/

/-- **The statements of the service.** -/
inductive Statement where
  | insertObject (id scope : UUID) (kind : ObjectKind)
  | content (statement : ContentStatement)
  | graph (statement : GraphStatement)
  | checkpoint (statement : CheckpointStatement)
  | ledger (statement : LedgerStatement)
  | queue (statement : QueueStatement)
  | operation (statement : OperationStatement)
  | purge (purgeStep : PurgeStep) (targets : List UUID)
  | insertTombstones (targets : List UUID)
  | bumpDeletionEpoch

/-- What a statement returns to the client. -/
inductive Returned where
  | done
  /-- Whether `RETURNING` gave a row. -/
  | inserted (row : Bool)
  /-- The job that an update wrote. -/
  | job (row : Option JobRow)
  /-- The new deletion epoch. -/
  | epoch (deletionEpoch : Nat)

/-- The texts that a statement sends. -/
def Statement.texts : Statement → List String
  | .content s => s.texts
  | .graph s => s.texts
  | .checkpoint s => s.texts
  | .ledger s => s.texts
  | .queue s => s.texts
  | _ => []

/-- Execute a statement in a view. -/
def Statement.exec (platform : Platform) (v : View) (m : Moment) :
    Statement → Except Fault (Returned × Store)
  | .insertObject id scope kind => do
    let anchor ← PgAgmemory.insertObject v m id scope kind
    pure (.done, { v.store with anchor := anchor })
  | .content s => do
    let contents ← s.exec platform v m
    pure (.done, { v.store with contents := contents })
  | .graph s => do
    let graph ← s.exec v
    pure (.done, { v.store with graph := graph })
  | .checkpoint s => do
    let (row, checkpointing) ← s.exec v
    pure (.inserted row, { v.store with checkpointing := checkpointing })
  | .ledger s => do
    let ledger ← s.exec v m
    pure (.done, { v.store with ledger := ledger })
  | .queue s => do
    let (row, jobs) ← s.exec v m
    pure (.job row, { v.store with queue := jobs })
  | .operation s => do
    let operations ← s.exec v m
    pure (.done, { v.store with operations := operations })
  | .purge purgeStep targets => pure (.done, purgeStep.exec v targets)
  | .insertTombstones targets => do
    let tombstones ← PgAgmemory.insertTombstones v m (v.objectsOf targets) v.store.anchor.tombstones
    pure (.done, { v.store with
      anchor.tombstones := tombstones })
  | .bumpDeletionEpoch => pure (.epoch (v.store.access.deletionEpoch + 1), { v.store with
      access.deletionEpoch := v.store.access.deletionEpoch + 1 })

/-- The checks that a statement defers to the commit. -/
def Statement.deferred (v : View) : Statement → List Deferred
  | .content s => s.deferred
  | .graph s => s.deferred
  | .checkpoint s => s.deferred
  | .ledger s => s.deferred
  | .queue s => s.deferred
  | .purge purgeStep targets => purgeStep.deferred v targets
  | _ => []

/-- Whether PostgreSQL can store a text: it has no NUL character. -/
def storable (s : String) : Bool := s.toList.all fun c => c.toNat ≠ 0

/-- **One statement of a session.** -/
def step (platform : Platform) (statement : Statement) (m : Moment) (session : Session) :
    Except Fault (Returned × Session) := do
  require (statement.texts.all storable)
  let (returned, store) ← statement.exec platform (session.view m) m
  require (decide (ForeignKeys store ∧ UniqueKeys store))
  pure (returned, { session with
    store := store, deferred := session.deferred ++ statement.deferred (session.view m) })

/-! ## Transactions -/

/-- Run a deferred check in the view of the commit. -/
def Deferred.check (v : View) : Deferred → Bool
  | .assertionHistory id => v.checkAssertionHistory id
  | .relationShape id => v.checkRelation id
  | .entityEvidence id => v.checkEntityEvidence id
  | .checkpointReferences id => v.checkCheckpoint id
  | .checkpointHead scope run branch => v.checkCheckpointHead scope run branch
  | .toolEffect id => v.checkToolEffect id
  | .jobInputs id => v.checkJobInputs id

/-- **Commit**: every deferred check and every deferred foreign key holds. -/
def commit (m : Moment) (session : Session) : Except Fault Store := do
  require (session.deferred.all (Deferred.check (session.view m)))
  require (decide (DeferredKeys session.store))
  pure session.store

/-- Programs of the service. -/
abbrev Tx (α : Type) : Type 1 := Program Moment Session Statement Returned Fault α

/-- The moments of a transaction: one for every statement, in order, the commit being the last. The
server stamps them with timestamps that never decrease. -/
structure Timeline where
  moment : Nat → Moment
  mono : ∀ i j, i ≤ j → (moment i).timestamp ≤ (moment j).timestamp

/-- Run a program on a session, from a moment on. -/
abbrev runFrom (platform : Platform) (timeline : Timeline) {α : Type} (p : Tx α) (n : Nat)
    (session : Session) : Except Fault (α × Nat × Session) :=
  p.run (step platform) timeline.moment n session

/-- Run a program and commit it. -/
def attempt (platform : Platform) (timeline : Timeline) (principal : UUID) {α : Type} (p : Tx α)
    (s : Store) : Except Fault (α × Store) := do
  let (a, n, session) ← runFrom platform timeline p 0 ⟨principal, s, []⟩
  let s' ← commit (timeline.moment n) session
  pure (a, s')

/-- **A transaction**: the outcome for the client, and the store, which a failure leaves alone. -/
def transact (platform : Platform) (timeline : Timeline) (principal : UUID) {α : Type} (p : Tx α)
    (s : Store) : Except Fault α × Store :=
  match attempt platform timeline principal p s with
  | .ok (a, s') => (.ok a, s')
  | .error fault => (.error fault, s)

/-- **A failed transaction changes nothing.** -/
theorem transact_error {platform : Platform} {timeline : Timeline} {principal : UUID} {α : Type}
    {p : Tx α} {s s' : Store} {fault : Fault}
    (h : transact platform timeline principal p s = (.error fault, s')) : s' = s := by
  unfold transact at h
  split at h
  · exact absurd (Prod.mk.inj h).1 (by simp)
  · exact (Prod.mk.inj h).2.symm

/-- A transaction succeeds when its attempt does. -/
theorem transact_eq_ok {platform : Platform} {timeline : Timeline} {principal : UUID} {α : Type}
    {p : Tx α} {s s' : Store} {a : α} :
    transact platform timeline principal p s = (.ok a, s')
      ↔ attempt platform timeline principal p s = .ok (a, s') := by
  rw [transact]
  constructor
  · intro h
    split at h
    next b t heq =>
      obtain ⟨hb, ht⟩ := Prod.mk.inj h
      rw [heq, Except.ok.inj hb, ht]
    next => cases (Prod.mk.inj h).1
  · intro h
    rw [h]

/-- What a commit checks. -/
theorem commit_eq_ok {m : Moment} {session : Session} {s : Store} :
    commit m session = .ok s ↔
      (session.deferred.all (Deferred.check (session.view m)) = true
        ∧ DeferredKeys session.store) ∧ session.store = s := by
  simp only [commit, bind_eq_ok, require_eq_ok, decide_eq_true_eq]
  constructor
  · rintro ⟨-, hchecks, -, hkeys, hpure⟩
    exact ⟨⟨hchecks, hkeys⟩, Except.ok.inj hpure⟩
  · rintro ⟨⟨hchecks, hkeys⟩, rfl⟩
    exact ⟨(), hchecks, (), hkeys, rfl⟩

/-- **What one statement does**: it runs in its area, and the store it leaves meets the immediate
constraints. -/
theorem step_eq_ok {platform : Platform} {statement : Statement} {m : Moment}
    {session session' : Session} {returned : Returned} :
    step platform statement m session = .ok (returned, session') ↔
      statement.texts.all storable = true
        ∧ statement.exec platform (session.view m) m = .ok (returned, session'.store)
        ∧ (ForeignKeys session'.store ∧ UniqueKeys session'.store)
        ∧ session'.principal = session.principal
        ∧ session'.deferred = session.deferred ++ statement.deferred (session.view m) := by
  simp only [step, bind_eq_ok, require_eq_ok, decide_eq_true_eq]
  constructor
  · rintro ⟨-, htexts, ⟨r, s⟩, hexec, -, hkeys, hpure⟩
    cases hpure
    exact ⟨htexts, hexec, hkeys, rfl, rfl⟩
  · rintro ⟨htexts, hexec, hkeys, hprincipal, hdeferred⟩
    refine ⟨(), htexts, (returned, session'.store), hexec, (), hkeys, ?_⟩
    cases session'
    simp only at hprincipal hdeferred
    subst hprincipal hdeferred
    rfl

end PgAgmemory

import PgAgmemory.System.Calls

/-! # Refusals

The database knows nothing of the service's domain errors: a statement that it refuses ends with an error
of its own (`step_refuses`). So a program ends with a domain error only where it raises that error
itself. -/

namespace PgAgmemory

open Keyed (HasKey Table)
open Interactive.Program (Raises)

/-! ## The database -/

/-- **Refusals only**: not a domain error. -/
def Refuses {α : Type} (x : Except Fault α) : Prop := ∀ code, x ≠ .error (.memory code)

namespace Refuses

variable {α β : Type}

/-- What succeeds refuses nothing. -/
theorem ok {a : α} : Refuses (.ok a : Except Fault α) := fun _ h => by cases h

/-- A constraint refuses with the fault of the database. -/
theorem database : Refuses (.error .database : Except Fault α) := fun _ h => by cases h

/-- An unavailable database refuses as such. -/
theorem unavailable : Refuses (.error .unavailable : Except Fault α) := fun _ h => by cases h

/-- Refusals of the parts are those of the whole. -/
theorem bind {x : Except Fault α} {k : α → Except Fault β} (hx : Refuses x)
    (hk : ∀ a, Refuses (k a)) : Refuses (x >>= k) := by
  cases x with
  | ok a => exact hk a
  | error fault => exact fun code h => hx code (by cases h; rfl)

/-- A requirement refuses with the fault of the database. -/
theorem require (condition : Bool) : Refuses (PgAgmemory.require condition) := by
  unfold PgAgmemory.require
  split
  · exact ok
  · exact database

/-- A required row refuses with the fault of the database. -/
theorem requireSome (o : Option α) : Refuses (PgAgmemory.requireSome o) := by
  cases o with
  | none => exact database
  | some a => exact ok

/-- An insertion refuses a duplicate key with the fault of the database. -/
theorem insertRow {κ : Type} [HasKey α κ] [DecidableEq κ] (t : Table α) (r : α) :
    Refuses (PgAgmemory.insertRow t r) := requireSome _

end Refuses

section Statements

variable (platform : Platform) (v : View) (m : Moment)

/-- The insertion of tombstones refuses with the fault of the database. -/
theorem insertTombstones_refuses (objects : List ObjectRow) (t : Table TombstoneRow) :
    Refuses (insertTombstones v m objects t) := by
  induction objects generalizing t with
  | nil => exact .ok
  | cons o os ih => exact (Refuses.require _).bind fun _ => (Refuses.insertRow _ _).bind fun t => ih t

/-- So does the trigger that adopts a revision of an assertion. -/
theorem adoptRevision_refuses (id : UUID) (revision : Nat) :
    Refuses (adoptRevision v m id revision) := by
  refine (Refuses.requireSome _).bind fun head => ?_
  split
  · exact (Refuses.require _).bind fun _ => .ok
  refine (Refuses.require _).bind fun _ => (Refuses.requireSome _).bind fun previous => ?_
  split
  · exact .unavailable
  · exact (Refuses.require _).bind fun _ => .ok

/-- So does every statement about contents. -/
theorem ContentStatement.refuses (st : ContentStatement) : Refuses (st.exec platform v m) := by
  cases st with
  | insertRevision n =>
    exact (adoptRevision_refuses v m _ _).bind fun _ => (Refuses.require _).bind fun _ =>
      (Refuses.require _).bind fun _ => (Refuses.insertRow _ _).bind fun _ => .ok
  | insertEpisodeEmbedding r =>
    exact (Refuses.require _).bind fun _ => (Refuses.require _).bind fun _ =>
      (Refuses.require _).bind fun _ => (Refuses.insertRow _ _).bind fun _ => .ok
  | insertAssertionEmbedding r =>
    exact (Refuses.require _).bind fun _ => (Refuses.require _).bind fun _ =>
      (Refuses.require _).bind fun _ => (Refuses.insertRow _ _).bind fun _ => .ok
  | _ => exact (Refuses.require _).bind fun _ => (Refuses.insertRow _ _).bind fun _ => .ok

/-- So does every statement about the graph. -/
theorem GraphStatement.refuses (st : GraphStatement) : Refuses (st.exec v) := by
  cases st with
  | insertEntity r =>
    exact (Refuses.require _).bind fun _ => (Refuses.require _).bind fun _ =>
      (Refuses.insertRow _ _).bind fun _ => .ok
  | _ => exact (Refuses.require _).bind fun _ => (Refuses.insertRow _ _).bind fun _ => .ok

/-- So does the trigger that adopts a checkpoint. -/
theorem adoptCheckpoint_refuses (n : NewCheckpoint) (ordinal : Nat) :
    Refuses (adoptCheckpoint v n ordinal) := by
  refine (Refuses.requireSome _).bind fun branch => (Refuses.require _).bind fun _ => ?_
  have hmove : ∀ after, Refuses (do
      require (guardBranch branch after)
      pure (appendHead v.store.checkpointing.branches n.scopeId n.runId n.branchId n.id
        n.sequence)) := fun _ => (Refuses.require _).bind fun _ => .ok
  split
  · exact hmove _
  · exact (Refuses.requireSome _).bind fun _ => (Refuses.require _).bind fun _ => hmove _

/-- So does every statement about checkpoints. -/
theorem CheckpointStatement.refuses (st : CheckpointStatement) : Refuses (st.exec v) := by
  cases st with
  | insertRun scope run harnessId harnessVersion =>
    refine (Refuses.require _).bind fun _ => ?_
    split <;> exact .ok
  | insertBranch scope run branch returning =>
    refine (Refuses.require _).bind fun _ => ?_
    split <;> exact .ok
  | insertCheckpoint n =>
    exact ((adoptCheckpoint_refuses v n _).bind fun _ => (Refuses.require _).bind fun _ =>
      (Refuses.require _).bind fun _ => (Refuses.require _).bind fun _ =>
        (Refuses.insertRow _ _).bind fun _ => .ok).bind fun _ => .ok
  | insertReference r =>
    exact (Refuses.require _).bind fun _ => (Refuses.require _).bind fun _ =>
      (Refuses.insertRow _ _).bind fun _ => .ok

/-- So does the trigger that adopts a revision of an effect. -/
theorem adoptEffectRevision_refuses (n : NewEffectRevision) : Refuses (adoptEffectRevision v m n) := by
  refine (Refuses.requireSome _).bind fun effect => (Refuses.require _).bind fun _ => ?_
  split
  · exact (Refuses.require _).bind fun _ => .ok
  refine (Refuses.requireSome _).bind fun previous => (Refuses.require _).bind fun _ => ?_
  split
  · exact .unavailable
  · exact (Refuses.require _).bind fun _ => .ok

/-- So does every statement about effects. -/
theorem LedgerStatement.refuses (st : LedgerStatement) : Refuses (st.exec v m) := by
  cases st with
  | insertIdentity r =>
    exact (Refuses.require _).bind fun _ => (Refuses.insertRow _ _).bind fun _ => .ok
  | insertRevision n =>
    exact (adoptEffectRevision_refuses v m n).bind fun _ => (Refuses.require _).bind fun _ =>
      (Refuses.require _).bind fun _ => (Refuses.insertRow _ _).bind fun _ => .ok
  | insertEffect n =>
    exact (Refuses.require _).bind fun _ => (Refuses.require _).bind fun _ =>
      (Refuses.require _).bind fun _ => (Refuses.insertRow _ _).bind fun _ => .ok
  | insertReference r =>
    exact (Refuses.require _).bind fun _ => (Refuses.require _).bind fun _ =>
      (Refuses.insertRow _ _).bind fun _ => .ok

/-- So does the update of a job. -/
theorem updateJob_refuses (id : UUID) (change : JobChange) : Refuses (updateJob v m id change) := by
  unfold updateJob
  split
  · exact .ok
  split
  · exact (Refuses.require _).bind fun _ => (Refuses.require _).bind fun _ => .ok
  · exact .ok

/-- So does every statement about jobs. -/
theorem QueueStatement.refuses (st : QueueStatement) : Refuses (st.exec v m) := by
  cases st with
  | insertJob n =>
    exact (Refuses.require _).bind fun _ => (Refuses.require _).bind fun _ =>
      (Refuses.require _).bind fun _ => (Refuses.insertRow _ _).bind fun _ => .ok
  | updateJob id change => exact updateJob_refuses v m id change
  | _ => exact (Refuses.require _).bind fun _ => (Refuses.insertRow _ _).bind fun _ => .ok

/-- So does every statement about receipts, deletions and the audit. -/
theorem OperationStatement.refuses (st : OperationStatement) : Refuses (st.exec v m) := by
  cases st with
  | insertSourceEvent r =>
    exact (Refuses.require _).bind fun _ => (Refuses.insertRow _ _).bind fun _ => .ok
  | _ => exact (Refuses.insertRow _ _).bind fun _ => .ok

/-- **A statement never refuses with a code of the service**: those are raised by programs. -/
theorem Statement.refuses (st : Statement) : Refuses (st.exec platform v m) := by
  cases st with
  | insertObject id scope kind =>
    exact ((Refuses.require _).bind fun _ => (Refuses.insertRow _ _).bind fun _ => .ok).bind
      fun _ => .ok
  | content st => exact (st.refuses platform v m).bind fun _ => .ok
  | graph st => exact (st.refuses v).bind fun _ => .ok
  | checkpoint st => exact (st.refuses v).bind fun _ => .ok
  | ledger st => exact (st.refuses v m).bind fun _ => .ok
  | queue st => exact (st.refuses v m).bind fun _ => .ok
  | operation st => exact (st.refuses v m).bind fun _ => .ok
  | purge p targets => exact .ok
  | insertTombstones targets => exact (insertTombstones_refuses v m _ _).bind fun _ => .ok
  | bumpDeletionEpoch => exact .ok

end Statements

/-- **A refused statement is no domain error.** -/
theorem step_refuses (platform : Platform) (st : Statement) (m : Moment) (σ : Session) :
    Refuses (step platform st m σ) :=
  (Refuses.require _).bind fun _ => (st.refuses platform _ m).bind fun _ =>
    (Refuses.require _).bind fun _ => .ok

/-- A refused commit is no domain error. -/
theorem commit_refuses (m : Moment) (σ : Session) : Refuses (commit m σ) :=
  (Refuses.require _).bind fun _ => (Refuses.require _).bind fun _ => .ok

/-! ## Programs -/

/-- Domain errors of some codes only, and whatever the database says. -/
def Fault.among (codes : List ErrorCode) : Fault → Prop
  | .memory code => code ∈ codes
  | .database => True
  | .unavailable => True

section Programs

open MemoryService

variable {platform : Platform} {α : Type} {codes : List ErrorCode}

/-- **A program ends with the domain errors that it raises itself.** -/
theorem outcome_raises {p : Tx α} (hp : Raises (Fault.among codes) p) (timeline : Timeline) (n : Nat)
    (σ : Session) :
    Outcome platform timeline p (fun _ _ _ => True) (Fault.among codes) n σ := by
  refine hp.yields fun st k s fault hstep => ?_
  cases fault with
  | memory code => exact absurd hstep (step_refuses platform st _ s code)
  | _ => trivial

/-- A query raises nothing. -/
theorem raises_read {query : View → α} : Raises (Fault.among codes) (read query) := fun _ => trivial

/-- A demand raises its code. -/
theorem raises_demand {condition : Bool} {code : ErrorCode} (h : code ∈ codes) :
    Raises (Fault.among codes) (demand condition code) := by
  cases condition with
  | true => trivial
  | false => exact h

/-- Decoding raises no code of the service. -/
theorem raises_decode {readable : α → Bool} {rows : List α} :
    Raises (Fault.among codes) (decode readable rows) := by
  unfold decode
  split <;> trivial

/-- A lookup raises its code. -/
theorem raises_found {row : Option α} {code : ErrorCode} (h : code ∈ codes) :
    Raises (Fault.among codes) (found row code) := by
  cases row with
  | some a => trivial
  | none => exact h

/-- A statement raises no code of the service. -/
theorem raises_send (st : Statement) : Raises (Fault.among codes) (send st) := fun _ => trivial

/-- `scope` raises `not_found`. -/
theorem raises_scope (scopeId : UUID) (permission : Permission) (h : .notFound ∈ codes) :
    Raises (Fault.among codes) (scope scopeId permission) :=
  raises_read.bind fun _ => raises_demand h

/-- `object` raises `not_found`. -/
theorem raises_object (id : UUID) (permission : Permission) (h : .notFound ∈ codes) :
    Raises (Fault.among codes) (object id permission) :=
  raises_read.bind fun _ => (raises_found h).bind fun _ => (raises_scope _ _ h).bind fun _ => trivial

/-- A receipt whose objects are gone raises `not_found`. -/
theorem raises_checkReceipt (result : Receipt) (h : .notFound ∈ codes) :
    Raises (Fault.among codes) (checkReceipt result) :=
  Raises.bind (Interactive.Program.raises_forM fun _ _ =>
    (raises_object _ _ h).bind fun _ => trivial) fun _ =>
      Interactive.Program.raises_forM fun _ _ => raises_scope _ _ h

/-- Once a key: the errors of the two parts, of a conflict, and of a receipt that is out of reach. -/
theorem raises_once {operation : Operation} {key payload : String} {replayed : Receipt → Tx α}
    {fresh : Digest → Digest → Tx α} (hfound : .notFound ∈ codes)
    (hconflict : .idempotencyConflict ∈ codes)
    (hreplayed : ∀ receipt, Raises (Fault.among codes) (replayed receipt))
    (hfresh : ∀ kd rd, Raises (Fault.among codes) (fresh kd rd)) :
    Raises (Fault.among codes) (once platform operation key payload replayed fresh) := by
  have hreplay : Raises (Fault.among codes) (replay platform operation key payload) := by
    refine raises_read.bind fun _ => raises_read.bind fun _ => raises_read.bind fun row => ?_
    split
    · trivial
    · exact (raises_demand hconflict).bind fun _ =>
        (raises_checkReceipt _ hfound).bind fun _ => trivial
  refine hreplay.bind fun result => ?_
  obtain ⟨kd, rd, previous⟩ := result
  cases previous with
  | some receipt => exact hreplayed receipt
  | none => exact hfresh kd rd

/-- **A domain error of a call comes from its program.** -/
theorem Call.exec_fails {c : Call} {s : Store} {code : ErrorCode}
    (h : (c.exec platform s).1 = .error (.memory code)) {Q : Response → Nat → Session → Prop}
    {F : Fault → Prop} (houtcome : Outcome platform c.timeline (c.request.program platform) Q F 0
      (.start c.principal s)) : F (.memory code) := by
  unfold Call.exec transact attempt at h
  cases hrun : runFrom platform c.timeline (c.request.program platform) 0 (.start c.principal s) with
  | error fault =>
    unfold Session.start at hrun
    rw [hrun] at h
    cases h
    exact houtcome.of_error hrun
  | ok result =>
    obtain ⟨r, n, σ⟩ := result
    unfold Session.start at hrun
    rw [hrun] at h
    cases hcommit : commit (c.timeline.moment n) σ with
    | error fault =>
      have hfault : fault = .memory code := by
        simp only [bind, Except.bind, hcommit] at h
        cases h
        rfl
      exact absurd (hfault ▸ hcommit) (commit_refuses _ _ code)
    | ok s' =>
      simp only [bind, Except.bind, hcommit] at h
      cases h

end Programs

end PgAgmemory

import PgAgmemory.Storage.Graph

/-! # Statements on runs, branches and checkpoints

A checkpoint is appended to its branch: the trigger `adopt_checkpoint` demands that it is the
successor of the branch's head, that its parent is older, of the same run and of no later watermark,
and moves the head (`adoptCheckpoint`). `guard_checkpoint_branch` lets a branch change in no other way
than by appending or by being invalidated. -/

namespace PgAgmemory

open Keyed (HasKey Table)

/-- The columns of a new checkpoint. -/
structure NewCheckpoint where
  id : UUID
  scopeId : UUID
  runId : UUID
  branchId : UUID
  sequence : Nat
  parentId : Option UUID
  state : Json.Value
  eventWatermark : Nat
  referenceCount : Nat
  accessEpoch : Nat
  deletionEpoch : Nat
  checksum : Digest

/-- The row with its ordinal. -/
def NewCheckpoint.row (n : NewCheckpoint) (ordinal : Nat) : CheckpointRow where
  id := n.id
  scopeId := n.scopeId
  runId := n.runId
  branchId := n.branchId
  sequence := n.sequence
  ordinal := ordinal
  parentId := n.parentId
  state := n.state
  eventWatermark := n.eventWatermark
  referenceCount := n.referenceCount
  accessEpoch := n.accessEpoch
  deletionEpoch := n.deletionEpoch
  checksum := n.checksum

/-- Statements on runs, branches and checkpoints. -/
inductive CheckpointStatement where
  /-- `INSERT INTO memory.checkpoint_run … ON CONFLICT DO NOTHING`. -/
  | insertRun (scope run : UUID) (harnessId harnessVersion : ShortText)
  /-- `INSERT INTO memory.checkpoint_branch … ON CONFLICT DO NOTHING`; `RETURNING` also needs the
  read policy. -/
  | insertBranch (scope run branch : UUID) (returning : Bool)
  | insertCheckpoint (new : NewCheckpoint)
  | insertReference (row : CheckpointReferenceRow)

/-- The texts that a statement sends. -/
def CheckpointStatement.texts : CheckpointStatement → List String
  | .insertRun _ _ harnessId harnessVersion => [harnessId.str, harnessVersion.str]
  | .insertBranch _ _ _ _ => []
  | .insertCheckpoint n => n.state.strings
  | .insertReference _ => []

/-- The trigger `guard_checkpoint_branch`. -/
def guardBranch (old new : CheckpointBranchRow) : Bool :=
  !old.invalidated
    && (decide (new.headId = old.headId) || (new.sequence = old.sequence + 1 && !new.invalidated))
    && (decide (new.headId ≠ old.headId) || decide (new.sequence = old.sequence))

/-- The check constraint of a branch: a head exactly when something was appended. -/
def CheckpointBranchRow.checks (b : CheckpointBranchRow) : Bool :=
  decide (b.headId.isNone = true ↔ b.sequence = 0)

/-- The branch of a primary key, with a new head. -/
def appendHead (branches : Table CheckpointBranchRow) (scope run branch : UUID) (head : UUID)
    (sequence : Nat) : Table CheckpointBranchRow :=
  branches.update (fun b => b.scopeId = scope && b.runId = run && b.branchId = branch)
    (fun b => { b with headId := some head, sequence := sequence }) fun _ => rfl

/-- The conditions of `adopt_checkpoint` on a parent. -/
def parentAdoptable (n : NewCheckpoint) (ordinal : Nat) (branch : CheckpointBranchRow)
    (parent : CheckpointRow) : Bool :=
  decide (parent.scopeId = n.scopeId) && decide (parent.runId = n.runId)
    && decide (parent.ordinal < ordinal) && decide (parent.eventWatermark ≤ n.eventWatermark)
    && !(decide (branch.sequence = 0) && decide (parent.branchId = n.branchId))

/-- The trigger `adopt_checkpoint`: the new checkpoint succeeds the head of its branch. -/
def adoptCheckpoint (v : View) (n : NewCheckpoint) (ordinal : Nat) :
    Except Fault (Table CheckpointBranchRow) := do
  let branch ← requireSome ((v.branch? n.scopeId n.runId n.branchId).filter v.branchUpdatable)
  require (!branch.invalidated && decide (n.sequence = branch.sequence + 1)
    && (decide (branch.sequence = 0) || decide (n.parentId = branch.headId)))
  match n.parentId with
  | none => pure ()
  | some id => do
    let parent ← requireSome (v.checkpoint? id)
    require (parentAdoptable n ordinal branch parent)
  require (guardBranch branch { branch with headId := some n.id, sequence := n.sequence })
  pure (appendHead v.store.checkpointing.branches n.scopeId n.runId n.branchId n.id n.sequence)

/-- The trigger `checkpoint_active_run`. -/
def runActive (v : View) (scope run : UUID) : Bool :=
  (v.run? scope run).all fun r => !r.effectsInvalidated

/-- The check constraints of a checkpoint. -/
def NewCheckpoint.checks (n : NewCheckpoint) : Bool :=
  0 < n.sequence && n.referenceCount ≤ 100 && n.eventWatermark ≤ maxWatermark

/-- The check constraints that references of checkpoints and of effects share. -/
def referenceChecks (sourceKind : ObjectKind) (sourceRevision : Nat) : Bool :=
  (1 ≤ sourceRevision && sourceRevision ≤ 1000)
    && (sourceKind = .assertion
      || (sourceRevision = 1 && (sourceKind = .episode || sourceKind = .entity)))

/-- `INSERT INTO memory.checkpoint`; the ordinal is drawn before the trigger runs. -/
def insertCheckpoint (v : View) (n : NewCheckpoint) : Except Fault Checkpointing := do
  let ordinal := v.store.checkpointing.nextOrdinal
  let branches ← adoptCheckpoint v n ordinal
  require (runActive v n.scopeId n.runId)
  require (v.writable n.id)
  require n.checks
  let checkpoints ← insertRow v.store.checkpointing.checkpoints (n.row ordinal)
  pure { v.store.checkpointing with
    branches := branches
    checkpoints := checkpoints
    nextOrdinal := ordinal + 1 }

/-- Execute a statement on runs, branches or checkpoints; the flag says whether a row was inserted. -/
def CheckpointStatement.exec (v : View) : CheckpointStatement → Except Fault (Bool × Checkpointing)
  | .insertRun scope run harnessId harnessVersion => do
    require (v.permitted scope .write)
    match v.store.checkpointing.runs.insert? ⟨scope, run, harnessId, harnessVersion, false⟩ with
    | none => pure (false, v.store.checkpointing)
    | some runs => pure (true, { v.store.checkpointing with runs := runs })
  | .insertBranch scope run branch returning => do
    require (v.permitted scope .write && (!returning || v.permitted scope .read))
    match v.store.checkpointing.branches.insert? ⟨scope, run, branch, none, 0, false⟩ with
    | none => pure (false, v.store.checkpointing)
    | some branches => pure (true, { v.store.checkpointing with branches := branches })
  | .insertCheckpoint n => do
    let checkpointing ← PgAgmemory.insertCheckpoint v n
    pure (true, checkpointing)
  | .insertReference r => do
    require (v.writable r.checkpointId && v.visible r.sourceId)
    require (referenceChecks r.sourceKind r.sourceRevision)
    let references ← insertRow v.store.checkpointing.references r
    pure (true, { v.store.checkpointing with references := references })

/-- The checks that a statement defers to the commit. -/
def CheckpointStatement.deferred : CheckpointStatement → List Deferred
  | .insertRun _ _ _ _ => []
  | .insertBranch scope run branch _ => [.checkpointHead scope run branch]
  | .insertCheckpoint n =>
    [.checkpointReferences n.id, .checkpointHead n.scopeId n.runId n.branchId]
  | .insertReference r => [.checkpointReferences r.checkpointId]

/-! ## Deferred checks -/

/-- The readable references of a checkpoint. -/
def View.referencesOf (v : View) (id : UUID) : List CheckpointReferenceRow :=
  v.checkpointReferences.filter fun r => r.checkpointId = id

/-- `check_checkpoint`. -/
def View.checkCheckpoint (v : View) (id : UUID) : Bool :=
  (v.checkpoint? id).all fun c => decide ((v.referencesOf id).length = c.referenceCount)

/-- `check_checkpoint_head`: the head of a live branch is its last checkpoint. -/
def View.checkCheckpointHead (v : View) (scope run branch : UUID) : Bool :=
  (v.branch? scope run branch).all fun b =>
    b.invalidated || decide (b.sequence = 0) || v.checkpoints.any fun c =>
      decide (some c.id = b.headId) && decide (c.scopeId = b.scopeId)
        && decide (c.runId = b.runId) && decide (c.branchId = b.branchId)
        && decide (c.sequence = b.sequence)

end PgAgmemory

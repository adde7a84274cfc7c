import PgAgmemory.Models.Validation
import PgAgmemory.Service.Effects

/-! # Checkpoints

The operations of `Checkpoints`: a checkpoint is signed when it is inserted and its signature is
compared whenever it is loaded; an envelope adds the ledger of the run and what of it blocks a resume;
a restore fences the run and forks the saved state onto a new branch. -/

namespace PgAgmemory

open Json (Value)

/-! ## Payloads -/

/-- What the checksum of a checkpoint signs. -/
structure CheckpointPayload where
  checkpointId : UUID
  scopeId : UUID
  runId : UUID
  branchId : UUID
  sequence : Nat
  parentCheckpoint : Option UUID
  harnessId : ShortText
  harnessVersion : ShortText
  eventWatermark : Nat
  state : Value
  memoryRefs : List (UUID × Nat)
  savedAccessEpoch : Nat
  savedDeletionEpoch : Nat
  deriving DecidableEq

/-- A reference of a payload as JSON. -/
def dumpRef (ref : UUID × Nat) : Value :=
  .obj [("memory_id", jsonUUID ref.1), ("revision", jsonNat ref.2)]

/-- The payload as JSON; the state schema version is always 1. -/
def CheckpointPayload.dump (p : CheckpointPayload) : Value :=
  .obj [("checkpoint_id", jsonUUID p.checkpointId), ("scope_id", jsonUUID p.scopeId),
    ("run_id", jsonUUID p.runId), ("branch_id", jsonUUID p.branchId),
    ("sequence", jsonNat p.sequence),
    ("parent_checkpoint", jsonOption jsonUUID p.parentCheckpoint),
    ("harness_id", p.harnessId.dump), ("harness_version", p.harnessVersion.dump),
    ("state_schema_version", jsonNat 1), ("event_watermark", jsonNat p.eventWatermark),
    ("state", p.state), ("memory_refs", jsonList dumpRef p.memoryRefs),
    ("saved_access_epoch", jsonNat p.savedAccessEpoch),
    ("saved_deletion_epoch", jsonNat p.savedDeletionEpoch)]

/-- The text that is signed. -/
def CheckpointPayload.text (p : CheckpointPayload) : String :=
  "checkpoint-envelope-v1:" ++ compactText p.dump.sortKeys

/-- A checkpoint as loaded: its payload, its checksum and its validated state. -/
structure SavedCheckpoint where
  payload : CheckpointPayload
  checksum : Digest
  state : CheckpointState
  deriving DecidableEq

/-- A checkpoint joined with its run. -/
def View.checkpointRun? (v : View) (id : UUID) : Option (CheckpointRow × CheckpointRunRow) :=
  (v.checkpoint? id).bind fun c => (v.run? c.scopeId c.runId).map fun r => (c, r)

/-- The references of a checkpoint, as a statement sees them. -/
def View.refsOf (v : View) (id : UUID) : List (UUID × Nat) :=
  ((v.referencesOf id).map fun r => (r.sourceId, r.sourceRevision)).insertionSort refBefore

/-- The payload of a stored checkpoint. -/
def CheckpointRow.payload (c : CheckpointRow) (run : CheckpointRunRow) (refs : List (UUID × Nat)) :
    CheckpointPayload where
  checkpointId := c.id
  scopeId := c.scopeId
  runId := c.runId
  branchId := c.branchId
  sequence := c.sequence
  parentCheckpoint := c.parentId
  harnessId := run.harnessId
  harnessVersion := run.harnessVersion
  eventWatermark := c.eventWatermark
  state := c.state
  memoryRefs := refs
  savedAccessEpoch := c.accessEpoch
  savedDeletionEpoch := c.deletionEpoch

/-! ## Envelopes -/

/-- The status that the ledger has for an operation. -/
def tracked (effects : List EffectEntry) (operation : UUID) : Option EffectStatus :=
  (effects.reverse.find? fun e => e.operationId = operation).map EffectEntry.status

/-- Whether the outcome of a status is open. -/
def EffectStatus.isOpen : EffectStatus → Bool
  | .dispatched | .unknown => true
  | _ => false

/-- Whether a status is an outcome. -/
def EffectStatus.terminal : EffectStatus → Bool
  | .confirmed | .failed => true
  | _ => false

/-- The operations whose outcome is open, in the ledger or as saved. -/
def unresolved (effects : List EffectEntry) (hints : List PendingEffect) : List UUID :=
  (effects.filter fun e => e.status.isOpen).map EffectEntry.operationId
    ++ (hints.filter fun h => h.status.isOpen
        && !(tracked effects h.operationId).any EffectStatus.terminal).map PendingEffect.operationId

/-- The hints that the ledger does not know. -/
def untracked (effects : List EffectEntry) (hints : List PendingEffect) : List UUID :=
  (hints.filter fun h => (tracked effects h.operationId).isNone).map PendingEffect.operationId

/-- A checkpoint with the ledger of its run. -/
structure Envelope where
  saved : SavedCheckpoint
  currentAccessEpoch : Nat
  currentDeletionEpoch : Nat
  requiresReconciliation : List UUID
  untrackedEffects : List UUID
  toolEffects : List EffectEntry
  resumeAllowed : Bool
  deriving DecidableEq

/-- The envelope of a saved checkpoint and a ledger. -/
def Envelope.of (saved : SavedCheckpoint) (epochs : Nat × Nat) (effects : List EffectEntry) :
    Envelope where
  saved := saved
  currentAccessEpoch := epochs.1
  currentDeletionEpoch := epochs.2
  requiresReconciliation := (unresolved effects saved.state.pendingEffects
    ++ untracked effects saved.state.pendingEffects).dedup.insertionSort (· ≤ ·)
  untrackedEffects := (untracked effects saved.state.pendingEffects).dedup.insertionSort (· ≤ ·)
  toolEffects := effects
  resumeAllowed := (unresolved effects saved.state.pendingEffects).isEmpty
    && (untracked effects saved.state.pendingEffects).isEmpty

/-! ## Forks -/

/-- A dispatched hint becomes unknown. -/
def PendingEffect.fence (e : PendingEffect) : PendingEffect where
  operationId := e.operationId
  description := e.description
  status := if e.status = .dispatched then .unknown else e.status
  pending := by
    have h := e.pending
    split
    · exact Or.inr (Or.inr rfl)
    · exact h

/-- The state that a restore continues with. -/
def CheckpointState.fence (s : CheckpointState) : CheckpointState where
  goal := s.goal
  constraints := s.constraints
  completedActions := s.completedActions
  decisions := s.decisions
  unresolvedQuestions := s.unresolvedQuestions
  nextActions := s.nextActions
  pendingEffects := s.pendingEffects.map PendingEffect.fence
  bounds := by
    rw [List.length_map]
    exact s.bounds
  uniqueEffects := by
    rw [List.map_map]
    exact s.uniqueEffects

/-- A stored reference as a reference of a request. -/
def validateReference (ref : UUID × Nat) : Option MemoryReference :=
  if h : 1 ≤ ref.2 ∧ ref.2 ≤ 1000 then some ⟨ref.1, ⟨ref.2, h⟩⟩ else none

/-- The request that inserts a fork. -/
def RestoreCheckpoint.fork? (data : RestoreCheckpoint) (saved : SavedCheckpoint) :
    Option CreateCheckpoint :=
  (saved.payload.memoryRefs.mapM validateReference).bind fun refs =>
    if h : saved.payload.eventWatermark ≤ maxWatermark ∧ refs.length ≤ 100 ∧ refs.Nodup then
      some {
        scopeId := saved.payload.scopeId
        runId := saved.payload.runId
        branchId := data.targetBranchId
        expectedHead := none
        harnessId := data.harnessId
        harnessVersion := data.harnessVersion
        eventWatermark := saved.payload.eventWatermark
        state := saved.state.fence
        memoryRefs := refs
        watermark := h.1
        bounds := h.2.1
        uniqueReferences := h.2.2 }
    else none

namespace Checkpoints

open MemoryService

variable (platform : Platform)

/-! ## Reading -/

/-- `checksum`. -/
def checksum (payload : CheckpointPayload) : Tx Digest := digest platform payload.text

/-- `load`: a checkpoint of a run that is not invalidated, with all of its references, the checksum it
was signed with and a valid state. -/
def load (checkpointId : UUID) (permission : Permission := .read) : Tx SavedCheckpoint := do
  let obj ← object checkpointId permission
  demand (decide (obj.kind = .checkpoint)) .notFound
  let row ← read fun v => (v.checkpointRun? checkpointId).filter fun cr => !cr.2.effectsInvalidated
  let (c, run) ← found row .checkpointInvalidated
  let refs ← read fun v => v.refsOf checkpointId
  demand (decide (refs.length = c.referenceCount)) .checkpointInvalidated
  let sum ← checksum platform (c.payload run refs)
  demand (decide (c.checksum = sum)) .checkpointInvalidated
  let state ← found (CheckpointState.validate c.state) .checkpointInvalidated
  pure ⟨c.payload run refs, c.checksum, state⟩

/-- `envelope`. -/
def envelope (checkpointId : UUID) : Tx Envelope := do
  let saved ← load platform checkpointId
  let current ← epochs
  let effects ← ToolEffects.listRun saved.payload.scopeId saved.payload.runId
  pure (.of saved current effects)

/-- `head`: the envelope of the head of a live branch. -/
def head (data : CheckpointBranch) : Tx Envelope := do
  scope data.scopeId .read
  let branch ← read fun v => v.branch? data.scopeId data.runId data.branchId
  let branch ← found branch .notFound
  demand (!branch.invalidated) .checkpointInvalidated
  let headId ← found branch.headId .notFound
  let saved ← envelope platform headId
  demand (decide (saved.saved.payload.scopeId = data.scopeId)
    && decide (saved.saved.payload.runId = data.runId)
    && decide (saved.saved.payload.branchId = data.branchId)
    && decide (saved.saved.payload.sequence = branch.sequence)) .checkpointInvalidated
  pure saved

/-! ## Writing -/

/-- `insert`: a signed checkpoint with its references. -/
def insert (data : CreateCheckpoint) (sequence : Nat) (parentId : Option UUID) : Tx Receipt := do
  let refs ← validateRefs data.scopeId data.memoryRefs
  let (accessEpoch, deletionEpoch) ← epochs
  let checkpointId ← newObject data.scopeId .checkpoint
  let payload : CheckpointPayload := {
    checkpointId := checkpointId
    scopeId := data.scopeId
    runId := data.runId
    branchId := data.branchId
    sequence := sequence
    parentCheckpoint := parentId
    harnessId := data.harnessId
    harnessVersion := data.harnessVersion
    eventWatermark := data.eventWatermark
    state := data.state.dump
    memoryRefs := refs.map fun ref => (ref.memoryId, ref.revision)
    savedAccessEpoch := accessEpoch
    savedDeletionEpoch := deletionEpoch }
  let sum ← checksum platform payload
  send (.checkpoint (.insertCheckpoint ⟨checkpointId, data.scopeId, data.runId, data.branchId,
    sequence, parentId, data.state.dump, data.eventWatermark, refs.length, accessEpoch,
    deletionEpoch, sum⟩))
  forEach refs fun ref =>
    send (.checkpoint (.insertReference ⟨checkpointId, data.scopeId, ref.memoryId, ref.revision,
      ref.kind⟩))
  audit "checkpoint" checkpointId
  pure (.checkpoint checkpointId data.runId data.branchId sequence parentId sum)

/-- The run of a request, of the same harness and not invalidated. -/
def ensureRun (data : CreateCheckpoint) : Tx Unit := do
  send (.checkpoint (.insertRun data.scopeId data.runId data.harnessId data.harnessVersion))
  let run ← read fun v => v.run? data.scopeId data.runId
  demand (!run.any CheckpointRunRow.effectsInvalidated) .checkpointInvalidated
  demand (run.any fun r => decide (r.harnessId = data.harnessId)
    && decide (r.harnessVersion = data.harnessVersion)) .checkpointHarnessConflict

/-- The part of `create` that runs once: compare the head of the branch and append to it. -/
def append (data : CreateCheckpoint) (keyDigest requestDigest : Digest) : Tx Receipt := do
  ensureRun data
  send (.checkpoint (.insertBranch data.scopeId data.runId data.branchId false))
  -- `FOR UPDATE` needs the update policy as well
  let branch ← read fun v => (v.branch? data.scopeId data.runId data.branchId).filter
    v.branchUpdatable
  let branch ← found branch .notFound
  demand (!branch.invalidated) .checkpointInvalidated
  demand (decide (branch.headId = data.expectedHead)) .checkpointHeadConflict
  match data.expectedHead with
  | none => pure ()
  | some parentId => do
    let parent ← load platform parentId
    demand (decide (parent.payload.eventWatermark ≤ data.eventWatermark)) .checkpointWatermarkConflict
  let result ← insert platform data (branch.sequence + 1) data.expectedHead
  saveResult .checkpoint keyDigest requestDigest result
  pure result

/-- The checkpoint of a receipt. -/
def checkpointId : Receipt → Option UUID
  | .checkpoint id _ _ _ _ _ => some id
  | _ => none

/-- The checkpoint of a receipt is loaded before it is returned. -/
def replayed (receipt : Receipt) : Tx Receipt := do
  forEach receipt.objects fun id => do
    let _ ← load platform id .write
    pure ()
  pure receipt

/-- `create`. -/
def create (data : CreateCheckpoint) (key : String) : Tx Receipt := do
  scope data.scopeId .write
  once platform .checkpoint key (compactText data.dump) (replayed platform) (append platform data)

/-- The envelope of the checkpoint that a receipt names. -/
def receiptEnvelope (receipt : Receipt) : Tx Envelope :=
  match checkpointId receipt with
  | some id => envelope platform id
  -- a stored result without the field is a `KeyError`
  | none => .raise .database

/-- The part of `restore` that runs once: a new branch, the fence, and the fork. -/
def forkOnce (data : RestoreCheckpoint) (saved : SavedCheckpoint)
    (keyDigest requestDigest : Digest) : Tx Envelope := do
  demand (decide (saved.payload.harnessId = data.harnessId)
    && decide (saved.payload.harnessVersion = data.harnessVersion)) .checkpointIncompatible
  let inserted ← sendReturning (.checkpoint (.insertBranch saved.payload.scopeId
    saved.payload.runId data.targetBranchId true))
  demand (match inserted with
    | .inserted row => row
    | _ => false) .checkpointBranchConflict
  ToolEffects.fenceRestore saved.payload.scopeId saved.payload.runId
  match data.fork? saved with
  -- `ValidationError`
  | none => .raise .database
  | some fork => do
    let result ← insert platform fork 1 (some data.checkpointId)
    saveResult .restoreCheckpoint keyDigest requestDigest result
    let id ← found (checkpointId result) .notFound
    audit "restore_checkpoint" id
    envelope platform id

/-- `restore`. -/
def restore (data : RestoreCheckpoint) (key : String) : Tx Envelope := do
  let saved ← load platform data.checkpointId .write
  once platform .restoreCheckpoint key (compactText data.dump) (receiptEnvelope platform)
    (forkOnce platform data saved)

end Checkpoints

end PgAgmemory

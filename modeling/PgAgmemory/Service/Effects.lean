import PgAgmemory.Service.Memory

/-! # Tool effects

The effect ledger of `ToolEffects`: an effect is planned once under its identity, moves through its
transitions, and `fence_restore` marks every dispatched effect of a run as unknown. -/

namespace PgAgmemory

open Json (Value)

/-- The entry of an effect in the ledger of its run. -/
structure EffectEntry where
  memoryId : UUID
  operationId : UUID
  revision : Nat
  status : EffectStatus
  deriving DecidableEq

/-- The ledger of a run is listed by operation. -/
def EffectEntry.before (a b : EffectEntry) : Prop := a.operationId ≤ b.operationId

instance EffectEntry.decidableBefore (a b : EffectEntry) : Decidable (a.before b) :=
  inferInstanceAs (Decidable (_ ≤ _))

/-- The order in which references are listed. -/
def refBefore (a b : UUID × Nat) : Prop := a.1 < b.1 ∨ (a.1 = b.1 ∧ a.2 ≤ b.2)

instance refDecidable (a b : UUID × Nat) : Decidable (refBefore a b) :=
  inferInstanceAs (Decidable (_ ∨ _))

/-- An effect with its current status and the state of its run; `load` adds its references. -/
structure LoadedEffect where
  row : ToolEffectRow
  status : EffectStatus
  runInvalidated : Bool
  memoryRefs : List (UUID × Nat) := []

/-- An effect with its history. -/
structure ToolEffectDetail where
  effect : LoadedEffect
  history : List ToolEffectRevisionRow

/-- Histories are listed by revision. -/
def ToolEffectRevisionRow.before (a b : ToolEffectRevisionRow) : Prop := a.revision ≤ b.revision

instance ToolEffectRevisionRow.decidableBefore (a b : ToolEffectRevisionRow) :
    Decidable (a.before b) := inferInstanceAs (Decidable (_ ≤ _))

/-- The entry of an effect, when its current revision can be read. -/
def View.effectEntry? (v : View) (e : ToolEffectRow) : Option EffectEntry :=
  (v.effectRevision? e.id e.currentRevision).map fun r => ⟨e.id, e.operationId, r.revision, r.status⟩

/-- An effect joined with its current revision and its run. -/
def View.loadedEffect? (v : View) (id : UUID) : Option LoadedEffect :=
  (v.effect? id).bind fun e => (v.effectRevision? id e.currentRevision).bind fun r =>
    (v.run? e.scopeId e.runId).map fun run => ⟨e, r.status, run.effectsInvalidated, []⟩

/-- The ledger of a run, as a statement sees it. -/
def View.runLedger (v : View) (scope run : UUID) : List EffectEntry :=
  ((v.effectsOf scope run).filterMap v.effectEntry?).insertionSort EffectEntry.before

/-- The text whose digest is the fingerprint of an action. -/
def fingerprintText (actionHash : Digest) : String := "effect-action-v1:" ++ actionHash.str

/-- The text whose digest is the external idempotency key of an effect. -/
def dispatchText (data : PlanToolEffect) (fingerprint : Digest) : String :=
  "effect-dispatch-v1:" ++ spacedText true (.arr [jsonUUID data.scopeId, jsonUUID data.runId,
    jsonUUID data.operationId, fingerprint.dump])

/-- The transitions that the service admits. -/
def transitions : EffectStatus → List EffectStatus
  | .planned => [.dispatched, .unknown]
  | .dispatched => [.unknown, .confirmed, .failed]
  | .unknown => [.confirmed, .failed]
  | .confirmed => []
  | .failed => []

/-- The service and the trigger admit the same transitions. -/
theorem mem_transitions {previous next : EffectStatus} :
    next ∈ transitions previous ↔ follows previous next = true := by
  cases previous <;> cases next <;> decide

namespace ToolEffects

open MemoryService

variable (platform : Platform)

/-- `load`: an effect with its current status and all of its references. -/
def load (effectId : UUID) (permission : Permission := .read) : Tx LoadedEffect := do
  let obj ← object effectId permission
  demand (decide (obj.kind = .toolEffect)) .notFound
  let row ← read fun v => v.loadedEffect? effectId
  let effect ← found row .effectInvalidated
  let refs ← read fun v => ((v.effectReferencesOf effectId).map fun r =>
    (r.sourceId, r.sourceRevision)).insertionSort refBefore
  demand (decide (refs.length = effect.row.referenceCount)) .effectInvalidated
  pure { effect with memoryRefs := refs }

/-- `get`: an effect with all of its history. -/
def get (effectId : UUID) : Tx ToolEffectDetail := do
  let effect ← load effectId
  let history ← read fun v => (v.effectRevisionsOf effectId).insertionSort ToolEffectRevisionRow.before
  demand (decide (history.length = effect.row.currentRevision)) .effectInvalidated
  pure ⟨effect, history⟩

/-- `list_run`. -/
def listRun (scopeId runId : UUID) : Tx (List EffectEntry) := read fun v => v.runLedger scopeId runId

/-- `append`: the next revision of an effect. -/
def append (new : NewEffectRevision) : Tx Receipt := do
  send (.ledger (.insertRevision new))
  audit ("tool_effect_" ++ new.status.str) new.effectId
  pure (.effect new.effectId new.revision new.status)

/-- Insert an effect with its references, its identity and its first revision. -/
def insertEffect (data : PlanToolEffect) (requestDigest : Digest)
    (refs : List ValidatedReference) : Tx Receipt := do
  let fingerprint ← digest platform (fingerprintText data.actionHash)
  let externalKey ← digest platform (dispatchText data fingerprint)
  let effectId ← newObject data.scopeId .toolEffect
  send (.ledger (.insertEffect ⟨effectId, data.scopeId, data.runId, data.operationId, data.toolName,
    fingerprint, externalKey, refs.length⟩))
  forEach refs fun ref =>
    send (.ledger (.insertReference ⟨effectId, data.scopeId, ref.memoryId, ref.revision, ref.kind⟩))
  send (.ledger (.insertIdentity ⟨data.scopeId, data.runId, data.operationId, effectId,
    requestDigest⟩))
  append ⟨effectId, 1, .planned, ⟨"Intent recorded", by decide +kernel, by decide +kernel,
    by decide +kernel⟩, .api, none, none⟩

/-- The part of `plan` that runs once: the effect of this identity, found or inserted. -/
def planOnce (data : PlanToolEffect) (requestDigest : Digest) : Tx Receipt := do
  let identity ← read fun v => v.effectIdentity? data.scopeId data.runId data.operationId
  match identity with
  | some row => do
    demand (decide (row.requestDigest = requestDigest)) .operationConflict
    let _ ← load row.effectId .write
    pure (.effect row.effectId 1 .planned)
  | none => do
    let run ← read fun v => v.run? data.scopeId data.runId
    let run ← found run .notFound
    demand (!run.effectsInvalidated) .effectRunInvalidated
    let current ← listRun data.scopeId data.runId
    demand (decide (current.length < 100)) .effectLimitExceeded
    let refs ← validateRefs data.scopeId data.memoryRefs .invalidEffectReference
    insertEffect platform data requestDigest refs

/-- The effect of a receipt is loaded before it is returned. -/
def replayed (permission : Permission) (receipt : Receipt) : Tx Receipt := do
  forEach receipt.objects fun effectId => do
    let _ ← load effectId permission
    pure ()
  pure receipt

/-- `plan`. -/
def plan (data : PlanToolEffect) (key : String) : Tx Receipt := do
  scope data.scopeId .write
  once platform .planToolEffect key (compactText data.dump) (replayed .write)
    fun keyDigest requestDigest => do
      let result ← planOnce platform data requestDigest
      saveResult .planToolEffect keyDigest requestDigest result
      pure result

/-- `transition`. -/
def transition (effectId : UUID) (data : TransitionToolEffect) (key : String) : Tx Receipt := do
  let effect ← load effectId .write
  once platform .transitionToolEffect key (objectPayload "memory_id" effectId data.dump) pure
    fun keyDigest requestDigest => do
      demand (decide (data.expectedRevision = effect.row.currentRevision)) .revisionConflict
      demand (decide (data.status ∈ transitions effect.status)) .effectTransitionConflict
      demand (!(decide (data.status = .dispatched) && effect.runInvalidated)) .effectRunInvalidated
      let result ← append ⟨effectId, data.expectedRevision + 1, data.status, data.reason, .api,
        data.receiptReference, data.receiptSource⟩
      saveResult .transitionToolEffect keyDigest requestDigest result
      pure result

/-- The reason of a revision that a restore appends. -/
def restoreReason : ShortText :=
  ⟨"Reconciliation required by checkpoint restore", by decide +kernel, by decide +kernel,
    by decide +kernel⟩

/-- `fence_restore`: every dispatched effect of the run becomes unknown. -/
def fenceRestore (scopeId runId : UUID) : Tx Unit := do
  let effects ← listRun scopeId runId
  forEach effects fun effect =>
    if effect.status = .dispatched then do
      let _ ← append ⟨effect.memoryId, effect.revision + 1, .unknown, restoreReason,
        .checkpointRestore, none, none⟩
      pure ()
    else pure ()

end ToolEffects

end PgAgmemory

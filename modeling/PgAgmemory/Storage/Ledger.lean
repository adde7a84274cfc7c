import PgAgmemory.Storage.Checkpoint

/-! # Statements on tool effects

An effect begins planned and every later revision follows its head: the trigger
`adopt_tool_effect_revision` admits only the transitions of `follows`, at a clock reading past the
head's, and moves the head. -/

namespace PgAgmemory

open Keyed (HasKey Table)

/-- The columns of a new effect. -/
structure NewToolEffect where
  id : UUID
  scopeId : UUID
  runId : UUID
  operationId : UUID
  toolName : ShortText
  actionFingerprint : Digest
  externalIdempotencyKey : Digest
  referenceCount : Nat

/-- The row of a new effect, at revision 1. -/
def NewToolEffect.row (n : NewToolEffect) : ToolEffectRow where
  id := n.id
  scopeId := n.scopeId
  runId := n.runId
  operationId := n.operationId
  toolName := n.toolName
  actionFingerprint := n.actionFingerprint
  externalIdempotencyKey := n.externalIdempotencyKey
  currentRevision := 1
  referenceCount := n.referenceCount

/-- The columns of a new effect revision. -/
structure NewEffectRevision where
  effectId : UUID
  revision : Nat
  status : EffectStatus
  reason : ShortText
  origin : Origin
  receiptReference : Option ShortText
  receiptSource : Option ReceiptSource

/-- The row that the trigger completes with its clock reading and the principal. -/
def NewEffectRevision.row (n : NewEffectRevision) (v : View) (m : Moment) :
    ToolEffectRevisionRow where
  effectId := n.effectId
  revision := n.revision
  status := n.status
  recordedAt := m.clock 0
  actorId := v.principal
  reason := n.reason
  receiptReference := n.receiptReference
  receiptSource := n.receiptSource
  origin := n.origin

/-- Statements on tool effects. -/
inductive LedgerStatement where
  | insertEffect (new : NewToolEffect)
  | insertReference (row : ToolEffectReferenceRow)
  | insertIdentity (row : ToolEffectIdentityRow)
  | insertRevision (new : NewEffectRevision)

/-- The texts that a statement sends. -/
def LedgerStatement.texts : LedgerStatement → List String
  | .insertEffect n => [n.toolName.str]
  | .insertReference _ => []
  | .insertIdentity _ => []
  | .insertRevision n => n.reason.str :: (n.receiptReference.map Text.str).toList

/-- The effects of a run that a statement sees. -/
def View.effectsOf (v : View) (scope run : UUID) : List ToolEffectRow :=
  v.effects.filter fun e => e.scopeId = scope && e.runId = run

/-- The trigger `guard_tool_effect`: the run exists, is not invalidated and has fewer than a hundred
effects. -/
def guardToolEffect (v : View) (scope run : UUID) : Bool :=
  (v.run? scope run).any fun r => !r.effectsInvalidated && (v.effectsOf scope run).length < 100

/-- The transitions that the trigger admits. -/
def follows (previous next : EffectStatus) : Bool :=
  match previous, next with
  | .planned, .dispatched | .planned, .unknown => true
  | .dispatched, .unknown | .dispatched, .confirmed | .dispatched, .failed => true
  | .unknown, .confirmed | .unknown, .failed => true
  | _, _ => false

/-- Whether a readable effect belongs to a readable run that is invalidated. -/
def runInvalidated (v : View) (effect : UUID) : Bool :=
  (v.effect? effect).any fun e => (v.run? e.scopeId e.runId).any fun r => r.effectsInvalidated

/-- The head of an effect, moved to a revision. -/
def moveEffectHead (effects : Table ToolEffectRow) (id : UUID) (revision : Nat) :
    Table ToolEffectRow :=
  effects.update (fun e => e.id = id) (fun e => { e with currentRevision := revision }) fun _ => rfl

/-- The conditions of `adopt_tool_effect_revision` on a revision after the first. -/
def transitionAdoptable (n : NewEffectRevision) (head : Nat) (previous : ToolEffectRevisionRow) :
    Bool :=
  decide (n.revision = head + 1) && follows previous.status n.status
    && (decide (n.origin = .api)
      || (decide (previous.status = .dispatched) && decide (n.status = .unknown)))

/-- The trigger `adopt_tool_effect_revision`. -/
def adoptEffectRevision (v : View) (m : Moment) (n : NewEffectRevision) :
    Except Fault (Table ToolEffectRow) := do
  let effect ← requireSome ((v.effect? n.effectId).filter fun _ => v.writable n.effectId)
  require (!(decide (n.status = .dispatched) && runInvalidated v n.effectId))
  if n.revision = 1 then
    require (effect.currentRevision = 1 && decide (n.status = .planned) && decide (n.origin = .api))
    pure v.store.ledger.effects
  else
    let previous ← requireSome (v.effectRevision? n.effectId effect.currentRevision)
    require (transitionAdoptable n effect.currentRevision previous)
    if m.clock 0 ≤ previous.recordedAt then .error .unavailable
    else
      -- the check constraint on the head
      require (1 ≤ n.revision && n.revision ≤ 4)
      pure (moveEffectHead v.store.ledger.effects n.effectId n.revision)

/-- The check constraints of an effect revision: receipts exactly on terminal statuses. -/
def NewEffectRevision.checks (n : NewEffectRevision) : Bool :=
  (1 ≤ n.revision && n.revision ≤ 4)
    && if n.status = .confirmed ∨ n.status = .failed
      then n.receiptReference.isSome && n.receiptSource.isSome
      else n.receiptReference.isNone && n.receiptSource.isNone

/-- Execute a statement on tool effects. -/
def LedgerStatement.exec (v : View) (m : Moment) : LedgerStatement → Except Fault Ledger
  | .insertEffect n => do
    require (guardToolEffect v n.scopeId n.runId)
    require (v.writable n.id)
    require (n.referenceCount ≤ 100)
    let effects ← insertRow v.store.ledger.effects n.row
    pure { v.store.ledger with effects := effects }
  | .insertReference r => do
    require (v.writable r.effectId && v.visible r.sourceId)
    require (referenceChecks r.sourceKind r.sourceRevision)
    let references ← insertRow v.store.ledger.references r
    pure { v.store.ledger with references := references }
  | .insertIdentity r => do
    require (v.permitted r.scopeId .write)
    let identities ← insertRow v.store.ledger.identities r
    pure { v.store.ledger with identities := identities }
  | .insertRevision n => do
    let effects ← adoptEffectRevision v m n
    require (v.writable n.effectId)
    require n.checks
    let revisions ← insertRow v.store.ledger.revisions (n.row v m)
    pure { v.store.ledger with effects := effects, revisions := revisions }

/-- The checks that a statement defers to the commit. -/
def LedgerStatement.deferred : LedgerStatement → List Deferred
  | .insertEffect n => [.toolEffect n.id]
  | .insertReference r => [.toolEffect r.effectId]
  | .insertIdentity _ => []
  | .insertRevision n => [.toolEffect n.effectId]

/-! ## Deferred checks -/

/-- The readable revisions of an effect. -/
def View.effectRevisionsOf (v : View) (id : UUID) : List ToolEffectRevisionRow :=
  v.effectRevisions.filter fun r => r.effectId = id

/-- The readable references of an effect. -/
def View.effectReferencesOf (v : View) (id : UUID) : List ToolEffectReferenceRow :=
  v.effectReferences.filter fun r => r.effectId = id

/-- `check_tool_effect`: as many revisions as the head says, none past it, and every reference. -/
def View.checkToolEffect (v : View) (id : UUID) : Bool :=
  (v.effect? id).all fun e =>
    decide ((v.effectRevisionsOf id).length = e.currentRevision)
      && (v.effectRevisionsOf id).all (fun r => r.revision ≤ e.currentRevision)
      && decide ((v.effectReferencesOf id).length = e.referenceCount)

end PgAgmemory

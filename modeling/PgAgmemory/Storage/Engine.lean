import PgAgmemory.Storage.Policies

/-! # The engine

What a statement runs in: the faults it may end with, the instants and random values that its moment
supplies, and the functions of outside libraries (`Platform`). A statement is a function to
`Except Fault`; `require` and `insertRow` are its two ways to be refused. -/

namespace PgAgmemory

open Keyed (HasKey Table)

/-! ## Faults -/

/-- The domain errors. -/
inductive ErrorCode where
  | unauthenticated | notFound | idempotencyConflict | sourceEventConflict | invalidEvidence
  | relationRevisionRequired | revisionConflict | revisionLimitExceeded | deletionLimitExceeded
  | budgetExhausted | budgetTooSmall | relationInvalidated | assertionInvalidated
  | invalidCheckpointReference | invalidEffectReference | invalidRelationReference
  | entityInvalidated | graphInvalidated | embeddingInputMismatch | embeddingUnavailable
  | embeddingConflict | embeddingLimitExceeded | jobInvalidated | jobRetryConflict
  | jobIntentConflict | jobLimitExceeded | jobCancelConflict | jobLeaseConflict | staleContext
  | checkpointInvalidated | checkpointHarnessConflict | checkpointHeadConflict
  | checkpointWatermarkConflict | checkpointIncompatible | checkpointBranchConflict
  | effectInvalidated | operationConflict | effectRunInvalidated | effectLimitExceeded
  | effectTransitionConflict
  deriving DecidableEq

/-- The code that the response carries. -/
def ErrorCode.str : ErrorCode → String
  | .unauthenticated => "unauthenticated"
  | .notFound => "not_found"
  | .idempotencyConflict => "idempotency_conflict"
  | .sourceEventConflict => "source_event_conflict"
  | .invalidEvidence => "invalid_evidence"
  | .relationRevisionRequired => "relation_revision_required"
  | .revisionConflict => "revision_conflict"
  | .revisionLimitExceeded => "revision_limit_exceeded"
  | .deletionLimitExceeded => "deletion_limit_exceeded"
  | .budgetExhausted => "budget_exhausted"
  | .budgetTooSmall => "budget_too_small"
  | .relationInvalidated => "relation_invalidated"
  | .assertionInvalidated => "assertion_invalidated"
  | .invalidCheckpointReference => "invalid_checkpoint_reference"
  | .invalidEffectReference => "invalid_effect_reference"
  | .invalidRelationReference => "invalid_relation_reference"
  | .entityInvalidated => "entity_invalidated"
  | .graphInvalidated => "graph_invalidated"
  | .embeddingInputMismatch => "embedding_input_mismatch"
  | .embeddingUnavailable => "embedding_unavailable"
  | .embeddingConflict => "embedding_conflict"
  | .embeddingLimitExceeded => "embedding_limit_exceeded"
  | .jobInvalidated => "job_invalidated"
  | .jobRetryConflict => "job_retry_conflict"
  | .jobIntentConflict => "job_intent_conflict"
  | .jobLimitExceeded => "job_limit_exceeded"
  | .jobCancelConflict => "job_cancel_conflict"
  | .jobLeaseConflict => "job_lease_conflict"
  | .staleContext => "stale_context"
  | .checkpointInvalidated => "checkpoint_invalidated"
  | .checkpointHarnessConflict => "checkpoint_harness_conflict"
  | .checkpointHeadConflict => "checkpoint_head_conflict"
  | .checkpointWatermarkConflict => "checkpoint_watermark_conflict"
  | .checkpointIncompatible => "checkpoint_incompatible"
  | .checkpointBranchConflict => "checkpoint_branch_conflict"
  | .effectInvalidated => "effect_invalidated"
  | .operationConflict => "operation_conflict"
  | .effectRunInvalidated => "effect_run_invalidated"
  | .effectLimitExceeded => "effect_limit_exceeded"
  | .effectTransitionConflict => "effect_transition_conflict"

/-- The HTTP status of an error. -/
def ErrorCode.status : ErrorCode → Nat
  | .unauthenticated => 401
  | .notFound => 404
  | .invalidEvidence | .revisionLimitExceeded | .deletionLimitExceeded | .budgetExhausted
  | .budgetTooSmall | .invalidCheckpointReference | .invalidEffectReference
  | .invalidRelationReference | .embeddingLimitExceeded | .jobLimitExceeded
  | .checkpointIncompatible | .effectLimitExceeded => 422
  | _ => 409

/-- How a transaction can fail. -/
inductive Fault where
  /-- The service raised a domain error. -/
  | memory (code : ErrorCode)
  /-- The database refused a statement. -/
  | database
  /-- A dependency failed, or the database asked to retry. -/
  | unavailable
  deriving DecidableEq

/-- The HTTP status of a fault. -/
def Fault.status : Fault → Nat
  | .memory code => code.status
  | .database => 503
  | .unavailable => 503

/-! ## Outside functions -/

/-- **Outside libraries**: digests, the Japanese tokenizer, text search and vectors. -/
structure Platform where
  /-- HMAC-SHA-256 under a tenant's secret. -/
  hmac : Secret → String → Digest
  /-- SHA-256 of a text. -/
  sha256 : String → Digest
  /-- Segmentation of Japanese runs; `none` when the tokenizer is unavailable. -/
  segment : String → Option String
  /-- `search_text @@ plainto_tsquery('simple', query)`. -/
  tsMatches : TsVector → String → Bool
  /-- `ts_rank_cd(search_text, plainto_tsquery('simple', query))`. -/
  tsRank : TsVector → String → Rat
  /-- The stored vector of a query's values. -/
  embed : List Json.Numeral → Embedding
  /-- The norm check of stored vectors. -/
  unitNorm : Embedding → Bool
  /-- Cosine distance. -/
  distance : Embedding → Embedding → Rat

/-! ## Moments and sessions -/

/-- What one statement reads from its surroundings. -/
structure Moment where
  /-- `statement_timestamp()`. -/
  timestamp : Time
  /-- The successive readings of `clock_timestamp()` inside the statement. -/
  clock : Nat → Time
  /-- The value of `uuid4()` drawn for the statement. -/
  uuid : UUID
  /-- The value of `secrets.randbelow(1000)` drawn for the statement. -/
  jitter : Fin 1000

/-- A check that a constraint trigger has deferred to the commit. -/
inductive Deferred where
  | assertionHistory (id : UUID)
  | relationShape (id : UUID)
  | entityEvidence (id : UUID)
  | checkpointReferences (id : UUID)
  | checkpointHead (scope run branch : UUID)
  | toolEffect (id : UUID)
  | jobInputs (id : UUID)
  deriving DecidableEq

/-- An open transaction. -/
structure Session where
  principal : UUID
  store : Store
  /-- Checks deferred to the commit. -/
  deferred : List Deferred

/-- What a statement of the session sees at a moment. -/
def Session.view (session : Session) (moment : Moment) : View :=
  ⟨session.store, session.principal, moment.timestamp⟩

/-! ## Refusals -/

/-- Go on only under a condition. -/
def require (condition : Bool) : Except Fault Unit :=
  if condition then .ok () else .error .database

/-- Go on only with a value. -/
def requireSome {α : Type} : Option α → Except Fault α
  | some a => .ok a
  | none => .error .database

/-- Insert a row under a free primary key. -/
def insertRow {α κ : Type} [HasKey α κ] [DecidableEq κ] (t : Table α) (r : α) :
    Except Fault (Table α) := requireSome (t.insert? r)

@[simp] theorem require_eq_ok {condition : Bool} {u : Unit} :
    require condition = .ok u ↔ condition = true := by
  unfold require
  split <;> simp_all

@[simp] theorem requireSome_eq_ok {α : Type} {o : Option α} {a : α} :
    requireSome o = .ok a ↔ o = some a := by
  cases o <;> simp [requireSome]

@[simp] theorem insertRow_eq_ok {α κ : Type} [HasKey α κ] [DecidableEq κ] {t t' : Table α} {r : α} :
    insertRow t r = .ok t' ↔ t.insert? r = some t' := requireSome_eq_ok

/-- **Inversion of sequencing**: a chain of checks succeeds when each of them does. -/
@[simp] theorem bind_eq_ok {ε α β : Type} {x : Except ε α} {f : α → Except ε β} {b : β} :
    (x >>= f) = .ok b ↔ ∃ a, x = .ok a ∧ f a = .ok b := by
  cases x with
  | error e => exact ⟨fun h => (nomatch h), fun ⟨_, h, _⟩ => (nomatch h)⟩
  | ok a => exact ⟨fun h => ⟨a, rfl, h⟩, fun ⟨a', ha, h⟩ => by cases ha; exact h⟩

end PgAgmemory

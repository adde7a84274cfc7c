import PgAgmemory.Models.Requests
import PgAgmemory.Storage.Schema

/-! # Queries

The request models that page through episodes, entities, owned jobs and the revisions of an
assertion. Their bounds are fields, as those of every other request. A cursor holds the instant and
the id of the last row of a page. -/

namespace PgAgmemory

/-- The cursor of a page: the time and the id of its last row. -/
structure Cursor where
  /-- `recorded_at`, or `created_at` of a job. -/
  recordedAt : Time
  /-- `memory_id`, or `job_id`. -/
  memoryId : UUID
  deriving DecidableEq

/-- List the episodes of some scopes. -/
structure QueryEpisodes where
  scopeIds : List UUID
  occurredFrom : Option AwareDatetime := none
  occurredTo : Option AwareDatetime := none
  maxItems : Nat := 20
  before : Option Cursor := none
  /-- 1 to 32 scopes, 1 to 100 items. -/
  limits : (1 ≤ scopeIds.length ∧ scopeIds.length ≤ 32) ∧ (1 ≤ maxItems ∧ maxItems ≤ 100) := by
    decide
  /-- No scope twice, and an ordered interval. -/
  valid : scopeIds.Nodup ∧ ∀ a ∈ occurredFrom, ∀ b ∈ occurredTo, a.instant < b.instant := by
    decide +kernel

/-- List the entities of some scopes. -/
structure QueryEntities where
  scopeIds : List UUID
  entityType : Option EntityType := none
  canonicalLabel : Option ShortText := none
  maxItems : Nat := 20
  before : Option Cursor := none
  /-- 1 to 32 scopes, 1 to 100 items. -/
  limits : (1 ≤ scopeIds.length ∧ scopeIds.length ≤ 32) ∧ (1 ≤ maxItems ∧ maxItems ≤ 100) := by
    decide
  /-- No scope twice. -/
  distinct : scopeIds.Nodup := by decide +kernel

/-- List the caller's own jobs of some scopes; without states, jobs in every state. -/
structure QueryJobs where
  scopeIds : List UUID
  states : List JobState := []
  maxItems : Nat := 20
  before : Option Cursor := none
  /-- 1 to 32 scopes, 1 to 100 items, at most five states. -/
  limits : (1 ≤ scopeIds.length ∧ scopeIds.length ≤ 32) ∧ (1 ≤ maxItems ∧ maxItems ≤ 100)
    ∧ states.length ≤ 5 := by decide
  /-- No scope and no state twice. -/
  distinct : scopeIds.Nodup ∧ states.Nodup := by decide +kernel

/-- List the revisions of an assertion, from the last one below `beforeRevision` down. -/
structure AssertionHistory where
  memoryId : UUID
  maxItems : Nat := 20
  beforeRevision : Option Nat := none
  /-- 1 to 100 items. -/
  limits : 1 ≤ maxItems ∧ maxItems ≤ 100 := by decide
  /-- A revision or one more than the last. -/
  bounds : ∀ n ∈ beforeRevision, 1 ≤ n ∧ n ≤ 1001 := by decide

end PgAgmemory

import Mathlib.Data.Prod.Lex
import PgAgmemory.Service.Graph
import PgAgmemory.Service.History
import PgAgmemory.Service.Jobs

/-! # Listings

`query_episodes`, `query_entities` and the job query: the rows of some scopes that match a filter,
from the latest down, a page at a time. Each fetches one row more than it returns, and the last
returned row is the cursor of the next page when there is such a row. -/

namespace PgAgmemory

/-! ## Pages -/

/-- What a page is ordered by: the time, then the id. -/
abbrev ListingKey := Time ×ₗ UUID

/-- The key of a cursor. -/
def Cursor.key (c : Cursor) : ListingKey := toLex (c.recordedAt, c.memoryId)

/-- A page of a listing. -/
structure Page (α : Type) where
  items : List α
  nextCursor : Option Cursor
  consistency : Nat × Nat
  deriving DecidableEq

/-- `(recorded_at, id) < (before_time, before_id)`, or no cursor. -/
def belowCursor (before : Option Cursor) (row : Cursor) : Bool :=
  before.all fun c => decide (row.key < c.key)

/-- The rows below a cursor: `ORDER BY recorded_at DESC, id DESC LIMIT`. -/
def fetchPage {ρ : Type} (cursorOf : ρ → Cursor) (before : Option Cursor) (limit : Nat)
    (rows : List ρ) : List ρ :=
  ((rows.filter fun r => belowCursor before (cursorOf r)).insertionSort
    fun a b => (cursorOf b).key ≤ (cursorOf a).key).take limit

/-- The next cursor: the last of the returned rows, when more were fetched. -/
def nextCursor {ρ : Type} (cursorOf : ρ → Cursor) (maxItems : Nat) (rows : List ρ) : Option
  Cursor :=
  if maxItems < rows.length then (rows.take maxItems).getLast?.map cursorOf else none

/-! ## Rows -/

/-- What a page says about an episode. -/
structure EpisodeSummary where
  memoryId : UUID
  scopeId : UUID
  occurredAt : Time
  recordedAt : Time
  deriving DecidableEq

/-- The cursor of an episode. -/
def EpisodeSummary.cursor (e : EpisodeSummary) : Cursor := ⟨e.recordedAt, e.memoryId⟩

/-- A row of the entity query: a summary with the evidence that is counted and the evidence that is
there. -/
structure CountedEntity where
  summary : EntitySummary
  referenceCount : Nat
  evidenceCount : Nat

/-- The cursor of an entity. -/
def EntitySummary.cursor (e : EntitySummary) : Cursor := ⟨e.recordedAt, e.memoryId⟩

/-- The cursor of a job. -/
def JobRow.cursor (j : JobRow) : Cursor := ⟨j.createdAt, j.id⟩

/-- What a page says about a job. -/
structure ListedJob where
  job : LoadedJob
  scopeId : UUID

namespace View

variable (v : View)

/-- The readable episodes that a query matches. -/
def matchingEpisodes (data : QueryEpisodes) : List EpisodeSummary :=
  v.episodes.filterMap fun e => (v.object? e.id).bind fun o =>
    if data.scopeIds.contains e.scopeId
      && (data.occurredFrom.all fun t => decide (t.instant ≤ e.occurredAt))
      && (data.occurredTo.all fun t => decide (e.occurredAt < t.instant))
    then some ⟨e.id, e.scopeId, e.occurredAt, o.createdAt⟩ else none

/-- The readable entities that a query matches. -/
def matchingEntities (data : QueryEntities) : List CountedEntity :=
  v.entities.filterMap fun e => (v.object? e.id).bind fun o =>
    if data.scopeIds.contains e.scopeId
      && (data.entityType.all fun type => decide (e.entityType = type))
      && (data.canonicalLabel.all fun label => decide (e.canonicalLabel = label))
    then some ⟨⟨e.id, e.scopeId, e.entityType, e.canonicalLabel, o.createdAt⟩, e.referenceCount,
      ((v.evidenceOf e.id).filter fun x => (v.episode? x.sourceId).isSome).length⟩
    else none

/-- The caller's own jobs that a query matches. -/
def matchingJobs (data : QueryJobs) : List JobRow :=
  v.jobs.filter fun j => decide (j.principalId = v.principal) && data.scopeIds.contains j.scopeId
    && (data.states.isEmpty || data.states.contains j.state)

end View

/-! ## Queries -/

namespace MemoryService

/-- `query_episodes`. -/
def queryEpisodes (data : QueryEpisodes) : Tx (Page EpisodeSummary) := do
  let rows ← read fun v => fetchPage EpisodeSummary.cursor data.before (data.maxItems + 1)
    (v.matchingEpisodes data)
  let rows ← decode (fun e => decide (readableTime e.occurredAt)) rows
  let consistency ← epochs
  pure ⟨rows.take data.maxItems, nextCursor EpisodeSummary.cursor data.maxItems rows, consistency⟩

end MemoryService

namespace SqlGraph

open MemoryService

/-- The check of a selected entity. -/
def listedEntity (row : CountedEntity) : Tx EntitySummary := do
  demand (decide (row.evidenceCount = row.referenceCount)) .entityInvalidated
  pure row.summary

/-- `query_entities`. -/
def queryEntities (data : QueryEntities) : Tx (Page EntitySummary) :=
  -- a label is a parameter of the query, and a text with U+0000 cannot be one
  if !(data.canonicalLabel.all fun label => storable label.str) then .raise .database else do
    let rows ← read fun v => fetchPage (fun e => e.summary.cursor) data.before (data.maxItems + 1)
      (v.matchingEntities data)
    let entities ← forCollect listedEntity (rows.take data.maxItems)
    let consistency ← epochs
    pure ⟨entities, nextCursor (fun e => e.summary.cursor) data.maxItems rows, consistency⟩

end SqlGraph

namespace Jobs

open MemoryService

/-- A selected job in detail. -/
def listedJob (row : JobRow) : Tx ListedJob := do
  let job ← get row.id
  pure ⟨job, row.scopeId⟩

/-- `query`. -/
def query (data : QueryJobs) : Tx (Page ListedJob) := do
  let rows ← read fun v => fetchPage JobRow.cursor data.before (data.maxItems + 1)
    (v.matchingJobs data)
  let jobs ← forCollect listedJob (rows.take data.maxItems)
  let consistency ← epochs
  pure ⟨jobs, nextCursor JobRow.cursor data.maxItems rows, consistency⟩

end Jobs

end PgAgmemory

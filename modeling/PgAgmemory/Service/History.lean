import PgAgmemory.Models.Queries
import PgAgmemory.Service.Memory

/-! # The history of an assertion

`assertion_history`: a page of the revisions of an assertion, from the greatest down. The rows that
the query returns must be exactly the numbers that are expected below the highest one, so a missing
revision is an error and never a gap. -/

namespace PgAgmemory

/-- A row of the query of revisions, with the outer joins to the relation and its target. -/
structure HistoryRow where
  revision : AssertionRevisionRow
  sourceId : Option UUID
  targetId : Option UUID
  /-- The episodes of the evidence; none when the aggregate is null. -/
  evidenceRefs : List UUID

/-- What a history says about a revision. -/
structure AssertionRevisionMetadata where
  revision : Nat
  validFrom : Option Time
  validTo : Option Time
  recordedAt : Time
  knownUntil : Option Time
  correctionReason : Option ShortText
  evidenceRefs : List UUID
  relation : Option RelationEndpoints
  deriving DecidableEq

/-- A page of a history. -/
structure AssertionHistoryPage where
  memoryId : UUID
  scopeId : UUID
  subject : ShortText
  predicate : Predicate
  currentRevision : Nat
  revisions : List AssertionRevisionMetadata
  nextBeforeRevision : Option Nat
  consistency : Nat × Nat
  deriving DecidableEq

/-- Later revisions come first. -/
def AssertionRevisionRow.after (a b : AssertionRevisionRow) : Prop := b.revision ≤ a.revision

instance AssertionRevisionRow.decidableAfter (a b : AssertionRevisionRow) : Decidable (a.after b) :=
  inferInstanceAs (Decidable (_ ≤ _))

/-- `range(start, stop, -1)`. -/
def countdown (start stop : Nat) : List Nat := (List.range (start - stop)).map (start - ·)

namespace View

variable (v : View)

/-- The episodes of the evidence of a revision, by id. -/
def evidenceRefs (id : UUID) (revision : Nat) : List UUID :=
  ((v.edges.filter fun e => e.childId = id && e.childRevision = revision
    && (v.episode? e.parentId).isSome).map ProvenanceEdgeRow.parentId).insertionSort (· ≤ ·)

/-- A revision with what is joined to it. -/
def historyRow (r : AssertionRevisionRow) : HistoryRow where
  revision := r
  sourceId := (v.relation? r.assertionId).map RelationRow.sourceId
  targetId := (v.target? r.assertionId r.revision).map RelationRevisionRow.targetId
  evidenceRefs := v.evidenceRefs r.assertionId r.revision

/-- The query of revisions: those up to a highest one, the latest first. -/
def historyRows (id : UUID) (highest limit : Nat) : List HistoryRow :=
  (((v.revisions.filter fun r => r.assertionId = id && decide (r.revision ≤ highest)).insertionSort
    AssertionRevisionRow.after).take limit).map v.historyRow

end View

/-- The highest revision of a page. -/
def AssertionHistory.highest (data : AssertionHistory) (currentRevision : Nat) : Nat :=
  min currentRevision (data.beforeRevision.getD 1001 - 1)

/-- The revisions that the query must return: those of the page and one more. -/
def AssertionHistory.expected (data : AssertionHistory) (highest : Nat) : List Nat :=
  countdown highest (highest - data.maxItems - 1)

namespace MemoryService

/-- The check of one selected revision. -/
def historyItem (isRelation : Bool) (row : HistoryRow) : Tx AssertionRevisionMetadata := do
  demand (decide (1 ≤ row.evidenceRefs.length) && decide (row.evidenceRefs.length ≤ 32))
    .assertionInvalidated
  let relation ← if isRelation then do
      let relation ← found (row.sourceId.bind fun source => row.targetId.map fun target =>
        RelationEndpoints.mk source target) .relationInvalidated
      pure (some relation)
    else pure none
  pure {
    revision := row.revision.revision
    validFrom := row.revision.validTime.lower
    validTo := row.revision.validTime.upper
    recordedAt := row.revision.systemFrom
    knownUntil := row.revision.systemTo
    correctionReason := row.revision.correctionReason
    evidenceRefs := row.evidenceRefs
    relation := relation }

/-- `assertion_history`. -/
def assertionHistory (data : AssertionHistory) : Tx AssertionHistoryPage := do
  let obj ← object data.memoryId
  demand (decide (obj.kind = .assertion)) .notFound
  let anchor ← read fun v => v.assertion? data.memoryId
  let anchor ← found anchor .assertionInvalidated
  let highest := data.highest anchor.currentRevision
  let rows ← read fun v => v.historyRows data.memoryId highest (data.maxItems + 1)
  let rows ← decode (fun row => row.revision.readable) rows
  demand (decide (rows.map (fun row => row.revision.revision) = data.expected highest))
    .assertionInvalidated
  let selected ← forCollect (historyItem anchor.isRelation) (rows.take data.maxItems)
  let consistency ← epochs
  pure {
    memoryId := data.memoryId
    scopeId := obj.scopeId
    subject := anchor.subject
    predicate := anchor.predicate
    currentRevision := anchor.currentRevision
    revisions := selected
    nextBeforeRevision := if data.maxItems < rows.length
      then selected.getLast?.map AssertionRevisionMetadata.revision else none
    consistency := consistency }

end MemoryService

end PgAgmemory

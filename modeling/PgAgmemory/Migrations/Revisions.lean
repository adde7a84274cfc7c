import PgAgmemory.Migrations.Legacy

/-! # The migration to revisions

The second schema keeps the versions of an assertion as revisions. Its script backfills a first revision
for every assertion, attaches the evidence to it and drops the columns that have moved
(`LegacyStore.migrate`). The triggers that adopt a revision and check a history are created after the
backfill, so they do not see its rows; the script ends with a check of its own. -/

namespace PgAgmemory

open Keyed (HasKey Table key)
open Keyed.Table (References)

/-! ## Rows of the second schema -/

/-- An assertion, with the number of its current revision. -/
structure HeadRow where
  tenantId : UUID
  id : UUID
  scopeId : UUID
  subject : String
  predicate : String
  currentRevision : Nat

instance : HasKey HeadRow (UUID × UUID) := ⟨fun r => (r.tenantId, r.id)⟩

/-- A row of `memory.assertion_revision`. -/
structure RevisionRow where
  tenantId : UUID
  assertionId : UUID
  scopeId : UUID
  revision : Nat
  value : String
  validTime : TstzRange
  systemTime : TstzRange
  epistemicStatus : String
  explicitIntent : Bool
  correctionReason : Option String

instance : HasKey RevisionRow (UUID × UUID × Nat) :=
  ⟨fun r => (r.tenantId, r.assertionId, r.revision)⟩

/-- The evidence of one revision from one episode. -/
structure EvidenceRow where
  tenantId : UUID
  childId : UUID
  childRevision : Nat
  parentId : UUID
  scopeId : UUID
  quote : String

instance : HasKey EvidenceRow (UUID × UUID × Nat × UUID) :=
  ⟨fun r => (r.tenantId, r.childId, r.childRevision, r.parentId)⟩

/-- The content of a database of the second schema. -/
structure RevisedStore where
  objects : Table LegacyObjectRow
  tombstones : Table LegacyTombstoneRow
  episodes : Table LegacyEpisodeRow
  heads : Table HeadRow
  revisions : Table RevisionRow
  evidence : Table EvidenceRow

/-- The check constraints of a revision. -/
def RevisionRow.checks (r : RevisionRow) : Bool :=
  (decide (1 ≤ r.revision) && decide (r.revision ≤ 1000)) && r.validTime.validCheck
    && (r.systemTime.systemCheck && r.systemTime.finite)
    && decide (r.epistemicStatus = "reported") && r.explicitIntent
    && (if r.revision = 1 then r.correctionReason.isNone
      else r.correctionReason.any fun reason =>
        decide (1 ≤ reason.length) && decide (reason.length ≤ 256))

/-! ## The script -/

/-- The first revision of an assertion. -/
def LegacyAssertionRow.backfill (a : LegacyAssertionRow) : RevisionRow where
  tenantId := a.tenantId
  assertionId := a.id
  scopeId := a.scopeId
  revision := 1
  value := a.value
  validTime := a.validTime
  systemTime := a.systemTime
  epistemicStatus := a.epistemicStatus
  explicitIntent := a.explicitIntent
  correctionReason := none

/-- An assertion without the columns that have moved. -/
def LegacyAssertionRow.head (a : LegacyAssertionRow) : HeadRow where
  tenantId := a.tenantId
  id := a.id
  scopeId := a.scopeId
  subject := a.subject
  predicate := a.predicate
  currentRevision := 1

/-- Evidence of the first revision. -/
def LegacyEdgeRow.attach (e : LegacyEdgeRow) : EvidenceRow where
  tenantId := e.tenantId
  childId := e.childId
  childRevision := 1
  parentId := e.parentId
  scopeId := e.scopeId
  quote := e.quote

/-- Why the script aborts. -/
inductive MigrationFault where
  /-- `row_security = off` refuses a role that the policies apply to. -/
  | rowSecurity
  /-- A backfilled row violates a check. -/
  | check
  /-- "legacy assertion is missing evidence". -/
  | missingEvidence
  deriving DecidableEq

/-- Whether a revision has evidence. -/
def RevisedStore.evidenced (s : RevisedStore) (r : RevisionRow) : Bool :=
  s.evidence.rows.any fun e =>
    decide ((e.tenantId, e.childId, e.childRevision) = (r.tenantId, r.assertionId, r.revision))

/-- The backfilled store. -/
def LegacyStore.backfilled (s : LegacyStore) : RevisedStore where
  objects := s.objects
  tombstones := s.tombstones
  episodes := s.episodes
  heads := s.assertions.map LegacyAssertionRow.head id (fun _ => rfl) Function.injective_id
  revisions := s.assertions.map LegacyAssertionRow.backfill (fun k => (k.1, k.2, 1)) (fun _ => rfl)
    fun _ _ h => Prod.ext (Prod.mk.inj h).1 (Prod.mk.inj (Prod.mk.inj h).2).1
  evidence := s.edges.map LegacyEdgeRow.attach (fun k => (k.1, k.2.1, 1, k.2.2)) (fun _ => rfl)
    fun _ _ h => by
      obtain ⟨htenant, hrest⟩ := Prod.mk.inj h
      obtain ⟨hchild, hrest⟩ := Prod.mk.inj hrest
      exact Prod.ext htenant (Prod.ext hchild (Prod.mk.inj hrest).2)

/-- **The script**, run by a role that is or is not exempt from row security. -/
def LegacyStore.migrate (exempt : Bool) (s : LegacyStore) : Except MigrationFault RevisedStore := do
  if exempt then pure () else .error .rowSecurity
  if s.backfilled.revisions.rows.all RevisionRow.checks then pure () else .error .check
  if s.backfilled.revisions.rows.all s.backfilled.evidenced then pure s.backfilled
    else .error .missingEvidence

/-- A database under migration. -/
inductive Database where
  | legacy (s : LegacyStore)
  | revised (s : RevisedStore)

/-- The migration runs in a transaction: a database whose script aborts is left as it was. -/
def Database.migrate (exempt : Bool) : Database → Database
  | .legacy s =>
    match s.migrate exempt with
    | .ok s' => .revised s'
    | .error _ => .legacy s
  | .revised s => .revised s

/-! ## Histories -/

/-- The revisions of an assertion. -/
def RevisedStore.revisionsOf (s : RevisedStore) (h : HeadRow) : List RevisionRow :=
  s.revisions.rows.filter fun r => decide ((r.tenantId, r.assertionId) = (h.tenantId, h.id))

/-- One revision of `check_assertion_history`: at most the head, open exactly at the head, and starting
where its predecessor ends. -/
def RevisionRow.contiguous (rows : List RevisionRow) (head : Nat) (r : RevisionRow) : Bool :=
  decide (r.revision ≤ head) && (r.systemTime.upperInf == decide (r.revision = head))
    && (decide (r.revision ≤ 1) || rows.any fun p => decide (p.revision + 1 = r.revision)
      && decide (p.systemTime.upper?.map Bound.value = r.systemTime.lower?.map Bound.value))

/-- `check_assertion_history` for an assertion that exists. -/
def RevisedStore.checkAssertionHistory (s : RevisedStore) (h : HeadRow) : Bool :=
  decide ((s.revisionsOf h).length = h.currentRevision)
    && (s.revisionsOf h).all (RevisionRow.contiguous (s.revisionsOf h) h.currentRevision)
    && (s.revisionsOf h).all s.evidenced

/-! ## Row security -/

/-- An object is live when no tombstone marks it. -/
def RevisedStore.live (s : RevisedStore) (tenantId id : UUID) : Bool :=
  s.tombstones.rows.all fun t => decide ((t.tenantId, t.objectId) ≠ (tenantId, id))

/-- What row security shows of a store to a caller with all permissions: the rows of live objects, and the
evidence between them. -/
def RevisedStore.visible (s : RevisedStore) : RevisedStore where
  objects := s.objects.delete fun r => !s.live r.tenantId r.id
  tombstones := s.tombstones
  episodes := s.episodes.delete fun r => !s.live r.tenantId r.id
  heads := s.heads.delete fun r => !s.live r.tenantId r.id
  revisions := s.revisions.delete fun r => !s.live r.tenantId r.assertionId
  evidence := s.evidence.delete fun r =>
    !(s.live r.tenantId r.childId && s.live r.tenantId r.parentId)

/-! ## Corrections -/

/-- A correction: the content of the next revision, and its evidence as episodes and quotes. -/
structure Correction where
  value : String
  validTime : TstzRange
  reason : String
  evidence : List (UUID × String)

/-- The revision that a correction inserts: the trigger `adopt_revision` dates it. -/
def Correction.row (c : Correction) (h : HeadRow) (adoptedAt : Time) : RevisionRow where
  tenantId := h.tenantId
  assertionId := h.id
  scopeId := h.scopeId
  revision := h.currentRevision + 1
  value := c.value
  validTime := c.validTime
  systemTime := .since adoptedAt
  epistemicStatus := "reported"
  explicitIntent := true
  correctionReason := some c.reason

/-- The system time of the old head, closed at an instant. -/
def TstzRange.closedAt (r : TstzRange) (t : Time) : TstzRange :=
  .between r.lower? (some ⟨.instant t, false⟩)

/-- The trigger `close_revision` at a later clock reading. -/
def TstzRange.closable (old new : TstzRange) (closedAt : Time) : Bool :=
  old.upperInf && !new.upperInf
    && decide (new.lower?.map Bound.value = old.lower?.map Bound.value)
    && !(new.upper?.any fun u => (Timestamptz.instant closedAt).before u.value)

/-- The table after the head has been closed. -/
def closeHead (revisions : Table RevisionRow) (previous : RevisionRow) (adoptedAt : Time) :
    Table RevisionRow :=
  revisions.update (fun r => decide (key r = key previous))
    (fun r => { r with systemTime := r.systemTime.closedAt adoptedAt }) fun _ => rfl

/-- The table after the head has been moved. -/
def advance (heads : Table HeadRow) (h : HeadRow) : Table HeadRow :=
  heads.update (fun r => decide (key r = key h))
    (fun r => { r with currentRevision := h.currentRevision + 1 }) fun _ => rfl

/-- The evidence of a new revision, row by row: each from a visible episode of the scope, with a quote. -/
def insertEvidence (s : RevisedStore) (h : HeadRow) (revision : Nat) :
    List (UUID × String) → Table EvidenceRow → Option (Table EvidenceRow)
  | [], t => some t
  | (parentId, quote) :: rest, t => do
    let episode ← s.visible.episodes.find? (h.tenantId, parentId)
    if episode.scopeId = h.scopeId ∧ quote ≠ "" then
      let t ← t.insert? ⟨h.tenantId, h.id, revision, parentId, h.scopeId, quote⟩
      insertEvidence s h revision rest t
    else none

/-- What the triggers, checks and constraints on revisions ask of a correction of a head. -/
def RevisedStore.adopts (s : RevisedStore) (head : HeadRow) (previous : RevisionRow) (c : Correction)
    (adoptedAt closedAt : Time) : Bool :=
  let closed := closeHead s.revisions previous adoptedAt
  -- `adopt_revision`: the head is open, and began before the clock reading
  (previous.systemTime.upperInf
      && previous.systemTime.lower?.any fun l => l.value.before (.instant adoptedAt))
    && previous.systemTime.closable (previous.systemTime.closedAt adoptedAt) closedAt
    && (closed.rows.all RevisionRow.checks && (c.row head adoptedAt).checks)
    -- the exclusion constraint on system times
    && closed.rows.all fun r => decide ((r.tenantId, r.assertionId) ≠ (head.tenantId, head.id))
      || !r.systemTime.overlaps (c.row head adoptedAt).systemTime

/-- The store after a head has moved, with the tables that moved with it. -/
def RevisedStore.moved (s : RevisedStore) (head : HeadRow) (revisions : Table RevisionRow)
    (evidence : Table EvidenceRow) : RevisedStore :=
  { s with heads := advance s.heads head, revisions := revisions, evidence := evidence }

/-- **A correction** of an assertion under the policies, triggers and checks of the second schema, with the
clock readings of `adopt_revision` and `close_revision`. -/
def RevisedStore.correct (s : RevisedStore) (tenantId id : UUID) (expectedRevision : Nat)
    (c : Correction) (adoptedAt closedAt : Time) : Option RevisedStore := do
  let head ← s.visible.heads.find? (tenantId, id)
  let previous ← s.visible.revisions.find? (tenantId, id, head.currentRevision)
  if expectedRevision = head.currentRevision ∧ s.adopts head previous c adoptedAt closedAt then
    let revisions ← (closeHead s.revisions previous adoptedAt).insert? (c.row head adoptedAt)
    let evidence ← insertEvidence s head (head.currentRevision + 1) c.evidence s.evidence
    let corrected := s.moved head revisions evidence
    -- the deferred trigger checks the assertion at the commit, as far as the caller sees it
    let moved ← corrected.visible.heads.find? (tenantId, id)
    if corrected.visible.checkAssertionHistory moved then pure corrected else none
  else none

end PgAgmemory

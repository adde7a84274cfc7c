import PgAgmemory.Storage.Statement
import Mathlib.Data.List.Sort

/-! # The memory service

The operations of `MemoryService` as programs over the statements: what every operation shares
(epochs, scopes, objects, digests, receipts, the audit log) and the operations on episodes and
assertions.

A mutation runs once a key: `once` looks for the receipt of its key, and only without one does the
fresh part run, which ends with saving a receipt. -/

namespace PgAgmemory

open Json (Value)

/-! ## Interactions -/

/-- Ask for something that a statement can see. -/
def read {α : Type} (query : View → α) : Tx α :=
  .select (fun m session => query (session.view m)) .pure

/-- Draw an identifier: `uuid4()`. -/
def drawUUID : Tx UUID := .select (fun m _ => m.uuid) .pure

/-- Raise a domain error. -/
def fail {α : Type} (code : ErrorCode) : Tx α := .raise (.memory code)

/-- Go on only under a condition. -/
def demand (condition : Bool) (code : ErrorCode) : Tx Unit :=
  if condition then pure () else fail code

/-- Go on only with a row. -/
def found {α : Type} (row : Option α) (code : ErrorCode) : Tx α :=
  match row with
  | some a => pure a
  | none => fail code

/-- Send a statement. -/
def send (statement : Statement) : Tx Unit := .execute statement fun _ => .pure ()

/-- Send a statement and keep what it returns. -/
def sendReturning (statement : Statement) : Tx Returned := .execute statement .pure

/-- Run a program for every element of a list. -/
def forEach {α : Type} (xs : List α) (f : α → Tx Unit) : Tx Unit := xs.forM f

/-- Run a program for every element of a list and collect the results. -/
def forCollect {α β : Type} (f : α → Tx β) : List α → Tx (List β)
  | [] => pure []
  | x :: xs => do
    let b ← f x
    let bs ← forCollect f xs
    pure (b :: bs)

/-! ## What requests and receipts name -/

/-- The objects that a receipt names. -/
def Receipt.objects : Receipt → List UUID
  | .observed memoryId => [memoryId]
  | .captured memoryId synthesisJobId => [memoryId, synthesisJobId]
  | .capturedBatch memoryId synthesisJobIds => memoryId :: synthesisJobIds
  | .assertion memoryId _ => [memoryId]
  | .entity memoryId => [memoryId]
  | .job jobId => [jobId]
  | .checkpoint checkpointId _ _ _ _ _ => [checkpointId]
  | .effect memoryId _ _ => [memoryId]
  | .embedding memoryId _ => [memoryId]
  | .deletion _ _ _ _ => []

/-- The scopes that a receipt names. -/
def Receipt.scopes : Receipt → List UUID
  | .deletion _ _ _ scopeIds => scopeIds
  | _ => []

/-- The order of references: by the text of the id, which is the order of the ids, then by
revision. -/
def MemoryReference.before (a b : MemoryReference) : Prop :=
  a.memoryId < b.memoryId ∨ (a.memoryId = b.memoryId ∧ a.revision.val ≤ b.revision.val)

instance MemoryReference.decidableBefore (a b : MemoryReference) : Decidable (a.before b) :=
  inferInstanceAs (Decidable (_ ∨ _))

/-- A reference together with the kind of its object. -/
structure ValidatedReference where
  memoryId : UUID
  revision : Nat
  kind : ObjectKind
  deriving DecidableEq

/-- What a revision of an assertion takes from its request. -/
structure RevisionContent where
  value : Content
  evidence : List Evidence
  validFrom : Option AwareDatetime
  validTo : Option AwareDatetime
  correctionReason : Option ShortText

/-- The content of a first revision. -/
def Remember.content (r : Remember) : RevisionContent where
  value := r.value
  evidence := r.evidence
  validFrom := r.validFrom
  validTo := r.validTo
  correctionReason := none

/-- The content of a correction. -/
def ReviseAssertion.content (r : ReviseAssertion) : RevisionContent where
  value := r.value
  evidence := r.evidence
  validFrom := r.validFrom
  validTo := r.validTo
  correctionReason := some r.reason

/-- The `valid_time` of a revision: `tstzrange(valid_from, valid_to, '[)')`. -/
def RevisionContent.validTime (c : RevisionContent) : Range :=
  ⟨c.validFrom.map AwareDatetime.instant, c.validTo.map AwareDatetime.instant⟩

/-- The text that identifies a source event. -/
def Observe.eventText (data : Observe) : String :=
  spacedText false (.arr [data.sourceNamespace.dump, data.sourceEventId.dump])

/-- The payload of a request about one object: `json.dumps` with sorted keys. -/
def objectPayload (name : String) (objectId : UUID) (request : Value) : String :=
  sortedText (.obj [(name, jsonUUID objectId), ("request", request)])

/-- A source episode with the quote taken from it. -/
structure QuotedSource where
  memoryId : UUID
  quote : LongText
  occurredAt : Time
  deriving DecidableEq

/-- The two entities of a relation revision. -/
structure RelationEndpoints where
  sourceEntity : UUID
  targetEntity : UUID
  deriving DecidableEq

/-- What `explain` says about one revision of an object. -/
inductive Explanation where
  | episode (row : Option EpisodeRow)
  | assertion (anchor : AssertionRow) (revision : AssertionRevisionRow)
      (relation : Option RelationEndpoints) (evidence : List QuotedSource)

/-- Episodes of evidence are listed by id. -/
def QuotedSource.before (a b : QuotedSource) : Prop := a.memoryId ≤ b.memoryId

instance QuotedSource.decidableBefore (a b : QuotedSource) : Decidable (a.before b) :=
  inferInstanceAs (Decidable (_ ≤ _))

/-- The evidence of a revision, as a statement sees it. -/
def View.quotedSources (v : View) (id : UUID) (revision : Nat) : List QuotedSource :=
  ((v.edges.filter fun e => e.childId = id && e.childRevision = revision).filterMap fun e =>
    (v.episode? e.parentId).map fun p => ⟨e.parentId, e.quote, p.occurredAt⟩).insertionSort
      QuotedSource.before

/-- The endpoints of one revision of a relation, as a statement sees them. -/
def View.endpoints? (v : View) (id : UUID) (revision : Nat) : Option RelationEndpoints :=
  (v.relation? id).bind fun l => (v.target? id revision).map fun t => ⟨l.sourceId, t.targetId⟩

/-- Whether the client can read the valid time of a revision. -/
def AssertionRevisionRow.readable (r : AssertionRevisionRow) : Bool :=
  (r.validTime.lower.all fun t => decide (readableTime t))
    && r.validTime.upper.all fun t => decide (readableTime t)

namespace MemoryService

variable (platform : Platform)

/-! ## Shared steps -/

/-- `bind_identity`: the principal of the session still exists. -/
def bindIdentity : Tx Unit := do
  let row ← read fun v => v.store.access.principals.find? v.principal
  demand row.isSome .unauthenticated

/-- The access epoch and the deletion epoch. -/
def epochs : Tx (Nat × Nat) :=
  read fun v => (v.store.access.accessEpoch, v.store.access.deletionEpoch)

/-- Require read access and a permission on a scope. -/
def scope (scopeId : UUID) (permission : Permission) : Tx Unit := do
  let allowed ← read fun v => v.permitted scopeId .read && v.permitted scopeId permission
  demand allowed .notFound

/-- The visible object of an id, with a permission on its scope. -/
def object (objectId : UUID) (permission : Permission := .read) : Tx ObjectRow := do
  let row ← read fun v => v.object? objectId
  let row ← found row .notFound
  scope row.scopeId permission
  pure row

/-- Decode the rows of a query: an instant outside the years 1 to 9999 is refused. -/
def decode {α : Type} (readable : α → Bool) (rows : List α) : Tx (List α) :=
  if rows.all readable then pure rows else .raise .database

/-- The digest of a text under the tenant's secret. -/
def digest (value : String) : Tx Digest :=
  read fun v => platform.hmac v.store.access.dedupSecret value

/-- Every object of a receipt is still visible and writable, every scope still deletable. -/
def checkReceipt (result : Receipt) : Tx Unit := do
  forEach result.objects fun objectId => do
    let _ ← object objectId .write
    pure ()
  forEach result.scopes fun scopeId => scope scopeId .delete

/-- `replay`: the digests of key and payload, and the result stored under the key, if any. -/
def replay (operation : Operation) (key payload : String) :
    Tx (Digest × Digest × Option Receipt) := do
  let keyDigest ← digest platform key
  let requestDigest ← digest platform payload
  let row ← read fun v => v.receipt? operation keyDigest
  match row with
  | none => pure (keyDigest, requestDigest, none)
  | some row => do
    demand (decide (row.requestDigest = requestDigest)) .idempotencyConflict
    checkReceipt row.result
    pure (keyDigest, requestDigest, some row.result)

/-- Store the result of an operation under its key. -/
def saveResult (operation : Operation) (keyDigest requestDigest : Digest) (result : Receipt) :
    Tx Unit :=
  send (.operation (.saveResult operation keyDigest requestDigest result))

/-- Write to the audit log. -/
def audit (action : String) (target : UUID) : Tx Unit := send (.operation (.audit action target))

/-- A new object of a kind. -/
def newObject (scopeId : UUID) (kind : ObjectKind) : Tx UUID := do
  let objectId ← drawUUID
  send (.insertObject objectId scopeId kind)
  pure objectId

/-- **Run once a key**: the stored receipt goes to `replayed`, and without one `fresh` runs with the
digests of key and payload. -/
def once {α : Type} (operation : Operation) (key payload : String) (replayed : Receipt → Tx α)
    (fresh : Digest → Digest → Tx α) : Tx α := do
  let (keyDigest, requestDigest, previous) ← replay platform operation key payload
  match previous with
  | some result => replayed result
  | none => fresh keyDigest requestDigest

/-- The Japanese segmentation of a text. -/
def segment (text : String) : Tx String :=
  match platform.segment text with
  | some segmented => pure segmented
  | none => .raise .unavailable

/-! ## Validation against the store -/

/-- One reference of a request: a live episode, assertion revision or entity of the scope. -/
def validateRef (scopeId : UUID) (errorCode : ErrorCode) (ref : MemoryReference) :
    Tx ValidatedReference := do
  let obj ← object ref.memoryId
  demand (decide (obj.scopeId = scopeId)
    && [ObjectKind.episode, .assertion, .entity].contains obj.kind) errorCode
  let existing ← if obj.kind = .assertion
    then read fun v => (v.revision? ref.memoryId ref.revision.val).isSome
    else pure (decide (ref.revision.val = 1))
  demand existing errorCode
  pure ⟨ref.memoryId, ref.revision.val, obj.kind⟩

/-- `validate_refs`: the references in order, each checked. -/
def validateRefs (scopeId : UUID) (refs : List MemoryReference)
    (errorCode : ErrorCode := .invalidCheckpointReference) : Tx (List ValidatedReference) :=
  forCollect (validateRef scopeId errorCode) (refs.insertionSort MemoryReference.before)

/-- Whether a quote occurs in a content. -/
def quoted (quote : LongText) (content : Content) : Bool :=
  decide (quote.str.toList <:+: content.str.toList)

/-- `validate_evidence`: every quote occurs in a live episode of the scope. -/
def validateEvidence (scopeId : UUID) (sources : List Evidence) : Tx Unit :=
  forEach sources fun evidence => do
    let source ← object evidence.memoryId
    demand (decide (source.scopeId = scopeId) && decide (source.kind = .episode)) .invalidEvidence
    let row ← read fun v => v.episode? evidence.memoryId
    demand (row.any fun episode => quoted evidence.quote episode.content) .invalidEvidence

/-! ## Episodes -/

/-- The part of `observe` that finds or records the source event. -/
def recordEvent (data : Observe) (requestDigest : Digest) : Tx UUID := do
  let eventDigest ← digest platform data.eventText
  let duplicate ← read fun v => v.sourceEvent? data.scopeId eventDigest
  match duplicate with
  | some row => do
    demand (decide (row.requestDigest = requestDigest)) .sourceEventConflict
    let _ ← object row.objectId .write
    pure row.objectId
  | none => do
    let objectId ← newObject data.scopeId .episode
    send (.content (.insertEpisode ⟨objectId, data.scopeId, data.occurredAt.instant, data.content,
      data.consentReference⟩))
    let segmented ← segment platform data.content.str
    send (.content (.insertEpisodeLexical ⟨objectId, data.scopeId, [segmented]⟩))
    send (.operation (.insertSourceEvent ⟨data.scopeId, eventDigest, requestDigest, objectId⟩))
    audit "observe" objectId
    pure objectId

/-- `observe`. -/
def observe (data : Observe) (key : String) : Tx Receipt := do
  scope data.scopeId .write
  once platform .observe key (compactText data.dump) pure fun keyDigest requestDigest => do
    let objectId ← recordEvent platform data requestDigest
    saveResult .observe keyDigest requestDigest (.observed objectId)
    pure (.observed objectId)

/-! ## Assertions -/

/-- `insert_revision`: the revision, its evidence and its Japanese projection. -/
def insertRevision (objectId scopeId : UUID) (revision : Nat) (data : RevisionContent) :
    Tx Unit := do
  send (.content (.insertRevision ⟨objectId, scopeId, revision, data.value, data.validTime,
    data.correctionReason⟩))
  forEach data.evidence fun evidence =>
    send (.content (.insertEdge ⟨objectId, revision, evidence.memoryId, scopeId, evidence.quote⟩))
  let identity ← read fun v => v.assertion? objectId
  let identity ← found identity .notFound
  let segmented ← segment platform
    (identity.subject.str ++ " " ++ identity.predicate.str ++ " " ++ data.value.str)
  send (.content (.insertAssertionLexical ⟨objectId, revision, scopeId, [segmented]⟩))

/-- `publish_assertion`: a new assertion at revision 1. -/
def publishAssertion (data : Remember) : Tx Receipt := do
  scope data.scopeId .write
  validateEvidence data.scopeId data.evidence
  let objectId ← newObject data.scopeId .assertion
  send (.content (.insertAssertion objectId data.scopeId data.subject data.predicate false))
  insertRevision platform objectId data.scopeId 1 data.content
  audit "remember" objectId
  pure (.assertion objectId 1)

/-- `remember`. -/
def remember (data : Remember) (key : String) : Tx Receipt := do
  scope data.scopeId .write
  once platform .remember key (compactText data.dump) pure fun keyDigest requestDigest => do
    let result ← publishAssertion platform data
    saveResult .remember keyDigest requestDigest result
    pure result

/-- The part of `revise_assertion` that runs once: compare the head and append a revision. -/
def appendCorrection (objectId scopeId : UUID) (data : ReviseAssertion)
    (keyDigest requestDigest : Digest) : Tx Receipt := do
  -- `FOR UPDATE` needs the update policy as well
  let head ← read fun v => (v.assertion? objectId).filter fun _ => v.writable objectId
  let head ← found head .notFound
  demand (!head.isRelation) .relationRevisionRequired
  demand (decide (head.currentRevision = data.expectedRevision.val)) .revisionConflict
  demand (decide (data.expectedRevision.val ≠ 1000)) .revisionLimitExceeded
  validateEvidence scopeId data.evidence
  let revision := data.expectedRevision.val + 1
  insertRevision platform objectId scopeId revision data.content
  saveResult .reviseAssertion keyDigest requestDigest (.assertion objectId revision)
  audit "revise_assertion" objectId
  pure (.assertion objectId revision)

/-- `revise_assertion`. -/
def reviseAssertion (objectId : UUID) (data : ReviseAssertion) (key : String) : Tx Receipt := do
  let obj ← object objectId .write
  demand (decide (obj.kind = .assertion)) .notFound
  once platform .reviseAssertion key (objectPayload "memory_id" objectId data.dump) pure
    (appendCorrection platform objectId obj.scopeId data)

/-! ## Explanation -/

/-- `explain`; the rows of each query are decoded as they are fetched. -/
def explain (data : Explain) : Tx Explanation := do
  let obj ← object data.memoryId
  if obj.kind = .episode then do
    demand (decide (data.revision.val = 1)) .notFound
    let row ← read fun v => v.episode? data.memoryId
    let _ ← decode (fun e => decide (readableTime e.occurredAt)) row.toList
    pure (.episode row)
  else do
    let row ← read fun v => (v.assertion? data.memoryId).bind fun a =>
      (v.revision? data.memoryId data.revision.val).map fun r => (a, r)
    let _ ← decode (fun x => x.2.readable) row.toList
    let (anchor, revision) ← found row .notFound
    let relation ← if anchor.isRelation then do
        let row ← read fun v => v.endpoints? data.memoryId data.revision.val
        let row ← found row .relationInvalidated
        pure (some row)
      else pure none
    let evidence ← read fun v => v.quotedSources data.memoryId data.revision.val
    let evidence ← decode (fun x => decide (readableTime x.occurredAt)) evidence
    pure (.assertion anchor revision relation evidence)

end MemoryService

end PgAgmemory

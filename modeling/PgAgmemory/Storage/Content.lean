import PgAgmemory.Storage.Engine

/-! # Statements on objects, episodes and assertions

Insertions with their `WITH CHECK` policies, check constraints and triggers. Inserting a revision is
the one with an effect on other rows: the trigger `adopt_revision` closes the current revision at its
own clock reading and moves the head (`adoptRevision`, `closeRevision`). -/

namespace PgAgmemory

open Keyed (HasKey Table)

/-! ## Objects -/

/-- `INSERT INTO memory.object`. -/
def insertObject (v : View) (m : Moment) (id scope : UUID) (kind : ObjectKind) :
    Except Fault Anchor := do
  require (v.permitted scope .write)
  let objects ← insertRow v.store.anchor.objects ⟨id, scope, kind, m.clock 0⟩
  pure { v.store.anchor with objects := objects }

/-- The tombstones of `INSERT INTO memory_ops.object_tombstone SELECT … FROM memory.object`. -/
def insertTombstones (v : View) (m : Moment) : List ObjectRow → Table TombstoneRow →
    Except Fault (Table TombstoneRow)
  | [], t => .ok t
  | o :: os, t => do
    require (v.permitted o.scopeId .delete)
    let t ← insertRow t ⟨o.id, o.scopeId, m.clock 0⟩
    insertTombstones v m os t

/-- The readable objects among some ids. -/
def View.objectsOf (v : View) (ids : List UUID) : List ObjectRow :=
  v.store.anchor.objects.rows.filter fun o => o.id ∈ ids && v.readable o

/-! ## Revisions -/

/-- The trigger `close_revision`: only closing a current interval is allowed. -/
def closeRevision (m : Moment) (old new : AssertionRevisionRow) : Except Fault Unit :=
  require (old.systemTo.isNone && new.systemTo.all (fun t => t ≤ m.clock 1)
    && new.systemTo.isSome && decide (new.systemFrom = old.systemFrom))

/-- The revision of a primary key, closed at an instant. -/
def closeAt (revisions : Table AssertionRevisionRow) (id : UUID) (revision : Nat) (t : Time) :
    Table AssertionRevisionRow :=
  revisions.update (fun r => r.assertionId = id && r.revision = revision)
    (fun r => { r with systemTo := some t }) fun _ => rfl

/-- The head of an assertion, moved to a revision. -/
def moveHead (assertions : Table AssertionRow) (id : UUID) (revision : Nat) : Table AssertionRow :=
  assertions.update (fun a => a.id = id) (fun a => { a with currentRevision := revision })
    fun _ => rfl

/-- The trigger `adopt_revision`: a first revision needs the head 1, a later one must follow the head
at a clock reading past the head's, closes the head there and becomes the head. -/
def adoptRevision (v : View) (m : Moment) (id : UUID) (revision : Nat) :
    Except Fault Contents := do
  -- `SELECT current_revision … FOR UPDATE` needs the update policy as well
  let head ← requireSome ((v.assertion? id).filter fun _ => v.writable id)
  if revision = 1 then
    require (head.currentRevision = 1)
    pure v.store.contents
  else
    require (revision = head.currentRevision + 1)
    let previous ← requireSome (v.revision? id head.currentRevision)
    if previous.systemTo.isSome || m.clock 0 ≤ previous.systemFrom then .error .unavailable
    else
      closeRevision m previous { previous with systemTo := some (m.clock 0) }
      pure { v.store.contents with
        revisions := closeAt v.store.contents.revisions id head.currentRevision (m.clock 0)
        assertions := moveHead v.store.contents.assertions id revision }

/-- The columns of a new revision. -/
structure NewRevision where
  assertionId : UUID
  scopeId : UUID
  revision : Nat
  value : Content
  validTime : Range
  correctionReason : Option ShortText

/-- The row that the trigger completes with its clock reading. -/
def NewRevision.row (n : NewRevision) (m : Moment) : AssertionRevisionRow where
  assertionId := n.assertionId
  scopeId := n.scopeId
  revision := n.revision
  value := n.value
  validTime := n.validTime
  systemFrom := m.clock 0
  systemTo := none
  correctionReason := n.correctionReason

/-- The check constraints of a revision. -/
def NewRevision.checks (n : NewRevision) : Bool :=
  (1 ≤ n.revision && n.revision ≤ 1000) && n.validTime.nonempty
    && decide (n.correctionReason.isNone = true ↔ n.revision = 1)

/-- `INSERT INTO memory.assertion_revision`. -/
def insertRevision (v : View) (m : Moment) (n : NewRevision) : Except Fault Contents := do
  let contents ← adoptRevision v m n.assertionId n.revision
  require (v.writable n.assertionId)
  require n.checks
  let revisions ← insertRow contents.revisions (n.row m)
  pure { contents with revisions := revisions }

/-! ## The statements -/

/-- Statements on episodes, assertions and their projections. -/
inductive ContentStatement where
  | insertEpisode (row : EpisodeRow)
  | insertAssertion (id scope : UUID) (subject : ShortText) (predicate : Predicate)
      (isRelation : Bool)
  | insertRevision (new : NewRevision)
  | insertEdge (row : ProvenanceEdgeRow)
  | insertEpisodeLexical (row : EpisodeLexicalRow)
  | insertAssertionLexical (row : AssertionLexicalRow)
  | insertEpisodeEmbedding (row : EpisodeEmbeddingRow)
  | insertAssertionEmbedding (row : AssertionEmbeddingRow)

/-- The texts that a statement sends. -/
def ContentStatement.texts : ContentStatement → List String
  | .insertEpisode r => [r.content.str, r.consentReference.str]
  | .insertAssertion _ _ subject predicate _ => [subject.str, predicate.str]
  | .insertRevision n => n.value.str :: (n.correctionReason.map Text.str).toList
  | .insertEdge r => [r.quote.str]
  | .insertEpisodeLexical r => r.searchText
  | .insertAssertionLexical r => r.searchText
  | .insertEpisodeEmbedding r => [r.model.name.str, r.model.revision.str]
  | .insertAssertionEmbedding r => [r.model.name.str, r.model.revision.str]

/-- The embeddings of one episode that a statement sees. -/
def View.embeddingsOfEpisode (v : View) (id : UUID) : List EpisodeEmbeddingRow :=
  v.episodeEmbeddings.filter fun r => r.episodeId = id

/-- The embeddings of one revision that a statement sees. -/
def View.embeddingsOfRevision (v : View) (id : UUID) (revision : Nat) :
    List AssertionEmbeddingRow :=
  v.assertionEmbeddings.filter fun r => r.assertionId = id && r.revision = revision

/-- Execute a statement on episodes, assertions or projections. -/
def ContentStatement.exec (platform : Platform) (v : View) (m : Moment) :
    ContentStatement → Except Fault Contents
  | .insertEpisode r => do
    require (v.writable r.id)
    let episodes ← insertRow v.store.contents.episodes r
    pure { v.store.contents with episodes := episodes }
  | .insertAssertion id scope subject predicate isRelation => do
    require (v.writable id)
    let assertions ← insertRow v.store.contents.assertions
      ⟨id, scope, subject, predicate, isRelation, 1⟩
    pure { v.store.contents with assertions := assertions }
  | .insertRevision n => PgAgmemory.insertRevision v m n
  | .insertEdge r => do
    require (v.writable r.childId && v.visible r.parentId)
    let edges ← insertRow v.store.contents.edges r
    pure { v.store.contents with edges := edges }
  | .insertEpisodeLexical r => do
    require (v.writable r.episodeId)
    let episodeLexical ← insertRow v.store.contents.episodeLexical r
    pure { v.store.contents with episodeLexical := episodeLexical }
  | .insertAssertionLexical r => do
    require (v.writable r.assertionId)
    let assertionLexical ← insertRow v.store.contents.assertionLexical r
    pure { v.store.contents with assertionLexical := assertionLexical }
  | .insertEpisodeEmbedding r => do
    -- the trigger `guard_embedding_count`
    require ((v.embeddingsOfEpisode r.episodeId).length < 8)
    require (v.writable r.episodeId)
    require (decide (r.revision = 1) && platform.unitNorm r.embedding)
    let episodeEmbeddings ← insertRow v.store.contents.episodeEmbeddings r
    pure { v.store.contents with episodeEmbeddings := episodeEmbeddings }
  | .insertAssertionEmbedding r => do
    require ((v.embeddingsOfRevision r.assertionId r.revision).length < 8)
    require (v.writable r.assertionId)
    require (platform.unitNorm r.embedding)
    let assertionEmbeddings ← insertRow v.store.contents.assertionEmbeddings r
    pure { v.store.contents with assertionEmbeddings := assertionEmbeddings }

/-- The checks that a statement defers to the commit. -/
def ContentStatement.deferred : ContentStatement → List Deferred
  | .insertAssertion id _ _ _ _ => [.assertionHistory id, .relationShape id]
  | .insertRevision n => [.assertionHistory n.assertionId, .relationShape n.assertionId]
  | _ => []

/-! ## Deferred checks -/

/-- The readable revisions of an assertion. -/
def View.revisionsOf (v : View) (id : UUID) : List AssertionRevisionRow :=
  v.revisions.filter fun r => r.assertionId = id

/-- One revision of `check_assertion_history`: at most the head, open exactly at the head, and
starting where its predecessor ends. -/
def contiguous (rows : List AssertionRevisionRow) (head : Nat) (r : AssertionRevisionRow) : Bool :=
  r.revision ≤ head && (r.systemTo.isNone == decide (r.revision = head))
    && (r.revision ≤ 1 || rows.any fun p =>
      decide (p.revision + 1 = r.revision) && decide (p.systemTo = some r.systemFrom))

/-- `check_assertion_history`: as many revisions as the head says, contiguous, and each with
evidence. An assertion that cannot be read is not checked. -/
def View.checkAssertionHistory (v : View) (id : UUID) : Bool :=
  (v.assertion? id).all fun a =>
    decide ((v.revisionsOf id).length = a.currentRevision)
      && (v.revisionsOf id).all (contiguous (v.revisionsOf id) a.currentRevision)
      && (v.revisionsOf id).all fun r =>
        v.edges.any fun e => e.childId = id && e.childRevision = r.revision

end PgAgmemory

import PgAgmemory.Service.Memory

/-! # The graph

The operations of `SqlGraph`: entities with their evidence, relations as typed assertions with a target
a revision, and the bounded expansion of the graph around some entities. -/

namespace PgAgmemory

open Json (Value)

/-- What a response says about an entity. -/
structure EntitySummary where
  memoryId : UUID
  scopeId : UUID
  entityType : EntityType
  canonicalLabel : ShortText
  recordedAt : Time
  deriving DecidableEq

/-- Entities are listed by id. -/
def EntitySummary.before (a b : EntitySummary) : Prop := a.memoryId ≤ b.memoryId

instance EntitySummary.decidableBefore (a b : EntitySummary) : Decidable (a.before b) :=
  inferInstanceAs (Decidable (_ ≤ _))

/-- A path of an expansion: its entities, and the relation revisions between them. -/
structure GraphPath where
  nodes : List UUID
  assertions : List (UUID × Nat)
  deriving DecidableEq

/-- A relation revision of an expansion. -/
structure GraphEdge where
  assertion : UUID × Nat
  predicate : Predicate
  sourceEntity : UUID
  targetEntity : UUID
  validFrom : Option Time
  validTo : Option Time
  recordedAt : Time
  deriving DecidableEq

/-- A row of the neighbour query: an edge and the entity it leads to. -/
structure Neighbor where
  edge : GraphEdge
  nextId : UUID
  deriving DecidableEq

/-- The order of neighbours: by relation, revision and next entity. -/
def Neighbor.before (a b : Neighbor) : Prop :=
  a.edge.assertion.1 < b.edge.assertion.1 ∨ (a.edge.assertion.1 = b.edge.assertion.1 ∧
    (a.edge.assertion.2 < b.edge.assertion.2 ∨ (a.edge.assertion.2 = b.edge.assertion.2 ∧
      a.nextId ≤ b.nextId)))

instance Neighbor.decidableBefore (a b : Neighbor) : Decidable (a.before b) :=
  inferInstanceAs (Decidable (_ ∨ _))

/-- The order of edges in a response. -/
def GraphEdge.before (a b : GraphEdge) : Prop :=
  a.assertion.1 < b.assertion.1 ∨ (a.assertion.1 = b.assertion.1 ∧ a.assertion.2 ≤ b.assertion.2)

instance GraphEdge.decidableBefore (a b : GraphEdge) : Decidable (a.before b) :=
  inferInstanceAs (Decidable (_ ∨ _))

/-- Whether the client can read the valid time of an edge. -/
def GraphEdge.readable (e : GraphEdge) : Bool :=
  (e.validFrom.all fun t => decide (readableTime t)) && e.validTo.all fun t => decide (readableTime t)

/-- The instants that a request for an expansion names. -/
def ExpandGraph.instants (data : ExpandGraph) : List Time :=
  (data.asOf.toList ++ data.knownAt.toList).map AwareDatetime.instant

/-- What an expansion returns. -/
structure Expansion where
  asOf : Time
  knownAt : Time
  nodes : List EntitySummary
  edges : List GraphEdge
  paths : List GraphPath
  truncated : Bool
  accessEpoch : Nat
  deletionEpoch : Nat
  deriving DecidableEq

namespace View

variable (v : View)

/-- Whether an entity has all of its evidence, as a statement sees it. -/
def evidenced (e : EntityRow) : Bool := decide ((v.evidenceOf e.id).length = e.referenceCount)

/-- The summary of an entity, for entities of the given scopes recorded by an instant and with all of
their evidence. -/
def entitySummary? (scopes : List UUID) (knownAt : Time) (e : EntityRow) : Option EntitySummary :=
  (v.object? e.id).bind fun o =>
    if scopes.contains e.scopeId && decide (o.createdAt ≤ knownAt) && v.evidenced e
    then some ⟨e.id, e.scopeId, e.entityType, e.canonicalLabel, o.createdAt⟩ else none

/-- The query of `visible_entities`. -/
def visibleEntities (ids scopes : List UUID) (knownAt : Time) : List EntitySummary :=
  ((v.entities.filter fun e => ids.contains e.id).filterMap
    (v.entitySummary? scopes knownAt)).insertionSort EntitySummary.before

/-- Whether an entity is an endpoint of the neighbour query. -/
def endpoint (scopes : List UUID) (knownAt : Time) (id : UUID) : Bool :=
  (v.entity? id).any fun e => (v.entitySummary? scopes knownAt e).isSome

/-- The edge of one relation revision, when its assertion has one of the wanted types, the revision is
in force and both endpoints are visible. -/
def graphEdge? (data : ExpandGraph) (asOf knownAt : Time) (t : RelationRevisionRow) :
    Option GraphEdge :=
  (v.relation? t.assertionId).bind fun l => (v.assertion? t.assertionId).bind fun a =>
    (v.revision? t.assertionId t.revision).bind fun r =>
      if data.scopeIds.contains a.scopeId
          && (data.relationTypes.map RelationType.predicate).contains a.predicate
          && r.validTime.contains asOf && r.systemTime.contains knownAt
          && v.endpoint data.scopeIds knownAt l.sourceId
          && v.endpoint data.scopeIds knownAt t.targetId
      then some ⟨(t.assertionId, t.revision), a.predicate, l.sourceId, t.targetId,
        r.validTime.lower, r.validTime.upper, r.systemFrom⟩
      else none

/-- The neighbours over one edge: forward from its source, backward from its target. -/
def stepsFrom (direction : Direction) (node : UUID) (edge : GraphEdge) : List Neighbor :=
  (if edge.sourceEntity = node ∧ direction ≠ .incoming then [⟨edge, edge.targetEntity⟩] else [])
    ++ if edge.targetEntity = node ∧ direction ≠ .outgoing then [⟨edge, edge.sourceEntity⟩] else []

/-- The query of `neighbors`. -/
def neighbors (walk : GraphPath) (data : ExpandGraph) (asOf knownAt : Time) (limit : Nat) :
    List Neighbor :=
  match walk.nodes.getLast? with
  | none => []
  | some node =>
    (((v.targets.filterMap (v.graphEdge? data asOf knownAt)).flatMap
      (stepsFrom data.direction node)).filter fun x => !walk.nodes.contains x.nextId).insertionSort
        Neighbor.before |>.take limit

end View

/-! ## Expansion -/

/-- What the expansion has collected so far. -/
structure Walked where
  paths : List GraphPath
  edges : List GraphEdge
  nodes : List UUID
  truncated : Bool

/-- Extend a path by a neighbour. -/
def GraphPath.extend (walk : GraphPath) (x : Neighbor) : GraphPath :=
  ⟨walk.nodes ++ [x.nextId], walk.assertions ++ [x.edge.assertion]⟩

/-- Record the neighbours of one path, as many as the bound on paths leaves. -/
def Walked.record (w : Walked) (walk : GraphPath) (maxPaths : Nat) (found : List Neighbor) :
    Walked :=
  let remaining := maxPaths - w.paths.length
  let kept := found.take remaining
  { paths := w.paths ++ kept.map walk.extend
    edges := (w.edges ++ kept.map Neighbor.edge).dedup
    nodes := w.nodes ++ kept.map Neighbor.nextId
    truncated := decide (remaining < found.length) }

namespace SqlGraph

open MemoryService

variable (platform : Platform)

/-! ## Entities -/

/-- `entity`: an entity with all of its evidence. -/
def entity (entityId : UUID) : Tx EntityRow := do
  let obj ← object entityId
  demand (decide (obj.kind = .entity)) .notFound
  let row ← read fun v => v.entity? entityId
  let row ← found row .entityInvalidated
  let evidence ← read fun v => ((v.evidenceOf entityId).filter fun e =>
    (v.episode? e.sourceId).isSome).length
  demand (decide (evidence = row.referenceCount)) .entityInvalidated
  pure row

/-- The entity of a receipt is loaded before it is returned. -/
def replayed (receipt : Receipt) : Tx Receipt := do
  forEach receipt.objects fun entityId => do
    let _ ← entity entityId
    pure ()
  pure receipt

/-- `create_entity`. -/
def createEntity (data : CreateEntity) (key : String) : Tx Receipt := do
  scope data.scopeId .write
  once platform .createEntity key (compactText data.dump) replayed fun keyDigest requestDigest => do
    validateEvidence data.scopeId data.evidence
    let entityId ← newObject data.scopeId .entity
    send (.graph (.insertEntity ⟨entityId, data.scopeId, data.entityType, data.canonicalLabel,
      data.evidence.length⟩))
    forEach data.evidence fun evidence =>
      send (.graph (.insertEntityEvidence ⟨entityId, data.scopeId, evidence.memoryId,
        evidence.quote⟩))
    audit "create_entity" entityId
    saveResult .createEntity keyDigest requestDigest (.entity entityId)
    pure (.entity entityId)

/-- `endpoint`: an entity of the scope. -/
def endpoint (entityId scopeId : UUID) : Tx EntityRow := do
  let row ← entity entityId
  demand (decide (row.scopeId = scopeId)) .invalidRelationReference
  pure row

/-! ## Relations -/

/-- `insert_target`. -/
def insertTarget (assertionId scopeId : UUID) (revision : Nat) (targetId : UUID) : Tx Unit :=
  send (.graph (.insertTarget ⟨assertionId, scopeId, revision, targetId⟩))

/-- A label as the value of an assertion. -/
def labelContent (label : ShortText) : Content :=
  ⟨label.str, label.least_le, Nat.le_trans label.le_most (by decide), label.stripped⟩

/-- The content of the first revision of a relation. -/
def relationContent (data : CreateRelation) (target : ShortText) : RevisionContent where
  value := labelContent target
  evidence := data.evidence
  validFrom := data.validFrom
  validTo := data.validTo
  correctionReason := none

/-- The content of a correction of a relation. -/
def correctedContent (data : ReviseRelation) (target : ShortText) : RevisionContent where
  value := labelContent target
  evidence := data.evidence
  validFrom := data.validFrom
  validTo := data.validTo
  correctionReason := some data.reason

/-- `create_relation`. -/
def createRelation (data : CreateRelation) (key : String) : Tx Receipt := do
  scope data.scopeId .write
  once platform .createRelation key (compactText data.dump) pure fun keyDigest requestDigest => do
    let source ← endpoint data.sourceEntity data.scopeId
    let target ← endpoint data.targetEntity data.scopeId
    validateEvidence data.scopeId data.evidence
    let assertionId ← newObject data.scopeId .assertion
    send (.content (.insertAssertion assertionId data.scopeId source.canonicalLabel
      data.predicate.predicate true))
    send (.graph (.insertRelation ⟨assertionId, data.scopeId, data.sourceEntity⟩))
    MemoryService.insertRevision platform assertionId data.scopeId 1
      (relationContent data target.canonicalLabel)
    insertTarget assertionId data.scopeId 1 data.targetEntity
    audit "create_relation" assertionId
    saveResult .createRelation keyDigest requestDigest (.assertion assertionId 1)
    pure (.assertion assertionId 1)

/-- The part of `revise_relation` that runs once. -/
def appendCorrection (assertionId scopeId : UUID) (head : AssertionRow) (data : ReviseRelation)
    (keyDigest requestDigest : Digest) : Tx Receipt := do
  demand (decide (data.expectedRevision.val = head.currentRevision)) .revisionConflict
  demand (decide (data.expectedRevision.val ≠ 1000)) .revisionLimitExceeded
  let target ← endpoint data.targetEntity scopeId
  validateEvidence scopeId data.evidence
  let revision := data.expectedRevision.val + 1
  MemoryService.insertRevision platform assertionId scopeId revision
    (correctedContent data target.canonicalLabel)
  insertTarget assertionId scopeId revision data.targetEntity
  audit "revise_relation" assertionId
  saveResult .reviseRelation keyDigest requestDigest (.assertion assertionId revision)
  pure (.assertion assertionId revision)

/-- `revise_relation`. -/
def reviseRelation (assertionId : UUID) (data : ReviseRelation) (key : String) : Tx Receipt := do
  let obj ← object assertionId .write
  -- `FOR UPDATE` of the assertion needs its update policy as well
  let row ← read fun v => (v.assertion? assertionId).filter fun a =>
    a.isRelation && (v.relation? assertionId).isSome && v.writable assertionId
  let head ← found row .notFound
  once platform .reviseRelation key (objectPayload "memory_id" assertionId data.dump) pure
    (appendCorrection platform assertionId obj.scopeId head data)

/-! ## Expansion -/

/-- One hop: the neighbours of every path of the frontier, until the bound on paths is passed. -/
def hop (data : ExpandGraph) (asOf knownAt : Time) : List GraphPath → List GraphPath → Walked →
    Tx (List GraphPath × Walked)
  | [], next, w => pure (next, w)
  | walk :: frontier, next, w => do
    let remaining := data.maxPaths - w.paths.length
    let found ← read fun v => v.neighbors walk data asOf knownAt (remaining + 1)
    let found ← decode (fun x => x.edge.readable) found
    let w' := w.record walk data.maxPaths found
    if w'.truncated then pure (next, w')
    else hop data asOf knownAt frontier (next ++ (found.take remaining).map walk.extend) w'

/-- The hops of an expansion. -/
def hops (data : ExpandGraph) (asOf knownAt : Time) : Nat → List GraphPath → Walked → Tx Walked
  | 0, _, w => pure w
  | n + 1, frontier, w => do
    let (next, w') ← hop data asOf knownAt frontier [] w
    if w'.truncated then pure w' else hops data asOf knownAt n next w'

/-- `expand`. -/
def expand (data : ExpandGraph) : Tx Expansion := do
  let (now, access) ← read fun v => (v.timestamp, v.store.access)
  let _ ← decode (fun t => decide (readableTime t)) data.instants
  let asOf := (data.asOf.map AwareDatetime.instant).getD now
  let knownAt := (data.knownAt.map AwareDatetime.instant).getD now
  let seeds ← read fun v => v.visibleEntities data.seeds data.scopeIds knownAt
  let start := seeds.map EntitySummary.memoryId
  let w ← hops data asOf knownAt data.maxHops (start.map fun seed => ⟨[seed], []⟩)
    ⟨[], [], start, false⟩
  let visible ← read fun v => v.visibleEntities w.nodes.dedup data.scopeIds knownAt
  demand (decide (visible.length = w.nodes.dedup.length)) .graphInvalidated
  pure ⟨asOf, knownAt, visible, w.edges.insertionSort GraphEdge.before, w.paths, w.truncated,
    access.accessEpoch, access.deletionEpoch⟩

end SqlGraph

end PgAgmemory

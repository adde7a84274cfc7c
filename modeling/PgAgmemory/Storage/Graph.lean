import PgAgmemory.Storage.Content

/-! # Statements on entities and relations

Insertions with their policies and check constraints, and the two checks that the graph defers to the
commit: an entity has all of its evidence, and a typed assertion has the source and, for every
revision, the target that its texts name. -/

namespace PgAgmemory

open Keyed (HasKey Table)

/-- Statements on entities and relations. -/
inductive GraphStatement where
  | insertEntity (row : EntityRow)
  | insertEntityEvidence (row : EntityEvidenceRow)
  | insertRelation (row : RelationRow)
  | insertTarget (row : RelationRevisionRow)

/-- The texts that a statement sends. -/
def GraphStatement.texts : GraphStatement → List String
  | .insertEntity r => [r.canonicalLabel.str]
  | .insertEntityEvidence r => [r.quote.str]
  | .insertRelation _ => []
  | .insertTarget _ => []

/-- Execute a statement on entities or relations. -/
def GraphStatement.exec (v : View) : GraphStatement → Except Fault Graph
  | .insertEntity r => do
    require (v.writable r.id)
    require (1 ≤ r.referenceCount && r.referenceCount ≤ 32)
    let entities ← insertRow v.store.graph.entities r
    pure { v.store.graph with entities := entities }
  | .insertEntityEvidence r => do
    require (v.writable r.entityId && v.visible r.sourceId)
    let evidence ← insertRow v.store.graph.evidence r
    pure { v.store.graph with evidence := evidence }
  | .insertRelation r => do
    require (v.writable r.id && v.visible r.sourceId)
    let relations ← insertRow v.store.graph.relations r
    pure { v.store.graph with relations := relations }
  | .insertTarget r => do
    require (v.writable r.assertionId && v.visible r.targetId
      && (v.relation? r.assertionId).isSome)
    let targets ← insertRow v.store.graph.targets r
    pure { v.store.graph with targets := targets }

/-- The checks that a statement defers to the commit. -/
def GraphStatement.deferred : GraphStatement → List Deferred
  | .insertEntity r => [.entityEvidence r.id]
  | .insertEntityEvidence r => [.entityEvidence r.entityId]
  | .insertRelation r => [.relationShape r.id]
  | .insertTarget r => [.relationShape r.assertionId]

/-! ## Deferred checks -/

/-- The readable evidence of an entity. -/
def View.evidenceOf (v : View) (id : UUID) : List EntityEvidenceRow :=
  v.entityEvidence.filter fun r => r.entityId = id

/-- `check_entity_evidence`. -/
def View.checkEntityEvidence (v : View) (id : UUID) : Bool :=
  (v.entity? id).all fun e => decide ((v.evidenceOf id).length = e.referenceCount)

/-- The predicates of relations. -/
def relationPredicates : List Predicate :=
  [RelationType.dependsOn, .partOf, .affects, .worksFor, .decides].map RelationType.predicate

/-- The source label of a relation, if the relation and its source can be read. -/
def View.sourceLabel? (v : View) (id : UUID) : Option ShortText :=
  (v.relation? id).bind fun l => (v.entity? l.sourceId).map EntityRow.canonicalLabel

/-- Whether a revision of a relation has the target whose label is its value. -/
def View.targetNamed (v : View) (r : AssertionRevisionRow) : Bool :=
  (v.target? r.assertionId r.revision).any fun t =>
    (v.entity? t.targetId).any fun e => decide (r.value.str = e.canonicalLabel.str)

/-- `check_relation`: an untyped assertion has no relation row; a typed one has its source's label as
subject, a relation predicate, and at every revision a target with the revision's value as label. -/
def View.checkRelation (v : View) (id : UUID) : Bool :=
  (v.assertion? id).all fun a =>
    if a.isRelation then
      (v.sourceLabel? id).any (fun label => decide (a.subject.str = label.str))
        && relationPredicates.contains a.predicate
        && (v.revisionsOf id).all v.targetNamed
    else (v.relation? id).isNone

end PgAgmemory

import PgAgmemory.Forgetting.Grounds
import PgAgmemory.Library.BreadthFirst
import Mathlib.Data.Prod.Lex
import Mathlib.Order.Lex

/-! # Walks

The graph that a request for an expansion is about, in the terms of the store: the entities that are
shown, the relation revisions that are in force, and the walks along them that visit no entity twice. A
statement that reads in some scopes sees exactly that graph (`View.mem_visibleEntities`,
`View.mem_adjacent`). -/

namespace PgAgmemory

open Keyed (HasKey Table key)

/-! ## The graph of a store -/

section Graph

variable (s : Store) (data : ExpandGraph) (asOf knownAt : Time) (Readable : UUID → Prop)

/-- The evidence of an entity. -/
def Store.evidenceFor (id : UUID) : List EntityEvidenceRow :=
  s.graph.evidence.rows.filter fun r => r.entityId = id

/-- **A shown entity** lies in a readable one of the given scopes, was recorded by the instant and has
all of its evidence. -/
structure Store.Shows (scopes : List UUID) (x : EntitySummary) : Prop where
  rows : ∃ e ∈ s.graph.entities, ∃ o ∈ s.anchor.objects, o.id = e.id
    ∧ x = ⟨e.id, e.scopeId, e.entityType, e.canonicalLabel, o.createdAt⟩
    ∧ (s.evidenceFor e.id).length = e.referenceCount
  scope : x.scopeId ∈ scopes
  readable : Readable x.scopeId
  known : x.recordedAt ≤ knownAt

/-- The id of a shown entity. -/
def Store.ShowsId (scopes : List UUID) (id : UUID) : Prop :=
  ∃ x, s.Shows knownAt Readable scopes x ∧ x.memoryId = id

/-- **A relation revision in force**: of one of the requested types and scopes, valid at one instant,
known at another, and between shown entities. -/
structure Store.InForce (e : GraphEdge) : Prop where
  relation : ∃ l ∈ s.graph.relations, l.id = e.assertion.1 ∧ l.sourceId = e.sourceEntity
  target : ∃ t ∈ s.graph.targets, (t.assertionId, t.revision) = e.assertion
    ∧ t.targetId = e.targetEntity
  assertion : ∃ a ∈ s.contents.assertions, a.id = e.assertion.1 ∧ a.scopeId ∈ data.scopeIds
    ∧ a.predicate = e.predicate
  type : e.predicate ∈ data.relationTypes.map RelationType.predicate
  revision : ∃ r ∈ s.contents.revisions, (r.assertionId, r.revision) = e.assertion
    ∧ r.validTime.contains asOf = true ∧ r.systemTime.contains knownAt = true
    ∧ r.validTime.lower = e.validFrom ∧ r.validTime.upper = e.validTo ∧ r.systemFrom = e.recordedAt
  source_shown : s.ShowsId knownAt Readable data.scopeIds e.sourceEntity
  target_shown : s.ShowsId knownAt Readable data.scopeIds e.targetEntity

/-- **A step along an edge**: from its source when edges out of an entity are asked for, and from its
target when those into it are. -/
inductive GraphEdge.Leads (direction : Direction) (e : GraphEdge) : UUID → UUID → Prop where
  | forward (h : direction ≠ .incoming) : Leads direction e e.sourceEntity e.targetEntity
  | backward (h : direction ≠ .outgoing) : Leads direction e e.targetEntity e.sourceEntity

/-- **A neighbour** that extends a path: a step along an edge in force from its last entity to one that
the path has not visited. -/
structure Store.Adjacent (walk : GraphPath) (x : Neighbor) : Prop where
  edge : s.InForce data asOf knownAt Readable x.edge
  leads : ∃ node, walk.nodes.getLast? = some node ∧ x.edge.Leads data.direction node x.nextId
  fresh : x.nextId ∉ walk.nodes

/-- **A walk** of an expansion starts at a shown seed and steps along edges in force, never twice to the
same entity. -/
inductive Store.Walk : GraphPath → Prop where
  | seed {id : UUID} (hseed : id ∈ data.seeds) (hshown : s.ShowsId knownAt Readable data.scopeIds id) :
    Walk ⟨[id], []⟩
  | step {walk : GraphPath} {x : Neighbor} (hwalk : Walk walk)
    (hstep : s.Adjacent data asOf knownAt Readable walk x) : Walk (walk.extend x)

/-- The number of steps of a path. -/
def GraphPath.length (p : GraphPath) : Nat := p.assertions.length

end Graph

section

variable {s : Store} {data : ExpandGraph} {asOf knownAt : Time} {Readable : UUID → Prop}

/-- The two kinds of steps. -/
theorem GraphEdge.Leads.cases {direction : Direction} {e : GraphEdge} {node next : UUID}
    (h : e.Leads direction node next) :
    (e.sourceEntity = node ∧ e.targetEntity = next ∧ direction ≠ .incoming)
      ∨ (e.targetEntity = node ∧ e.sourceEntity = next ∧ direction ≠ .outgoing) := by
  induction h with
  | forward hdirection => exact Or.inl ⟨rfl, rfl, hdirection⟩
  | backward hdirection => exact Or.inr ⟨rfl, rfl, hdirection⟩

/-- The revision that an edge in force is of determines it. -/
theorem Store.InForce.unique {e e' : GraphEdge} (h : s.InForce data asOf knownAt Readable e)
    (h' : s.InForce data asOf knownAt Readable e') (heq : e.assertion = e'.assertion) : e = e' := by
  obtain ⟨l, hl, hlid, hsource⟩ := h.relation
  obtain ⟨l', hl', hlid', hsource'⟩ := h'.relation
  obtain ⟨t, ht, hkey, htarget⟩ := h.target
  obtain ⟨t', ht', hkey', htarget'⟩ := h'.target
  obtain ⟨a, ha, haid, -, hpredicate⟩ := h.assertion
  obtain ⟨a', ha', haid', -, hpredicate'⟩ := h'.assertion
  obtain ⟨r, hr, hrkey, -, -, hlower, hupper, hrecorded⟩ := h.revision
  obtain ⟨r', hr', hrkey', -, -, hlower', hupper', hrecorded'⟩ := h'.revision
  obtain rfl : l = l' := Table.eq_of_key_eq hl hl' (hlid.trans (heq ▸ hlid'.symm))
  obtain rfl : t = t' := Table.eq_of_key_eq ht ht' (hkey.trans (heq ▸ hkey'.symm))
  obtain rfl : a = a' := Table.eq_of_key_eq ha ha' (haid.trans (heq ▸ haid'.symm))
  obtain rfl : r = r' := Table.eq_of_key_eq hr hr' (hrkey.trans (heq ▸ hrkey'.symm))
  cases e
  cases e'
  simp_all

/-- The id of an entity determines what is shown of it. -/
theorem Store.Shows.unique {scopes : List UUID} {x y : EntitySummary}
    (h : s.Shows knownAt Readable scopes x) (h' : s.Shows knownAt Readable scopes y)
    (heq : x.memoryId = y.memoryId) : x = y := by
  obtain ⟨e, he, o, ho, hoid, rfl, -⟩ := h.rows
  obtain ⟨e', he', o', ho', hoid', rfl, -⟩ := h'.rows
  obtain rfl : e = e' := Table.eq_of_key_eq he he' heq
  obtain rfl : o = o' := Table.eq_of_key_eq ho ho' (hoid.trans hoid'.symm)
  rfl

/-- More is shown where more can be read. -/
theorem Store.Shows.mono {Readable' : UUID → Prop} {scopes : List UUID} {x : EntitySummary}
    (h : s.Shows knownAt Readable scopes x) (hread : Readable' x.scopeId) :
    s.Shows knownAt Readable' scopes x := ⟨h.rows, h.scope, hread, h.known⟩

theorem Store.InForce.mono {Readable' : UUID → Prop} {e : GraphEdge}
    (h : s.InForce data asOf knownAt Readable e) (hread : ∀ scope, Readable scope → Readable' scope) :
    s.InForce data asOf knownAt Readable' e where
  relation := h.relation
  target := h.target
  assertion := h.assertion
  type := h.type
  revision := h.revision
  source_shown := by
    obtain ⟨x, hshows, hid⟩ := h.source_shown
    exact ⟨x, hshows.mono (hread _ hshows.readable), hid⟩
  target_shown := by
    obtain ⟨x, hshows, hid⟩ := h.target_shown
    exact ⟨x, hshows.mono (hread _ hshows.readable), hid⟩

/-- A shown entity lies in its scope. -/
theorem Store.Shows.anchored (hgrounded : Grounded s) {scopes : List UUID} {x : EntitySummary}
    (h : s.Shows knownAt Readable scopes x) : Anchored s x.memoryId x.scopeId := by
  obtain ⟨e, he, o, -, -, rfl, -⟩ := h.rows
  exact (hgrounded.entity he).anchored

/-- **An edge in force joins two entities of one scope.** -/
theorem Store.InForce.anchored (hgrounded : Grounded s) {e : GraphEdge}
    (h : s.InForce data asOf knownAt Readable e) :
    ∃ scope, Anchored s e.sourceEntity scope ∧ Anchored s e.targetEntity scope := by
  obtain ⟨l, hl, hlid, hsource⟩ := h.relation
  obtain ⟨t, ht, htkey, htarget⟩ := h.target
  have htid : t.assertionId = e.assertion.1 := congrArg Prod.fst htkey
  have hscope : l.scopeId = t.scopeId := (hgrounded.relation hl).anchored.unique
    (hlid.trans htid.symm ▸ (hgrounded.target ht).anchored)
  refine ⟨t.scopeId, ?_, htarget ▸ (hgrounded.targetEntity ht).anchored⟩
  exact hscope ▸ hsource ▸ (hgrounded.relationSource hl).anchored

/-- **An edge in force stays so for another reader** of the scope of one of its ends. -/
theorem Store.InForce.transfer (hgrounded : Grounded s) {Readable' : UUID → Prop} {e : GraphEdge}
    (h : s.InForce data asOf knownAt Readable e) {node next scope : UUID}
    (hleads : e.Leads data.direction node next) (hnode : Anchored s node scope)
    (hread : Readable' scope) : s.InForce data asOf knownAt Readable' e := by
  obtain ⟨scope', hsource, htarget⟩ := h.anchored hgrounded
  have hscope : scope' = scope := by
    rcases hleads.cases with ⟨rfl, -, -⟩ | ⟨rfl, -, -⟩
    · exact hsource.unique hnode
    · exact htarget.unique hnode
  subst hscope
  have hshown : ∀ {id}, Anchored s id scope' → s.ShowsId knownAt Readable data.scopeIds id →
      s.ShowsId knownAt Readable' data.scopeIds id := by
    rintro id hid ⟨x, hshows, rfl⟩
    exact ⟨x, hshows.mono ((hshows.anchored hgrounded).unique hid ▸ hread), rfl⟩
  exact {
    relation := h.relation
    target := h.target
    assertion := h.assertion
    type := h.type
    revision := h.revision
    source_shown := hshown hsource h.source_shown
    target_shown := hshown htarget h.target_shown }

/-- A step leads to a shown entity. -/
theorem Store.InForce.shown_of_leads {e : GraphEdge} {node next : UUID}
    (h : s.InForce data asOf knownAt Readable e) (hleads : e.Leads data.direction node next) :
    s.ShowsId knownAt Readable data.scopeIds next := by
  cases hleads with
  | forward _ => exact h.target_shown
  | backward _ => exact h.source_shown

/-- The nodes of a walk are shown. -/
theorem Store.Walk.shown {p : GraphPath} (h : s.Walk data asOf knownAt Readable p) :
    ∀ id ∈ p.nodes, s.ShowsId knownAt Readable data.scopeIds id := by
  induction h with
  | seed _ hshown =>
    intro id hid
    rwa [List.mem_singleton.mp hid]
  | step _ hstep ih =>
    intro id hid
    rcases List.mem_append.mp hid with hold | hnew
    · exact ih id hold
    · obtain ⟨node, -, hleads⟩ := hstep.leads
      rw [List.mem_singleton.mp hnew]
      exact hstep.edge.shown_of_leads hleads

/-- A walk has one node more than steps. -/
theorem Store.Walk.length_nodes {p : GraphPath} (h : s.Walk data asOf knownAt Readable p) :
    p.nodes.length = p.length + 1 := by
  induction h with
  | seed _ _ => rfl
  | step _ _ ih =>
    rw [GraphPath.extend, GraphPath.length, List.length_append, List.length_append, ih]
    rfl

/-- **A walk visits no entity twice.** -/
theorem Store.Walk.nodup {p : GraphPath} (h : s.Walk data asOf knownAt Readable p) :
    p.nodes.Nodup := by
  induction h with
  | seed _ _ => exact List.nodup_singleton _
  | step _ hstep ih =>
    rw [GraphPath.extend, ← List.concat_eq_append]
    exact ih.concat hstep.fresh

end

/-! ## What a statement sees of it -/

section Views

variable {v : View} {data : ExpandGraph} {asOf knownAt : Time} {scopes : List UUID}

/-- The scopes that a statement may read. -/
def View.Reads (v : View) (scope : UUID) : Prop := v.permitted scope .read = true

/-- The reader of an entity sees all of its evidence. -/
theorem View.evidenceOf_eq (hgrounded : Grounded v.store) {e : EntityRow}
    (he : e ∈ v.store.graph.entities) (hread : v.Reads e.scopeId) :
    v.evidenceOf e.id = v.store.evidenceFor e.id := by
  rw [View.evidenceOf, View.entityEvidence, Store.evidenceFor, List.filter_filter]
  refine List.filter_congr fun r hr => ?_
  rw [Bool.eq_iff_iff, Bool.and_eq_true, and_iff_left_iff_imp, decide_eq_true_eq,
    Bool.and_eq_true]
  intro hid
  -- the evidence of an entity lies in its scope, as does the episode it quotes
  have hscope : r.scopeId = e.scopeId :=
    (hgrounded.evidenceEntity hr).anchored.unique (hid ▸ (hgrounded.entity he).anchored)
  have hmarked := hgrounded.foreign.marked
  exact ⟨((hgrounded.evidenceEntity hr).visible hmarked rfl).mpr (hscope ▸ hread),
    ((hgrounded.evidenceSource hr).visible hmarked rfl).mpr (hscope ▸ hread)⟩

/-- A statement sees the entities of the scopes that it may read. -/
theorem View.visible_entity (hgrounded : Grounded v.store) {e : EntityRow}
    (he : e ∈ v.store.graph.entities) : v.visible e.id = true ↔ v.Reads e.scopeId :=
  (hgrounded.entity he).visible hgrounded.foreign.marked rfl

/-- What a statement shows of a visible entity. -/
theorem View.entitySummary?_eq_some (hgrounded : Grounded v.store) {e : EntityRow}
    (he : e ∈ v.store.graph.entities) (hvisible : v.visible e.id = true) {x : EntitySummary} :
    v.entitySummary? scopes knownAt e = some x
      ↔ v.store.Shows knownAt v.Reads scopes x ∧ x.memoryId = e.id := by
  have hread := (View.visible_entity hgrounded he).mp hvisible
  rw [View.entitySummary?, Option.bind_eq_some_iff]
  constructor
  · rintro ⟨o, ho, hsummary⟩
    obtain ⟨hmem, hid, -⟩ := View.object?_eq_some.mp ho
    split at hsummary
    next hconditions =>
      cases hsummary
      rw [Bool.and_eq_true, Bool.and_eq_true, List.contains_iff_mem, decide_eq_true_eq,
        View.evidenced, decide_eq_true_eq, View.evidenceOf_eq hgrounded he hread] at hconditions
      obtain ⟨⟨hscope, hknown⟩, hcomplete⟩ := hconditions
      exact ⟨⟨⟨e, he, o, hmem, hid, rfl, hcomplete⟩, hscope, hread, hknown⟩, rfl⟩
    next => cases hsummary
  · rintro ⟨hshows, hid⟩
    obtain ⟨e', he', o, ho, hoid, rfl, hcomplete⟩ := hshows.rows
    obtain rfl : e' = e := Table.eq_of_key_eq he' he hid
    obtain ⟨o', ho'⟩ := Option.isSome_iff_exists.mp hvisible
    obtain ⟨hmem', hid', -⟩ := View.object?_eq_some.mp ho'
    obtain rfl : o' = o := Table.eq_of_key_eq hmem' ho (hid'.trans hoid.symm)
    refine ⟨o', ho', if_pos ?_⟩
    rw [Bool.and_eq_true, Bool.and_eq_true, List.contains_iff_mem, decide_eq_true_eq,
      View.evidenced, decide_eq_true_eq, View.evidenceOf_eq hgrounded he hread]
    exact ⟨⟨hshows.scope, hshows.known⟩, hcomplete⟩

/-- A shown entity has a visible row. -/
theorem Store.Shows.entity {x : EntitySummary} (hgrounded : Grounded v.store)
    (h : v.store.Shows knownAt v.Reads scopes x) :
    ∃ e ∈ v.store.graph.entities, e.id = x.memoryId ∧ v.visible e.id = true := by
  obtain ⟨e, he, o, -, -, rfl, -⟩ := h.rows
  exact ⟨e, he, rfl, (View.visible_entity hgrounded he).mpr h.readable⟩

/-- **The entities that a query returns** are the shown ones of the given ids. -/
theorem View.mem_visibleEntities (hgrounded : Grounded v.store) {ids : List UUID}
    {x : EntitySummary} : x ∈ v.visibleEntities ids scopes knownAt
      ↔ v.store.Shows knownAt v.Reads scopes x ∧ x.memoryId ∈ ids := by
  rw [View.visibleEntities, List.mem_insertionSort, List.mem_filterMap]
  constructor
  · rintro ⟨e, he, hsummary⟩
    obtain ⟨hentity, hids⟩ := List.mem_filter.mp he
    obtain ⟨hmem, hvisible⟩ := List.mem_filter.mp hentity
    obtain ⟨hshows, hid⟩ := (View.entitySummary?_eq_some hgrounded hmem hvisible).mp hsummary
    exact ⟨hshows, hid ▸ List.contains_iff_mem.mp hids⟩
  · rintro ⟨hshows, hids⟩
    obtain ⟨e, he, hid, hvisible⟩ := hshows.entity hgrounded
    refine ⟨e, List.mem_filter.mpr ⟨List.mem_filter.mpr ⟨he, hvisible⟩, ?_⟩, ?_⟩
    · exact List.contains_iff_mem.mpr (hid ▸ hids)
    · exact (View.entitySummary?_eq_some hgrounded he hvisible).mpr ⟨hshows, hid.symm⟩

/-- The summary of an entity has its id. -/
theorem View.memoryId_of_entitySummary? {e : EntityRow} {x : EntitySummary}
    (h : v.entitySummary? scopes knownAt e = some x) : x.memoryId = e.id := by
  obtain ⟨o, -, hsummary⟩ := Option.bind_eq_some_iff.mp h
  split at hsummary
  next => cases hsummary; rfl
  next => cases hsummary

/-- The entities of a query come by id, none twice. -/
theorem View.pairwise_visibleEntities (ids : List UUID) :
    (v.visibleEntities ids scopes knownAt).Pairwise fun x y => x.memoryId < y.memoryId := by
  have htotal : Std.Total EntitySummary.before := ⟨fun x y => le_total x.memoryId y.memoryId⟩
  have htrans : IsTrans EntitySummary EntitySummary.before := ⟨fun _ _ _ hxy hyz => hxy.trans hyz⟩
  have hsorted : (v.visibleEntities ids scopes knownAt).Pairwise EntitySummary.before :=
    List.pairwise_insertionSort _ _
  have hdistinct : (v.visibleEntities ids scopes knownAt).Pairwise
      fun x y => x.memoryId ≠ y.memoryId := by
    refine (List.perm_insertionSort _ _).symm.pairwise ?_ fun h => h.symm
    rw [List.pairwise_filterMap]
    refine ((List.pairwise_map.mp v.store.graph.entities.nodup).filter _ |>.filter _).imp ?_
    intro e e' hne x hx y hy
    rw [View.memoryId_of_entitySummary? hx, View.memoryId_of_entitySummary? hy]
    exact hne
  exact (hsorted.and hdistinct).imp fun h => lt_of_le_of_ne h.1 h.2

/-- The ends of the edges that a statement sees are the shown entities. -/
theorem View.endpoint_iff (hgrounded : Grounded v.store) {id : UUID} :
    v.endpoint scopes knownAt id = true ↔ v.store.ShowsId knownAt v.Reads scopes id := by
  rw [View.endpoint, Option.any_eq_true]
  constructor
  · rintro ⟨e, he, hsome⟩
    obtain ⟨hfind, hvisible⟩ := Option.filter_eq_some_iff.mp he
    obtain ⟨hmem, hid⟩ := Table.find?_eq_some_iff.mp hfind
    obtain ⟨x, hx⟩ := Option.isSome_iff_exists.mp hsome
    obtain ⟨hshows, hxid⟩ := (View.entitySummary?_eq_some hgrounded hmem hvisible).mp hx
    exact ⟨x, hshows, hxid.trans hid⟩
  · rintro ⟨x, hshows, rfl⟩
    obtain ⟨e, he, hid, hvisible⟩ := hshows.entity hgrounded
    refine ⟨e, Option.filter_eq_some_iff.mpr ⟨Table.find?_eq_some_iff.mpr ⟨he, hid⟩, hvisible⟩, ?_⟩
    exact Option.isSome_iff_exists.mpr
      ⟨x, (View.entitySummary?_eq_some hgrounded he hvisible).mpr ⟨hshows, hid.symm⟩⟩

/-! ### Relation revisions -/

/-- A statement that reads in its scope sees a relation. -/
theorem View.relation?_of_reads (hgrounded : Grounded v.store) {l : RelationRow}
    (hl : l ∈ v.store.graph.relations) (hread : v.Reads l.scopeId) : v.relation? l.id = some l := by
  have hmarked := hgrounded.foreign.marked
  exact Option.filter_eq_some_iff.mpr ⟨Table.find?_key hl, Bool.and_eq_true_iff.mpr
    ⟨((hgrounded.relation hl).visible hmarked rfl).mpr hread,
      ((hgrounded.relationSource hl).visible hmarked rfl).mpr hread⟩⟩

/-- A statement that reads in its scope sees a relation revision. -/
theorem View.targetReadable_of_reads (hgrounded : Grounded v.store) {t : RelationRevisionRow}
    (ht : t ∈ v.store.graph.targets) (hread : v.Reads t.scopeId) : v.targetReadable t = true := by
  obtain ⟨l, hl, hid, hscope⟩ := hgrounded.targetRelation ht
  have hmarked := hgrounded.foreign.marked
  have hrelation : v.relation? t.assertionId = some l :=
    hid ▸ View.relation?_of_reads hgrounded hl (hscope ▸ hread)
  rw [View.targetReadable, Bool.and_eq_true, Bool.and_eq_true, hrelation]
  exact ⟨⟨((hgrounded.target ht).visible hmarked rfl).mpr hread,
    ((hgrounded.targetEntity ht).visible hmarked rfl).mpr hread⟩, rfl⟩

/-- A relation revision is visible where its assertion is. -/
theorem View.reads_of_target (hgrounded : Grounded v.store) {t : RelationRevisionRow}
    (ht : t ∈ v.store.graph.targets) (hvisible : v.visible t.targetId = true) :
    v.Reads t.scopeId :=
  ((hgrounded.targetEntity ht).visible hgrounded.foreign.marked rfl).mp hvisible

/-- A shown entity is visible. -/
theorem Store.ShowsId.visible (hgrounded : Grounded v.store) {id : UUID}
    (h : v.store.ShowsId knownAt v.Reads scopes id) : v.visible id = true := by
  obtain ⟨x, hshows, rfl⟩ := h
  obtain ⟨e, -, hid, hvisible⟩ := hshows.entity hgrounded
  exact hid ▸ hvisible

/-- **The edges that a statement sees** are the relation revisions in force. -/
theorem View.exists_graphEdge? (hgrounded : Grounded v.store) {e : GraphEdge} :
    (∃ t ∈ v.targets, v.graphEdge? data asOf knownAt t = some e)
      ↔ v.store.InForce data asOf knownAt v.Reads e := by
  constructor
  · rintro ⟨t, ht, hedge⟩
    obtain ⟨l, hrelation, hedge⟩ := Option.bind_eq_some_iff.mp hedge
    obtain ⟨a, hassertion, hedge⟩ := Option.bind_eq_some_iff.mp hedge
    obtain ⟨r, hrevision, hedge⟩ := Option.bind_eq_some_iff.mp hedge
    split at hedge
    next hconditions =>
      cases hedge
      simp only [Bool.and_eq_true, List.contains_iff_mem] at hconditions
      obtain ⟨⟨⟨⟨⟨hscope, htype⟩, hvalid⟩, hknown⟩, hsource⟩, htarget⟩ := hconditions
      obtain ⟨hl, hlid⟩ := Table.find?_eq_some_iff.mp (Option.filter_eq_some_iff.mp hrelation).1
      obtain ⟨ha, haid⟩ := Table.find?_eq_some_iff.mp (Option.filter_eq_some_iff.mp hassertion).1
      obtain ⟨hr, hrid⟩ := Table.find?_eq_some_iff.mp (Option.filter_eq_some_iff.mp hrevision).1
      exact {
        relation := ⟨l, hl, hlid, rfl⟩
        target := ⟨t, (List.mem_filter.mp ht).1, rfl, rfl⟩
        assertion := ⟨a, ha, haid, hscope, rfl⟩
        type := htype
        revision := ⟨r, hr, hrid, hvalid, hknown, rfl, rfl, rfl⟩
        source_shown := (View.endpoint_iff hgrounded).mp hsource
        target_shown := (View.endpoint_iff hgrounded).mp htarget }
    next => cases hedge
  · intro h
    obtain ⟨⟨id, revision⟩, predicate, source, target, validFrom, validTo, recordedAt⟩ := e
    have hshown := (h.target_shown.visible hgrounded)
    obtain ⟨l, hl, hlid, rfl⟩ := h.relation
    obtain ⟨t, ht, htkey, rfl⟩ := h.target
    obtain ⟨a, ha, haid, hscope, rfl⟩ := h.assertion
    obtain ⟨r, hr, hrkey, hvalid, hknown, rfl, rfl, rfl⟩ := h.revision
    obtain ⟨rfl, rfl⟩ := Prod.mk.inj htkey
    have hlid : l.id = t.assertionId := hlid
    -- the relation, its assertion and its revision lie in the scope of the target
    have hread : v.Reads t.scopeId := View.reads_of_target hgrounded ht hshown
    have hanchored := (hgrounded.target ht).anchored
    have hmarked := hgrounded.foreign.marked
    have hvisible : v.visible t.assertionId = true :=
      ((hgrounded.target ht).visible hmarked rfl).mpr hread
    have hlscope : t.scopeId = l.scopeId :=
      hanchored.unique (hlid ▸ (hgrounded.relation hl).anchored)
    refine ⟨t, List.mem_filter.mpr ⟨ht, View.targetReadable_of_reads hgrounded ht hread⟩, ?_⟩
    have hrelation : v.relation? t.assertionId = some l :=
      hlid ▸ View.relation?_of_reads hgrounded hl (hlscope ▸ hread)
    have hassertion : v.assertion? t.assertionId = some a :=
      Option.filter_eq_some_iff.mpr ⟨Table.find?_eq_some_iff.mpr ⟨ha, haid⟩, haid ▸ hvisible⟩
    have hrevision : v.revision? t.assertionId t.revision = some r :=
      Option.filter_eq_some_iff.mpr ⟨Table.find?_eq_some_iff.mpr ⟨hr, hrkey⟩,
        (Prod.mk.inj hrkey).1 ▸ hvisible⟩
    rw [View.graphEdge?, hrelation, Option.bind_some, hassertion, Option.bind_some, hrevision,
      Option.bind_some]
    refine if_pos ?_
    simp only [Bool.and_eq_true, List.contains_iff_mem]
    exact ⟨⟨⟨⟨⟨hscope, h.type⟩, hvalid⟩, hknown⟩, (View.endpoint_iff hgrounded).mpr h.source_shown⟩,
      (View.endpoint_iff hgrounded).mpr h.target_shown⟩

/-! ### Neighbours -/

/-- The neighbours of a path, without the limit of the query. -/
def View.adjacent (v : View) (walk : GraphPath) (data : ExpandGraph) (asOf knownAt : Time) :
    List Neighbor :=
  match walk.nodes.getLast? with
  | none => []
  | some node =>
    (((v.targets.filterMap (v.graphEdge? data asOf knownAt)).flatMap
      (View.stepsFrom data.direction node)).filter fun x =>
        !walk.nodes.contains x.nextId).insertionSort Neighbor.before

theorem View.neighbors_eq_take (v : View) (walk : GraphPath) (data : ExpandGraph)
    (asOf knownAt : Time) (limit : Nat) : v.neighbors walk data asOf knownAt limit
      = (v.adjacent walk data asOf knownAt).take limit := by
  rw [View.neighbors, View.adjacent]
  cases walk.nodes.getLast? with
  | none => exact List.take_nil.symm
  | some node => rfl

/-- The steps over an edge. -/
theorem View.mem_stepsFrom {direction : Direction} {node : UUID} {e : GraphEdge} {x : Neighbor} :
    x ∈ View.stepsFrom direction node e ↔ x.edge = e ∧ e.Leads direction node x.nextId := by
  rw [View.stepsFrom, List.mem_append]
  constructor
  · rintro (h | h)
    · split at h
      next hforward =>
        obtain ⟨rfl, hdirection⟩ := hforward
        obtain rfl := List.mem_singleton.mp h
        exact ⟨rfl, .forward hdirection⟩
      next => exact absurd h List.not_mem_nil
    · split at h
      next hbackward =>
        obtain ⟨rfl, hdirection⟩ := hbackward
        obtain rfl := List.mem_singleton.mp h
        exact ⟨rfl, .backward hdirection⟩
      next => exact absurd h List.not_mem_nil
  · obtain ⟨edge, next⟩ := x
    rintro ⟨hedge, hleads⟩
    obtain rfl : edge = e := hedge
    dsimp only at hleads
    rcases hleads.cases with ⟨rfl, rfl, hdirection⟩ | ⟨rfl, rfl, hdirection⟩
    · rw [if_pos ⟨rfl, hdirection⟩]
      exact Or.inl (List.mem_singleton_self _)
    · refine Or.inr ?_
      rw [if_pos ⟨rfl, hdirection⟩]
      exact List.mem_singleton_self _

/-- **The neighbours that a statement sees** of a path. -/
theorem View.mem_adjacent (hgrounded : Grounded v.store) {walk : GraphPath} {x : Neighbor} :
    x ∈ v.adjacent walk data asOf knownAt
      ↔ v.store.Adjacent data asOf knownAt v.Reads walk x := by
  rw [View.adjacent]
  cases hlast : walk.nodes.getLast? with
  | none =>
    refine iff_of_false List.not_mem_nil fun h => ?_
    obtain ⟨node, hnode, -⟩ := h.leads
    rw [hlast] at hnode
    cases hnode
  | some node =>
    rw [List.mem_insertionSort, List.mem_filter, List.mem_flatMap, Bool.not_eq_true',
      ← Bool.not_eq_true, List.contains_iff_mem]
    constructor
    · rintro ⟨⟨e, he, hstep⟩, hfresh⟩
      obtain ⟨rfl, hleads⟩ := View.mem_stepsFrom.mp hstep
      exact ⟨(View.exists_graphEdge? hgrounded).mp (List.mem_filterMap.mp he),
        ⟨node, hlast, hleads⟩, hfresh⟩
    · rintro ⟨hedge, ⟨node', hnode', hleads⟩, hfresh⟩
      obtain rfl : node = node' := Option.some.inj (hlast.symm.trans hnode')
      exact ⟨⟨x.edge, List.mem_filterMap.mpr ((View.exists_graphEdge? hgrounded).mpr hedge),
        View.mem_stepsFrom.mpr ⟨rfl, hleads⟩⟩, hfresh⟩

end Views

end PgAgmemory

import PgAgmemory.Expanding.Walks

/-! # The enumeration of walks

The order in which an expansion lists its walks: shorter ones first, then by seed, then by the relations,
revisions and entities of their steps (`GraphPath.rank`). A statement's neighbours come in that order and
never twice, so the rounds from the shown seeds list every walk once, in order. -/

namespace PgAgmemory

open Keyed (HasKey Table key)
open BreadthFirst (rounds Grows Orders Frontier)

/-! ## The order of walks -/

/-- What a step is ordered by: its relation, the revision and the entity it leads to. -/
abbrev Leg : Type := UUID ×ₗ Nat ×ₗ UUID

/-- The step to a neighbour. -/
def Neighbor.leg (x : Neighbor) : Leg := toLex (x.edge.assertion.1, toLex (x.edge.assertion.2, x.nextId))

/-- The steps of a path. -/
def GraphPath.legs (p : GraphPath) : List Leg :=
  List.zipWith (fun revision id => toLex (revision.1, toLex (revision.2, id))) p.assertions p.nodes.tail

/-- **What paths are ordered by**: their length, then their seed, then their steps one by one. -/
def GraphPath.rank (p : GraphPath) : Nat ×ₗ List UUID ×ₗ List Leg :=
  toLex (p.length, toLex (p.nodes.take 1, p.legs))

theorem Neighbor.before_iff {x y : Neighbor} : x.before y ↔ x.leg ≤ y.leg := by
  rw [Neighbor.before, Neighbor.leg, Neighbor.leg, Prod.Lex.toLex_le_toLex, Prod.Lex.toLex_le_toLex]

/-- Lists of one length are compared before what follows them. -/
theorem append_lt_append_of_lt {α : Type} [LT α] {l l' : List α} (h : l < l')
    (hlength : l.length = l'.length) (m m' : List α) : l ++ m < l' ++ m' := by
  induction h with
  | nil => cases hlength
  | rel hlt => exact .rel hlt
  | cons _ ih => exact .cons (ih (Nat.succ.inj hlength))

/-- A neighbour makes a path longer by one. -/
theorem GraphPath.length_extend (p : GraphPath) (x : Neighbor) :
    (p.extend x).length = p.length + 1 := by
  rw [GraphPath.length, GraphPath.extend, List.length_append]
  rfl

/-- A path that has one node more than steps. -/
def GraphPath.Tight (p : GraphPath) : Prop := p.nodes.length = p.length + 1

theorem GraphPath.Tight.ne_nil {p : GraphPath} (h : p.Tight) : p.nodes ≠ [] := by
  intro hnil
  rw [GraphPath.Tight, hnil] at h
  cases h

/-- A neighbour adds its step. -/
theorem GraphPath.Tight.legs_extend {p : GraphPath} (h : p.Tight) (x : Neighbor) :
    (p.extend x).legs = p.legs ++ [x.leg] := by
  have hlength : p.assertions.length = p.nodes.tail.length := by
    rw [List.length_tail, h, Nat.add_sub_cancel]
    rfl
  rw [GraphPath.legs, GraphPath.extend, List.tail_append_of_ne_nil h.ne_nil,
    List.zipWith_append hlength]
  rfl

theorem GraphPath.Tight.length_legs {p : GraphPath} (h : p.Tight) : p.legs.length = p.length := by
  rw [GraphPath.legs, List.length_zipWith, List.length_tail, h, Nat.add_sub_cancel]
  exact Nat.min_self _

/-- A neighbour keeps the seed. -/
theorem GraphPath.Tight.take_extend {p : GraphPath} (h : p.Tight) (x : Neighbor) :
    (p.extend x).nodes.take 1 = p.nodes.take 1 := by
  rw [GraphPath.extend, List.take_append_of_le_length (by rw [h]; omega)]

/-- Paths of one length are compared by their seeds and their steps. -/
theorem GraphPath.rank_lt_rank {p q : GraphPath} : p.rank < q.rank ↔ p.length < q.length
    ∨ p.length = q.length ∧ (p.nodes.take 1 < q.nodes.take 1
      ∨ p.nodes.take 1 = q.nodes.take 1 ∧ p.legs < q.legs) := by
  rw [GraphPath.rank, GraphPath.rank, Prod.Lex.toLex_lt_toLex, Prod.Lex.toLex_lt_toLex]

/-- **The neighbours of a path are compared by their steps.** -/
theorem GraphPath.Tight.extend_lt_extend {p : GraphPath} (h : p.Tight) {x y : Neighbor}
    (hlt : x.leg < y.leg) : (p.extend x).rank < (p.extend y).rank := by
  rw [GraphPath.rank_lt_rank, p.length_extend, p.length_extend, h.take_extend, h.take_extend,
    h.legs_extend, h.legs_extend]
  exact Or.inr ⟨rfl, Or.inr ⟨rfl, List.append_left_lt (.rel hlt)⟩⟩

/-- **Neighbours of an earlier path come before those of a later one.** -/
theorem GraphPath.Tight.extend_lt_extend_of_lt {p q : GraphPath} (hp : p.Tight) (hq : q.Tight)
    (hlength : p.length = q.length) (hlt : p.rank < q.rank) (x y : Neighbor) :
    (p.extend x).rank < (q.extend y).rank := by
  rw [GraphPath.rank_lt_rank] at hlt ⊢
  rw [p.length_extend, q.length_extend, hp.take_extend, hq.take_extend, hp.legs_extend,
    hq.legs_extend]
  rcases hlt with hshort | ⟨-, hseed | ⟨hseed, hlegs⟩⟩
  · exact absurd hshort (by omega)
  · exact Or.inr ⟨by rw [hlength], Or.inl hseed⟩
  · refine Or.inr ⟨by rw [hlength], Or.inr ⟨hseed, append_lt_append_of_lt hlegs ?_ _ _⟩⟩
    rw [hp.length_legs, hq.length_legs, hlength]

/-! ## The order of neighbours -/

section Neighbors

variable {v : View} {data : ExpandGraph} {asOf knownAt : Time}

/-- An edge is of the relation revision it comes from. -/
theorem View.assertion_of_graphEdge? {t : RelationRevisionRow} {e : GraphEdge}
    (h : v.graphEdge? data asOf knownAt t = some e) : e.assertion = (t.assertionId, t.revision) := by
  obtain ⟨l, -, h⟩ := Option.bind_eq_some_iff.mp h
  obtain ⟨a, -, h⟩ := Option.bind_eq_some_iff.mp h
  obtain ⟨r, -, h⟩ := Option.bind_eq_some_iff.mp h
  split at h
  next => cases h; rfl
  next => cases h

/-- An edge leads from a node to at most one entity that is not the node itself. -/
theorem View.pairwise_stepsFrom {direction : Direction} {nodes : List UUID} {node : UUID}
    (hnode : node ∈ nodes) (e : GraphEdge) :
    ((View.stepsFrom direction node e).filter fun x => !nodes.contains x.nextId).Pairwise
      fun x y => x.leg ≠ y.leg := by
  have hcontains : nodes.contains node = true := List.contains_iff_mem.mpr hnode
  rw [View.stepsFrom]
  by_cases hforward : e.sourceEntity = node ∧ direction ≠ .incoming
  · by_cases hbackward : e.targetEntity = node ∧ direction ≠ .outgoing
    · -- an edge from the node to itself leads to an entity that the path has visited
      simp [hforward, hbackward, hnode]
    · rw [if_pos hforward, if_neg hbackward, List.append_nil]
      exact (List.pairwise_singleton _ _).sublist List.filter_sublist
  · rw [if_neg hforward, List.nil_append]
    split
    · exact (List.pairwise_singleton _ _).sublist List.filter_sublist
    · exact .nil

/-- **The neighbours of a path come in order, none twice.** -/
theorem View.pairwise_adjacent (walk : GraphPath) :
    (v.adjacent walk data asOf knownAt).Pairwise fun x y => x.leg < y.leg := by
  rw [View.adjacent]
  cases hlast : walk.nodes.getLast? with
  | none => exact .nil
  | some node =>
    have htotal : Std.Total Neighbor.before :=
      ⟨fun x y => by rw [Neighbor.before_iff, Neighbor.before_iff]; exact le_total x.leg y.leg⟩
    have htrans : IsTrans Neighbor Neighbor.before := ⟨fun x y z hxy hyz => by
      rw [Neighbor.before_iff] at hxy hyz ⊢
      exact hxy.trans hyz⟩
    refine ((List.pairwise_insertionSort Neighbor.before _).and
      ((List.perm_insertionSort Neighbor.before _).symm.pairwise ?_ fun h => h.symm)).imp
        fun h => lt_of_le_of_ne (Neighbor.before_iff.mp h.1) h.2
    rw [List.filter_flatMap, List.pairwise_flatMap]
    refine ⟨fun e _ => View.pairwise_stepsFrom (List.mem_of_getLast? hlast) e, ?_⟩
    rw [List.pairwise_filterMap]
    -- steps over different edges differ in the relation or in the revision
    refine ((List.pairwise_map.mp v.store.graph.targets.nodup).filter _).imp ?_
    intro t t' hne e he e' he' x hx y hy hleg
    have hxe := (View.mem_stepsFrom.mp (List.mem_filter.mp hx).1).1
    have hye := (View.mem_stepsFrom.mp (List.mem_filter.mp hy).1).1
    refine hne ?_
    have hassertion : x.edge.assertion = y.edge.assertion :=
      Prod.ext (congrArg (fun l => (ofLex l).1) hleg) (congrArg (fun l => (ofLex (ofLex l).2).1) hleg)
    rw [hxe, hye, View.assertion_of_graphEdge? he, View.assertion_of_graphEdge? he'] at hassertion
    exact hassertion

/-- **Two statements that see an entity see the same neighbours** of a path that ends there. -/
theorem View.adjacent_eq {w : View} (hstore : w.store = v.store) (hgrounded : Grounded v.store)
    {walk : GraphPath} {node : UUID} (hlast : walk.nodes.getLast? = some node)
    (hv : v.visible node = true) (hw : w.visible node = true) :
    w.adjacent walk data asOf knownAt = v.adjacent walk data asOf knownAt := by
  have hgrounded' : Grounded w.store := hstore ▸ hgrounded
  have hscope : ∀ {u : View}, u.store = v.store → u.visible node = true →
      ∃ scope, Anchored v.store node scope ∧ u.Reads scope := by
    intro u hu hvisible
    have hmarked : Marked u.store := hu ▸ hgrounded.foreign.marked
    obtain ⟨-, o, ho, hid, hread⟩ := (View.visible_iff hmarked).mp hvisible
    exact ⟨o.scopeId, ⟨o, hu ▸ ho, hid, rfl⟩, hread⟩
  obtain ⟨scope, hanchored, hreads⟩ := hscope rfl hv
  obtain ⟨scope', hanchored', hreads'⟩ := hscope hstore hw
  obtain rfl : scope' = scope := hanchored'.unique hanchored
  refine List.Perm.eq_of_pairwise (fun x y _ _ hxy hyx => absurd hxy hyx.asymm)
    (View.pairwise_adjacent walk) (View.pairwise_adjacent walk) ?_
  refine (List.perm_ext_iff_of_nodup ((View.pairwise_adjacent walk).imp fun h => ?_)
    ((View.pairwise_adjacent walk).imp fun h => ?_)).mpr fun x => ?_
  · rintro rfl
    exact absurd h (lt_irrefl _)
  · rintro rfl
    exact absurd h (lt_irrefl _)
  rw [View.mem_adjacent hgrounded', View.mem_adjacent hgrounded, hstore]
  constructor
  · rintro ⟨hedge, ⟨node', hnode', hleads⟩, hfresh⟩
    obtain rfl : node = node' := Option.some.inj (hlast.symm.trans hnode')
    exact ⟨hedge.transfer hgrounded hleads hanchored hreads, ⟨node, hlast, hleads⟩, hfresh⟩
  · rintro ⟨hedge, ⟨node', hnode', hleads⟩, hfresh⟩
    obtain rfl : node = node' := Option.some.inj (hlast.symm.trans hnode')
    exact ⟨hedge.transfer hgrounded hleads hanchored hreads', ⟨node, hlast, hleads⟩, hfresh⟩

end Neighbors

/-! ## The enumeration -/

section Enumeration

variable (v : View) (data : ExpandGraph) (asOf knownAt : Time)

/-- The paths one step longer. -/
def View.extensions (walk : GraphPath) : List GraphPath :=
  (v.adjacent walk data asOf knownAt).map walk.extend

/-- The paths without a step, from the shown seeds. -/
def View.starts : List GraphPath :=
  (v.visibleEntities data.seeds data.scopeIds knownAt).map fun x => ⟨[x.memoryId], []⟩

/-- **The walks of an expansion**, round by round. -/
def View.walks : List GraphPath :=
  rounds (v.extensions data asOf knownAt) data.maxHops (v.starts data knownAt)

variable {v data asOf knownAt}

theorem Store.Walk.tight {s : Store} {Readable : UUID → Prop} {p : GraphPath}
    (h : s.Walk data asOf knownAt Readable p) : p.Tight := h.length_nodes

/-- Walks grow by neighbours. -/
theorem View.grows (hgrounded : Grounded v.store) : Grows (v.extensions data asOf knownAt)
    (v.store.Walk data asOf knownAt v.Reads) GraphPath.length where
  good walk p hwalk hp := by
    obtain ⟨x, hx, rfl⟩ := List.mem_map.mp hp
    exact .step hwalk ((View.mem_adjacent hgrounded).mp hx)
  longer walk p hp := by
    obtain ⟨x, -, rfl⟩ := List.mem_map.mp hp
    exact walk.length_extend x
  shorter p hp hpositive := by
    cases hp with
    | seed _ _ => cases hpositive
    | @step walk x hwalk hstep =>
      exact ⟨walk, hwalk, List.mem_map_of_mem ((View.mem_adjacent hgrounded).mpr hstep)⟩

/-- Walks are found in their order. -/
theorem View.orders : Orders (v.extensions data asOf knownAt)
    (v.store.Walk data asOf knownAt v.Reads) GraphPath.length fun p q => p.rank < q.rank where
  short p q hlt := GraphPath.rank_lt_rank.mpr (Or.inl hlt)
  siblings walk hwalk := by
    rw [View.extensions, List.pairwise_map]
    exact (View.pairwise_adjacent walk).imp fun hlt => hwalk.tight.extend_lt_extend hlt
  cousins p q p' q' hp hq hlength hlt hp' hq' := by
    obtain ⟨x, -, rfl⟩ := List.mem_map.mp hp'
    obtain ⟨y, -, rfl⟩ := List.mem_map.mp hq'
    exact hp.tight.extend_lt_extend_of_lt hq.tight hlength hlt x y

/-- The walks without a step are those from the shown seeds. -/
theorem View.frontier_starts (hgrounded : Grounded v.store) :
    Frontier (v.store.Walk data asOf knownAt v.Reads) GraphPath.length 0 (v.starts data knownAt) := by
  intro p
  rw [View.starts, List.mem_map]
  constructor
  · rintro ⟨x, hx, rfl⟩
    obtain ⟨hshows, hseed⟩ := (View.mem_visibleEntities hgrounded).mp hx
    exact ⟨.seed hseed ⟨x, hshows, rfl⟩, rfl⟩
  · rintro ⟨hwalk, hlength⟩
    cases hwalk with
    | seed hseed hshown =>
      obtain ⟨x, hshows, rfl⟩ := hshown
      exact ⟨x, (View.mem_visibleEntities hgrounded).mpr ⟨hshows, hseed⟩, rfl⟩
    | @step walk x _ _ =>
      rw [GraphPath.length_extend] at hlength
      cases hlength

/-- The seeds come in order. -/
theorem View.pairwise_starts : (v.starts data knownAt).Pairwise fun p q => p.rank < q.rank := by
  rw [View.starts, List.pairwise_map]
  refine (View.pairwise_visibleEntities data.seeds).imp fun hlt => ?_
  exact GraphPath.rank_lt_rank.mpr (Or.inr ⟨rfl, Or.inl (.rel hlt)⟩)

/-- **Every walk up to the greatest length is found.** -/
theorem View.mem_walks (hgrounded : Grounded v.store) {p : GraphPath} :
    p ∈ v.walks data asOf knownAt ↔ v.store.Walk data asOf knownAt v.Reads p
      ∧ 0 < p.length ∧ p.length ≤ data.maxHops := by
  rw [View.walks, (View.grows hgrounded).mem_rounds (View.frontier_starts hgrounded), Nat.zero_add]

/-- **Walks are found in order.** -/
theorem View.pairwise_walks (hgrounded : Grounded v.store) :
    (v.walks data asOf knownAt).Pairwise fun p q => p.rank < q.rank :=
  View.orders.pairwise_rounds (View.grows hgrounded) (View.frontier_starts hgrounded)
    View.pairwise_starts

end Enumeration

end PgAgmemory

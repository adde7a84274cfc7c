import PgAgmemory.Expanding.Enumeration
import PgAgmemory.History.Loads
import PgAgmemory.System.Calls

/-! # Expansions

What an expansion answers: the first walks of the enumeration, as many as the request allows, with the
entities and the relation revisions they touch. The bound on paths is shared by all rounds, so what one
query may return depends on what the queries before it have returned (`Walked.Collects`). A statement
that comes later may read less; then the check at the end refuses the answer. -/

namespace PgAgmemory

open BreadthFirst (rounds)
open Interactive.Program (ReadOnly)
open MemoryService

/-! ## What has been collected -/

/-- A path is extended in one way. -/
theorem GraphPath.extend_inj {p q : GraphPath} {x y : Neighbor} (h : p.extend x = q.extend y) :
    p = q ∧ x.nextId = y.nextId ∧ x.edge.assertion = y.edge.assertion := by
  obtain ⟨hnodes, hassertions⟩ := GraphPath.mk.inj h
  obtain ⟨hpn, hx⟩ := List.append_inj' hnodes rfl
  obtain ⟨hpa, hy⟩ := List.append_inj' hassertions rfl
  refine ⟨?_, List.singleton_inj.mp hx, List.singleton_inj.mp hy⟩
  cases p
  cases q
  exact congrArg₂ GraphPath.mk hpn hpa

section Collecting

variable (v : View) (data : ExpandGraph) (asOf knownAt : Time)

/-- **What an expansion has collected** with the paths shown so far: the entities they lead to, besides
the seeds, and the edges of their last steps. -/
structure Walked.Collects (shown : List GraphPath) (w : Walked) : Prop where
  paths : w.paths = shown
  nodes : ∀ id, id ∈ w.nodes ↔ (∃ p ∈ v.starts data knownAt, p.nodes.getLast? = some id)
    ∨ ∃ p ∈ shown, p.nodes.getLast? = some id
  edges : ∀ e, e ∈ w.edges ↔ ∃ walk, ∃ x ∈ v.adjacent walk data asOf knownAt,
    walk.extend x ∈ shown ∧ x.edge = e
  distinct : w.edges.Nodup

variable {v data asOf knownAt}

theorem GraphPath.getLast?_extend (p : GraphPath) (x : Neighbor) :
    (p.extend x).nodes.getLast? = some x.nextId := List.getLast?_concat

/-- **Recording the neighbours of a path** shows as many of its extensions as the bound leaves. -/
theorem Walked.Collects.record (hgrounded : Grounded v.store) {shown : List GraphPath} {w : Walked}
    (h : w.Collects v data asOf knownAt shown) {walk : GraphPath} {found : List Neighbor}
    (hfound : found = (v.adjacent walk data asOf knownAt).take (data.maxPaths - w.paths.length + 1)) :
    (w.record walk data.maxPaths found).Collects v data asOf knownAt
      (shown ++ (v.extensions data asOf knownAt walk).take (data.maxPaths - shown.length)) := by
  have hkept : found.take (data.maxPaths - w.paths.length)
      = (v.adjacent walk data asOf knownAt).take (data.maxPaths - shown.length) := by
    rw [hfound, List.take_take, Nat.min_eq_left (Nat.le_succ _), h.paths]
  have hextended : (v.extensions data asOf knownAt walk).take (data.maxPaths - shown.length)
      = ((v.adjacent walk data asOf knownAt).take (data.maxPaths - shown.length)).map walk.extend :=
    (List.map_take).symm
  rw [hextended]
  refine ⟨?_, fun id => ?_, fun e => ?_, ?_⟩
  · rw [Walked.record, hkept, h.paths]
  · rw [Walked.record, hkept, List.mem_append, h.nodes, or_assoc]
    refine or_congr_right ?_
    simp only [List.mem_append, or_and_right, exists_or, List.mem_map, exists_exists_and_eq_and,
      GraphPath.getLast?_extend, Option.some.injEq]
  · rw [Walked.record, hkept, List.mem_dedup, List.mem_append, h.edges, List.mem_map]
    constructor
    · rintro (⟨walk', x, hx, hshown, rfl⟩ | ⟨x, hx, rfl⟩)
      · exact ⟨walk', x, hx, List.mem_append_left _ hshown, rfl⟩
      · exact ⟨walk, x, List.mem_of_mem_take hx, List.mem_append_right _ (List.mem_map_of_mem hx), rfl⟩
    · rintro ⟨walk', x, hx, hshown, rfl⟩
      rcases List.mem_append.mp hshown with hold | hnew
      · exact Or.inl ⟨walk', x, hx, hold, rfl⟩
      · -- the step of the extension determines its edge
        obtain ⟨y, hy, heq⟩ := List.mem_map.mp hnew
        obtain ⟨rfl, -, hassertion⟩ := GraphPath.extend_inj heq
        have hedge := ((View.mem_adjacent hgrounded).mp (List.mem_of_mem_take hy)).edge
        exact Or.inr ⟨y, hy, hedge.unique ((View.mem_adjacent hgrounded).mp hx).edge hassertion⟩
  · exact List.nodup_dedup _

/-- More neighbours than the bound leaves are noticed. -/
theorem Walked.Collects.truncated {shown : List GraphPath} {w : Walked}
    (h : w.Collects v data asOf knownAt shown) {walk : GraphPath} {found : List Neighbor}
    (hfound : found = (v.adjacent walk data asOf knownAt).take (data.maxPaths - w.paths.length + 1)) :
    (w.record walk data.maxPaths found).truncated
      = decide (data.maxPaths - shown.length < (v.extensions data asOf knownAt walk).length) := by
  rw [Walked.record, hfound, List.length_take, h.paths, View.extensions, List.length_map,
    decide_eq_decide]
  omega

end Collecting

/-! ## Statements of one call -/

section Statements

variable {timeline : Timeline} {σ : Session} {data : ExpandGraph} {asOf knownAt : Time}

/-- What a statement may read, an earlier one could read. -/
theorem Session.reads_of_le {m n : Nat} (hle : m ≤ n) {scope : UUID}
    (h : (σ.view (timeline.moment n)).Reads scope) : (σ.view (timeline.moment m)).Reads scope :=
  View.permitted_of_le (v := σ.view (timeline.moment m)) (w := σ.view (timeline.moment n)) rfl rfl
    (timeline.mono m n hle) h

/-- What a statement sees, an earlier one saw. -/
theorem Session.visible_of_le (hgrounded : Grounded σ.store) {m n : Nat} (hle : m ≤ n) {id : UUID}
    (h : (σ.view (timeline.moment n)).visible id = true) :
    (σ.view (timeline.moment m)).visible id = true := by
  have hmarked := hgrounded.foreign.marked
  obtain ⟨hfree, o, ho, hid, hread⟩ :=
    (View.visible_iff (v := σ.view (timeline.moment n)) hmarked).mp h
  exact (View.visible_iff (v := σ.view (timeline.moment m)) hmarked).mpr
    ⟨hfree, o, ho, hid, Session.reads_of_le hle hread⟩

/-- **The neighbours of a path that ends in a still visible entity** are those that the first statement
saw. -/
theorem Session.neighbors_eq (hgrounded : Grounded σ.store) {start n m : Nat} (hstart : start ≤ n)
    (hlater : n ≤ m) {walk : GraphPath} {node : UUID} (hlast : walk.nodes.getLast? = some node)
    (hvisible : (σ.view (timeline.moment m)).visible node = true) (limit : Nat) :
    (σ.view (timeline.moment n)).neighbors walk data asOf knownAt limit
      = ((σ.view (timeline.moment start)).adjacent walk data asOf knownAt).take limit := by
  have hn := Session.visible_of_le hgrounded hlater hvisible
  have hs := Session.visible_of_le hgrounded hstart hn
  rw [View.neighbors_eq_take]
  exact congrArg (List.take limit) (View.adjacent_eq (v := σ.view (timeline.moment start))
    (w := σ.view (timeline.moment n)) rfl hgrounded hlast hs hn)

end Statements

/-! ## The rounds -/

/-- **How an expansion can fail**: an instant that the client cannot read, or a scope that could be read
when the seeds were looked up and no longer later on. -/
inductive ExpansionFails (timeline : Timeline) (σ : Session) (start : Nat) (data : ExpandGraph)
    (asOf knownAt : Time) : Fault → Prop where
  | instant {t : Time} (ht : t ∈ data.instants) (hunreadable : ¬readableTime t) :
    ExpansionFails timeline σ start data asOf knownAt .database
  | edge {e : GraphEdge}
    (he : σ.store.InForce data asOf knownAt (σ.view (timeline.moment start)).Reads e)
    (hunreadable : e.readable = false) :
    ExpansionFails timeline σ start data asOf knownAt .database
  | lost {scope : UUID} {m : Nat} (hscope : scope ∈ data.scopeIds)
    (hread : (σ.view (timeline.moment start)).Reads scope)
    (hlost : ¬(σ.view (timeline.moment m)).Reads scope) :
    ExpansionFails timeline σ start data asOf knownAt (.memory .graphInvalidated)

section Rounds

variable {platform : Platform} {timeline : Timeline} {σ : Session} {data : ExpandGraph}
  {asOf knownAt : Time} {start n : Nat}

/-- **What rounds leave behind**, whatever the reader may still read: entities are only added, all of
them were shown to the first statement, and the paths of a frontier end in them. -/
structure Walked.Contains (v : View) (data : ExpandGraph) (knownAt : Time) (w : Walked)
    (frontier : List GraphPath) : Prop where
  shown : ∀ id ∈ w.nodes, v.store.ShowsId knownAt v.Reads data.scopeIds id
  ends : ∀ walk ∈ frontier, ∃ node ∈ w.nodes, walk.nodes.getLast? = some node

/-- A neighbour that a later statement sees leads to a shown entity. -/
theorem Session.shown_of_neighbor (hgrounded : Grounded σ.store) (hstart : start ≤ n)
    {walk : GraphPath} {limit : Nat} {x : Neighbor}
    (hx : x ∈ (σ.view (timeline.moment n)).neighbors walk data asOf knownAt limit) :
    σ.store.InForce data asOf knownAt (σ.view (timeline.moment start)).Reads x.edge
      ∧ σ.store.ShowsId knownAt (σ.view (timeline.moment start)).Reads data.scopeIds x.nextId := by
  rw [View.neighbors_eq_take] at hx
  have hadjacent := (View.mem_adjacent (v := σ.view (timeline.moment n)) hgrounded).mp
    (List.mem_of_mem_take hx)
  have hedge := hadjacent.edge.mono fun scope h => Session.reads_of_le hstart h
  obtain ⟨node, -, hleads⟩ := hadjacent.leads
  exact ⟨hedge, hedge.shown_of_leads hleads⟩

/-- Recording what a later statement sees. -/
theorem Walked.Contains.record (hgrounded : Grounded σ.store) (hstart : start ≤ n) {w : Walked}
    {walk : GraphPath} {frontier next : List GraphPath}
    (h : w.Contains (σ.view (timeline.moment start)) data knownAt (walk :: frontier ++ next))
    (limit : Nat) {found : List Neighbor}
    (hfound : found = (σ.view (timeline.moment n)).neighbors walk data asOf knownAt limit) :
    (w.record walk data.maxPaths found).Contains (σ.view (timeline.moment start)) data knownAt
        (frontier ++ (next ++ (found.take (data.maxPaths - w.paths.length)).map walk.extend))
      ∧ w.nodes ⊆ (w.record walk data.maxPaths found).nodes := by
  have hkept : w.nodes ⊆ (w.record walk data.maxPaths found).nodes := List.subset_append_left _ _
  refine ⟨⟨fun id hid => ?_, fun p hp => ?_⟩, hkept⟩
  · rcases List.mem_append.mp hid with hold | hnew
    · exact h.shown id hold
    · obtain ⟨x, hx, rfl⟩ := List.mem_map.mp hnew
      exact (Session.shown_of_neighbor hgrounded hstart (hfound ▸ List.mem_of_mem_take hx)).2
  · rw [← List.append_assoc] at hp
    rcases List.mem_append.mp hp with hold | hnew
    · obtain ⟨node, hnode, hlast⟩ := h.ends p (List.mem_cons_of_mem walk hold)
      exact ⟨node, hkept hnode, hlast⟩
    · obtain ⟨x, hx, rfl⟩ := List.mem_map.mp hnew
      exact ⟨x.nextId, List.mem_append_right _ (List.mem_map_of_mem hx), walk.getLast?_extend x⟩

/-- **What a round shows** while its entities stay visible. -/
structure Walked.Shows (v : View) (data : ExpandGraph) (asOf knownAt : Time) (found : List GraphPath)
    (w w' : Walked) : Prop where
  collects : ∀ shown, w.Collects v data asOf knownAt shown →
    w'.Collects v data asOf knownAt (shown ++ found.take (data.maxPaths - shown.length))
      ∧ w'.truncated = decide (data.maxPaths - shown.length < found.length)

/-- Recording the neighbours of a path shows its extensions. -/
theorem Walked.shows_record {v : View} (hgrounded : Grounded v.store) {w : Walked}
    {walk : GraphPath} {found : List Neighbor}
    (hfound : found = (v.adjacent walk data asOf knownAt).take (data.maxPaths - w.paths.length + 1)) :
    w.Shows v data asOf knownAt (v.extensions data asOf knownAt walk)
      (w.record walk data.maxPaths found) where
  collects _ hcollects := ⟨hcollects.record hgrounded hfound, hcollects.truncated hfound⟩

/-- Rounds that have passed the bound show nothing more. -/
theorem Walked.Shows.stopped {v : View} {found more : List GraphPath} {w w' : Walked}
    (h : w.Shows v data asOf knownAt found w') (htruncated : w'.truncated = true) :
    w.Shows v data asOf knownAt (found ++ more) w' where
  collects shown hcollects := by
    obtain ⟨hcollects', hmore⟩ := h.collects shown hcollects
    rw [htruncated, eq_comm, decide_eq_true_eq] at hmore
    rw [List.take_append, Nat.sub_eq_zero_of_le (Nat.le_of_lt hmore), List.take_zero,
      List.append_nil, htruncated, List.length_append, eq_comm, decide_eq_true_eq]
    exact ⟨hcollects', Nat.lt_add_right _ hmore⟩

/-- Rounds that have not passed the bound go on. -/
theorem Walked.Shows.trans {v : View} {found more : List GraphPath} {w w' w'' : Walked}
    (h : w.Shows v data asOf knownAt found w') (htruncated : w'.truncated = false)
    (h' : w'.Shows v data asOf knownAt more w'') :
    w.Shows v data asOf knownAt (found ++ more) w'' where
  collects shown hcollects := by
    obtain ⟨hcollects', hmore⟩ := h.collects shown hcollects
    rw [htruncated, eq_comm, decide_eq_false_iff_not, Nat.not_lt] at hmore
    obtain ⟨hcollects'', hmore'⟩ := h'.collects _ hcollects'
    rw [List.take_of_length_le hmore, List.length_append, Nat.sub_add_eq, List.append_assoc]
      at hcollects''
    rw [List.take_of_length_le hmore, List.length_append, Nat.sub_add_eq] at hmore'
    rw [List.take_append, List.take_of_length_le hmore, List.length_append, hmore',
      decide_eq_decide]
    refine ⟨hcollects'', ?_⟩
    omega

/-- **One hop**: the extensions of the frontier, as many as the bound leaves. -/
theorem outcome_hop (hgrounded : Grounded σ.store) {frontier next : List GraphPath} {w : Walked}
    (hstart : start ≤ n) (hopen : w.truncated = false)
    (hcontains : w.Contains (σ.view (timeline.moment start)) data knownAt (frontier ++ next)) :
    Outcome platform timeline (SqlGraph.hop data asOf knownAt frontier next w)
      (fun r m σ' => σ' = σ ∧ n ≤ m
        ∧ r.2.Contains (σ.view (timeline.moment start)) data knownAt r.1 ∧ w.nodes ⊆ r.2.nodes
        ∧ ((∀ id ∈ r.2.nodes, (σ.view (timeline.moment m)).visible id = true) →
          w.Shows (σ.view (timeline.moment start)) data asOf knownAt
            (frontier.flatMap ((σ.view (timeline.moment start)).extensions data asOf knownAt)) r.2
          ∧ (r.2.truncated = false → r.1 = next
            ++ frontier.flatMap ((σ.view (timeline.moment start)).extensions data asOf knownAt))))
      (ExpansionFails timeline σ start data asOf knownAt) n σ := by
  induction frontier generalizing next w n with
  | nil =>
    refine outcome_pure ⟨rfl, Nat.le_refl n, hcontains, List.Subset.refl _, fun _ =>
      ⟨⟨fun shown hcollects => ?_⟩, fun _ => (List.append_nil next).symm⟩⟩
    rw [List.flatMap_nil, List.take_nil, List.append_nil, hopen]
    exact ⟨hcollects, (decide_eq_false (Nat.not_lt_zero _)).symm⟩
  | cons walk frontier ih =>
    refine outcome_read (outcome_decode (fun _ => ?_) fun hunreadable => ?_)
    swap
    · obtain ⟨x, hx, hnot⟩ := List.all_eq_false.mp hunreadable
      exact .edge (Session.shown_of_neighbor hgrounded hstart hx).1 (eq_false_of_ne_true hnot)
    generalize hfound : (σ.view (timeline.moment n)).neighbors walk data asOf knownAt
      (data.maxPaths - w.paths.length + 1) = found
    obtain ⟨hrecorded, hkept⟩ := hcontains.record hgrounded hstart _ hfound.symm
    -- what the query returned, when the end of the path turns out to have stayed visible
    have hsame : ∀ m, n + 1 ≤ m →
        (∀ id ∈ w.nodes, (σ.view (timeline.moment m)).visible id = true) →
        found = ((σ.view (timeline.moment start)).adjacent walk data asOf knownAt).take
          (data.maxPaths - w.paths.length + 1) := by
      intro m hm hvisible
      obtain ⟨node, hnode, hlast⟩ := hcontains.ends walk List.mem_cons_self
      rw [← hfound]
      exact Session.neighbors_eq hgrounded hstart (by omega) hlast (hvisible node hnode) _
    change Outcome platform timeline (if (w.record walk data.maxPaths found).truncated then
      pure (next, w.record walk data.maxPaths found) else SqlGraph.hop data asOf knownAt frontier
        (next ++ (found.take (data.maxPaths - w.paths.length)).map walk.extend)
        (w.record walk data.maxPaths found)) _ _ _ _
    cases htruncated : (w.record walk data.maxPaths found).truncated with
    | true =>
      rw [if_pos rfl]
      refine outcome_pure ⟨rfl, Nat.le_succ n, ⟨hrecorded.shown, fun p hp => ?_⟩, hkept,
        fun hvisible => ⟨?_, fun hfalse => ?_⟩⟩
      · obtain ⟨node, hnode, hlast⟩ := hcontains.ends p (List.mem_append_right _ hp)
        exact ⟨node, hkept hnode, hlast⟩
      · -- the bound is passed at this path, so the rest of the frontier adds nothing
        have heq := hsame (n + 1) (Nat.le_refl _) fun id hid => hvisible id (hkept hid)
        rw [List.flatMap_cons]
        exact (Walked.shows_record hgrounded heq).stopped htruncated
      · rw [htruncated] at hfalse
        cases hfalse
    | false =>
      rw [if_neg Bool.false_ne_true]
      refine (ih (Nat.le_succ_of_le hstart) htruncated hrecorded).mono ?_ fun _ h => h
      rintro ⟨next', w'⟩ m σ' - ⟨rfl, hm, hcontains', hkept', hshows⟩
      refine ⟨rfl, Nat.le_of_succ_le hm, hcontains', List.Subset.trans hkept hkept', fun hvisible => ?_⟩
      have heq := hsame m hm fun id hid => hvisible id (hkept' (hkept hid))
      obtain ⟨hrest, hnext⟩ := hshows hvisible
      refine ⟨?_, fun hfalse => ?_⟩
      · rw [List.flatMap_cons]
        exact (Walked.shows_record hgrounded heq).trans htruncated hrest
      · have hle : found.length ≤ data.maxPaths - w.paths.length :=
          Nat.not_lt.mp (decide_eq_false_iff_not.mp htruncated)
        have hshort : ((σ'.view (timeline.moment start)).adjacent walk data asOf knownAt).length
            ≤ data.maxPaths - w.paths.length := by
          rw [heq, List.length_take] at hle
          omega
        have hnext' : next' = _ := hnext hfalse
        rw [hnext', heq, List.take_take, Nat.min_eq_left (Nat.le_succ _),
          List.take_of_length_le hshort, List.flatMap_cons, List.append_assoc]
        rfl

/-- **All hops**: the walks of all rounds, as many as the bound leaves. -/
theorem outcome_hops (hgrounded : Grounded σ.store) {count : Nat} {frontier : List GraphPath}
    {w : Walked} (hstart : start ≤ n) (hopen : w.truncated = false)
    (hcontains : w.Contains (σ.view (timeline.moment start)) data knownAt frontier) :
    Outcome platform timeline (SqlGraph.hops data asOf knownAt count frontier w)
      (fun w' m σ' => σ' = σ ∧ n ≤ m
        ∧ w'.Contains (σ.view (timeline.moment start)) data knownAt [] ∧ w.nodes ⊆ w'.nodes
        ∧ ((∀ id ∈ w'.nodes, (σ.view (timeline.moment m)).visible id = true) →
          w.Shows (σ.view (timeline.moment start)) data asOf knownAt
            (rounds ((σ.view (timeline.moment start)).extensions data asOf knownAt) count frontier)
            w'))
      (ExpansionFails timeline σ start data asOf knownAt) n σ := by
  induction count generalizing frontier w n with
  | zero =>
    refine outcome_pure ⟨rfl, Nat.le_refl n, ⟨hcontains.shown, fun _ h => absurd h List.not_mem_nil⟩,
      List.Subset.refl _, fun _ => ⟨fun shown hcollects => ?_⟩⟩
    rw [rounds, List.take_nil, List.append_nil, hopen]
    exact ⟨hcollects, (decide_eq_false (Nat.not_lt_zero _)).symm⟩
  | succ count ih =>
    refine outcome_bind (outcome_hop hgrounded hstart hopen
      ((List.append_nil frontier).symm ▸ hcontains)) ?_
    rintro ⟨next, w'⟩ m σ' - ⟨rfl, hm, hcontains', hkept, hshows⟩
    change Outcome platform timeline (if w'.truncated then pure w' else
      SqlGraph.hops data asOf knownAt count next w') _ _ _ _
    cases htruncated : w'.truncated with
    | true =>
      rw [if_pos rfl]
      refine outcome_pure ⟨rfl, hm, ⟨hcontains'.shown, fun _ h => absurd h List.not_mem_nil⟩, hkept,
        fun hvisible => ?_⟩
      exact (hshows hvisible).1.stopped htruncated
    | false =>
      rw [if_neg Bool.false_ne_true]
      refine (ih (Nat.le_trans hstart hm) htruncated hcontains').mono ?_ fun _ h => h
      rintro w'' k σ'' - ⟨rfl, hk, hcontains'', hkept', hshows'⟩
      refine ⟨rfl, Nat.le_trans hm hk, hcontains'', List.Subset.trans hkept hkept', fun hvisible => ?_⟩
      have hearlier : ∀ id ∈ w'.nodes, (σ''.view (timeline.moment m)).visible id = true :=
        fun id hid => Session.visible_of_le hgrounded hk (hvisible id (hkept' hid))
      obtain ⟨hfirst, hnext⟩ := hshows hearlier
      have hnext' : next = _ := hnext htruncated
      have hrest := hshows' hvisible
      rw [hnext', List.nil_append] at hrest
      exact hfirst.trans htruncated hrest

end Rounds

/-! ## The answer -/

/-- The first steps of a path. -/
def GraphPath.firstSteps (p : GraphPath) (k : Nat) : GraphPath :=
  ⟨p.nodes.take (k + 1), p.assertions.take k⟩

/-- The first steps of a path are those of the path it extends. -/
theorem GraphPath.Tight.firstSteps_extend {p : GraphPath} (h : p.Tight) (x : Neighbor) {k : Nat}
    (hle : k ≤ p.length) : (p.extend x).firstSteps k = p.firstSteps k := by
  have hnodes : k + 1 ≤ p.nodes.length := by
    rw [h]
    omega
  rw [GraphPath.firstSteps, GraphPath.firstSteps, GraphPath.extend,
    List.take_append_of_le_length hnodes, List.take_append_of_le_length hle]

/-- All steps of a path are the path. -/
theorem GraphPath.Tight.firstSteps_length {p : GraphPath} (h : p.Tight) :
    p.firstSteps p.length = p := by
  rw [GraphPath.firstSteps, ← h, List.take_length, GraphPath.length, List.take_length]

section Answer

variable {v : View} {data : ExpandGraph} {asOf knownAt : Time}

/-- **The paths of the answer**: the first walks. -/
def View.answered (v : View) (data : ExpandGraph) (asOf knownAt : Time) : List GraphPath :=
  (v.walks data asOf knownAt).take data.maxPaths

theorem View.walk_of_answered (hgrounded : Grounded v.store) {p : GraphPath}
    (h : p ∈ v.answered data asOf knownAt) : v.store.Walk data asOf knownAt v.Reads p :=
  ((View.mem_walks hgrounded).mp (List.mem_of_mem_take h)).1

/-- **The path that an answered one extends** comes before it, unless it has no step. -/
theorem View.extended_of_answered {p : GraphPath} {earlier later : List GraphPath}
    (h : v.answered data asOf knownAt = earlier ++ p :: later) :
    ∃ walk, (walk ∈ v.starts data knownAt ∨ walk ∈ earlier)
      ∧ ∃ x ∈ v.adjacent walk data asOf knownAt, walk.extend x = p := by
  obtain ⟨walk, hwalk, hp⟩ := BreadthFirst.extends_earlier_of_take h
  obtain ⟨x, hx, heq⟩ := List.mem_map.mp hp
  exact ⟨walk, hwalk, x, hx, heq⟩

/-- The same without the order. -/
theorem View.extended_of_mem {p : GraphPath} (h : p ∈ v.answered data asOf knownAt) :
    ∃ walk, (walk ∈ v.starts data knownAt ∨ walk ∈ v.answered data asOf knownAt)
      ∧ ∃ x ∈ v.adjacent walk data asOf knownAt, walk.extend x = p := by
  obtain ⟨earlier, later, hsplit⟩ := List.append_of_mem h
  obtain ⟨walk, hwalk, hx⟩ := View.extended_of_answered hsplit
  exact ⟨walk, hwalk.imp_right fun hmem => hsplit ▸ List.mem_append_left _ hmem, hx⟩

theorem View.length_of_starts {p : GraphPath} (h : p ∈ v.starts data knownAt) : p.length = 0 := by
  obtain ⟨x, -, rfl⟩ := List.mem_map.mp h
  rfl

/-- **Every proper prefix of an answered path comes before it.** -/
theorem View.firstSteps_of_answered (hgrounded : Grounded v.store) {p : GraphPath}
    {earlier later : List GraphPath}
    (h : v.answered data asOf knownAt = earlier ++ p :: later) {k : Nat} (hpositive : 0 < k)
    (hlt : k < p.length) : p.firstSteps k ∈ earlier := by
  induction hlength : p.length using Nat.strong_induction_on generalizing p earlier later with
  | _ size ih =>
    subst hlength
    obtain ⟨walk, hwalk, x, -, rfl⟩ := View.extended_of_answered h
    rw [walk.length_extend] at hlt
    -- the extended path has a step, so it is among those before
    have hearlier : walk ∈ earlier := by
      rcases hwalk with hstart | hearlier
      · have hzero := View.length_of_starts hstart
        omega
      · exact hearlier
    have htight : walk.Tight :=
      (View.walk_of_answered hgrounded (h ▸ List.mem_append_left _ hearlier)).tight
    rw [htight.firstSteps_extend x (Nat.le_of_lt_succ hlt)]
    by_cases hall : k = walk.length
    · rw [hall, htight.firstSteps_length]
      exact hearlier
    · obtain ⟨before, between, rfl⟩ := List.append_of_mem hearlier
      rw [List.append_assoc, List.cons_append] at h
      have hbefore := ih walk.length (walk.length_extend x ▸ Nat.lt_succ_self _) h (by omega) rfl
      exact List.mem_append_left _ hbefore

/-- The entities of an answered path are seeds or ends of answered paths. -/
theorem View.ends_of_answered {p : GraphPath} (h : p ∈ v.answered data asOf knownAt) {id : UUID}
    (hid : id ∈ p.nodes) : (∃ q ∈ v.starts data knownAt, q.nodes.getLast? = some id)
      ∨ ∃ q ∈ v.answered data asOf knownAt, q.nodes.getLast? = some id := by
  induction hlength : p.length using Nat.strong_induction_on generalizing p with
  | _ size ih =>
    subst hlength
    obtain ⟨walk, hwalk, x, -, rfl⟩ := View.extended_of_mem h
    rcases List.mem_append.mp hid with hold | hnew
    · rcases hwalk with hstart | hmem
      · obtain ⟨y, hy, rfl⟩ := List.mem_map.mp hstart
        rw [List.mem_singleton] at hold
        exact Or.inl ⟨_, hstart, by rw [hold, List.getLast?_singleton]⟩
      · exact ih walk.length (walk.length_extend x ▸ Nat.lt_succ_self _) hmem hold rfl
    · rw [List.mem_singleton.mp hnew]
      exact Or.inr ⟨_, h, walk.getLast?_extend x⟩

/-- The relation revisions of an answered path are the last ones of answered paths. -/
theorem View.edges_of_answered (hgrounded : Grounded v.store) {p : GraphPath}
    (h : p ∈ v.answered data asOf knownAt) {e : GraphEdge}
    (he : v.store.InForce data asOf knownAt v.Reads e) (hassertion : e.assertion ∈ p.assertions) :
    ∃ walk, ∃ x ∈ v.adjacent walk data asOf knownAt,
      walk.extend x ∈ v.answered data asOf knownAt ∧ x.edge = e := by
  induction hlength : p.length using Nat.strong_induction_on generalizing p with
  | _ size ih =>
    subst hlength
    obtain ⟨walk, hwalk, x, hx, rfl⟩ := View.extended_of_mem h
    rcases List.mem_append.mp hassertion with hold | hnew
    · rcases hwalk with hstart | hmem
      · obtain ⟨y, -, rfl⟩ := List.mem_map.mp hstart
        exact absurd hold List.not_mem_nil
      · exact ih walk.length (walk.length_extend x ▸ Nat.lt_succ_self _) hmem hold rfl
    · exact ⟨walk, x, hx, h, ((View.mem_adjacent hgrounded).mp hx).edge.unique he
        (List.mem_singleton.mp hnew).symm⟩

end Answer

/-! ## The guarantee -/

/-- The instant at which revisions are to be valid, for a request at an instant. -/
def ExpandGraph.asOfFrom (data : ExpandGraph) (now : Time) : Time :=
  (data.asOf.map AwareDatetime.instant).getD now

/-- The instant at which they are to be known. -/
def ExpandGraph.knownFrom (data : ExpandGraph) (now : Time) : Time :=
  (data.knownAt.map AwareDatetime.instant).getD now

/-- **An exact expansion** of a store, for a reader of some scopes. -/
structure ExpandsExactly (s : Store) (data : ExpandGraph) (Readable : UUID → Prop) (r : Expansion) :
    Prop where
  /-- The paths are the first walks, listed by length, seed and steps; more exist exactly when the answer
  is truncated. -/
  paths : ∃ walks : List GraphPath,
    (∀ p, p ∈ walks ↔ s.Walk data r.asOf r.knownAt Readable p ∧ 0 < p.length
      ∧ p.length ≤ data.maxHops)
    ∧ (walks.Pairwise fun p q => p.rank < q.rank)
    ∧ r.paths = walks.take data.maxPaths
    ∧ (r.truncated = true ↔ data.maxPaths < walks.length)
  /-- No path is repeated. -/
  nodup : r.paths.Nodup
  /-- Every proper prefix of a path comes before it. -/
  prefixes : ∀ earlier p later, r.paths = earlier ++ p :: later → ∀ k, 0 < k → k < p.length →
    p.firstSteps k ∈ earlier
  /-- The nodes are the shown seeds and the entities of the paths. -/
  nodes : ∀ x, x ∈ r.nodes ↔ s.Shows r.knownAt Readable data.scopeIds x
    ∧ (x.memoryId ∈ data.seeds ∨ ∃ p ∈ r.paths, x.memoryId ∈ p.nodes)
  nodes_sorted : r.nodes.Pairwise fun x y => x.memoryId < y.memoryId
  /-- The edges are the relation revisions of the paths. -/
  edges : ∀ e, e ∈ r.edges ↔ s.InForce data r.asOf r.knownAt Readable e
    ∧ ∃ p ∈ r.paths, e.assertion ∈ p.assertions
  edges_sorted : r.edges.Pairwise fun e e' => toLex e.assertion < toLex e'.assertion

theorem GraphEdge.before_iff {e e' : GraphEdge} :
    e.before e' ↔ toLex e.assertion ≤ toLex e'.assertion := by
  rw [GraphEdge.before, Prod.Lex.toLex_le_toLex]

section Expand

variable {platform : Platform} {timeline : Timeline} {σ : Session} {data : ExpandGraph} {n : Nat}

/-- The entities collected are the seeds and those of the paths. -/
theorem Walked.Collects.mem_nodes {v : View} (hgrounded : Grounded v.store) {w : Walked}
    {asOf knownAt : Time} (h : w.Collects v data asOf knownAt (v.answered data asOf knownAt))
    {x : EntitySummary} (hx : v.store.Shows knownAt v.Reads data.scopeIds x) :
    x.memoryId ∈ w.nodes ↔ x.memoryId ∈ data.seeds
      ∨ ∃ p ∈ v.answered data asOf knownAt, x.memoryId ∈ p.nodes := by
  rw [h.nodes]
  constructor
  · rintro (⟨p, hp, hlast⟩ | ⟨p, hp, hlast⟩)
    · obtain ⟨y, hy, rfl⟩ := List.mem_map.mp hp
      rw [List.getLast?_singleton, Option.some.injEq] at hlast
      exact Or.inl (hlast ▸ ((View.mem_visibleEntities hgrounded).mp hy).2)
    · exact Or.inr ⟨p, hp, List.mem_of_getLast? hlast⟩
  · rintro (hseed | ⟨p, hp, hid⟩)
    · have hstart := (View.mem_visibleEntities hgrounded).mpr ⟨hx, hseed⟩
      exact Or.inl ⟨_, List.mem_map_of_mem hstart, List.getLast?_singleton⟩
    · exact View.ends_of_answered hp hid

/-- The edges collected are the relation revisions of the paths. -/
theorem Walked.Collects.mem_edges {v : View} (hgrounded : Grounded v.store) {w : Walked}
    {asOf knownAt : Time} (h : w.Collects v data asOf knownAt (v.answered data asOf knownAt))
    {e : GraphEdge} : e ∈ w.edges ↔ v.store.InForce data asOf knownAt v.Reads e
      ∧ ∃ p ∈ v.answered data asOf knownAt, e.assertion ∈ p.assertions := by
  rw [h.edges]
  constructor
  · rintro ⟨walk, x, hx, hp, rfl⟩
    exact ⟨((View.mem_adjacent hgrounded).mp hx).edge, _, hp,
      List.mem_append_right _ (List.mem_singleton_self _)⟩
  · rintro ⟨he, p, hp, hassertion⟩
    exact View.edges_of_answered hgrounded hp he hassertion

/-- **The answer is exact** when all its entities are still visible at the end. -/
theorem Walked.Collects.exact {v u : View} (hstore : u.store = v.store)
    (hreads : ∀ scope, u.Reads scope → v.Reads scope) (hgrounded : Grounded v.store)
    {w : Walked} {asOf knownAt : Time} {accessEpoch deletionEpoch : Nat}
    (h : w.Collects v data asOf knownAt (v.answered data asOf knownAt))
    (htruncated : w.truncated = decide (data.maxPaths < (v.walks data asOf knownAt).length))
    (hvisible : ∀ id ∈ w.nodes, u.visible id = true) :
    ExpandsExactly v.store data v.Reads ⟨asOf, knownAt,
      u.visibleEntities w.nodes.dedup data.scopeIds knownAt,
      w.edges.insertionSort GraphEdge.before, w.paths, w.truncated, accessEpoch, deletionEpoch⟩ := by
  have hgrounded' : Grounded u.store := hstore ▸ hgrounded
  have hsorted : (v.walks data asOf knownAt).Pairwise fun p q => p.rank < q.rank :=
    View.pairwise_walks hgrounded
  refine ⟨⟨_, fun p => View.mem_walks hgrounded, hsorted, h.paths, ?_⟩, ?_, ?_, fun x => ?_,
    View.pairwise_visibleEntities _, fun e => ?_, ?_⟩
  · rw [htruncated, decide_eq_true_eq]
  · have hdistinct : (v.walks data asOf knownAt).Nodup := hsorted.imp fun {p q} hlt heq => by
      rw [heq] at hlt
      exact lt_irrefl _ hlt
    exact h.paths ▸ hdistinct.sublist (List.take_sublist _ _)
  · intro earlier p later hsplit k hpositive hlt
    exact View.firstSteps_of_answered hgrounded (h.paths.symm.trans hsplit) hpositive hlt
  · rw [View.mem_visibleEntities hgrounded', List.mem_dedup, hstore, h.paths]
    constructor
    · rintro ⟨hshows, hid⟩
      have hshows' := hshows.mono (hreads _ hshows.readable)
      exact ⟨hshows', (h.mem_nodes hgrounded hshows').mp hid⟩
    · rintro ⟨hshows, hid⟩
      have hmem := (h.mem_nodes hgrounded hshows).mpr hid
      -- the entity is still visible, so its scope can still be read
      obtain ⟨e, he, o, -, -, heq, -⟩ := hshows.rows
      have hread : u.Reads e.scopeId := (View.visible_entity hgrounded' (hstore ▸ he)).mp
        (by rw [heq] at hmem; exact hvisible _ hmem)
      exact ⟨hshows.mono (by rw [heq]; exact hread), hmem⟩
  · rw [List.mem_insertionSort, h.mem_edges hgrounded, h.paths]
  · have htotal : Std.Total GraphEdge.before := ⟨fun x y => by
      rw [GraphEdge.before_iff, GraphEdge.before_iff]
      exact le_total _ _⟩
    have htrans : IsTrans GraphEdge GraphEdge.before := ⟨fun x y z hxy hyz => by
      rw [GraphEdge.before_iff] at hxy hyz ⊢
      exact hxy.trans hyz⟩
    have hnodup : (w.edges.insertionSort GraphEdge.before).Nodup :=
      (List.perm_insertionSort _ _).nodup_iff.mpr h.distinct
    refine ((List.pairwise_insertionSort GraphEdge.before w.edges).and hnodup).imp_of_mem ?_
    rintro e e' he he' ⟨hbefore, hne⟩
    rw [List.mem_insertionSort] at he he'
    refine lt_of_le_of_ne (GraphEdge.before_iff.mp hbefore) fun heq => hne ?_
    exact ((h.mem_edges hgrounded).mp he).1.unique ((h.mem_edges hgrounded).mp he').1
      (toLex.injective heq)

/-- **All entities of some ids are returned** exactly when all are shown. -/
theorem View.length_visibleEntities {v : View} (hgrounded : Grounded v.store) {scopes ids : List UUID}
    {knownAt : Time} : (v.visibleEntities ids.dedup scopes knownAt).length = ids.dedup.length
      ↔ ∀ id ∈ ids, v.store.ShowsId knownAt v.Reads scopes id := by
  have hmem : ∀ id, id ∈ (v.visibleEntities ids.dedup scopes knownAt).map EntitySummary.memoryId
      ↔ v.store.ShowsId knownAt v.Reads scopes id ∧ id ∈ ids := by
    intro id
    rw [List.mem_map]
    constructor
    · rintro ⟨x, hx, rfl⟩
      obtain ⟨hshows, hid⟩ := (View.mem_visibleEntities hgrounded).mp hx
      exact ⟨⟨x, hshows, rfl⟩, List.mem_dedup.mp hid⟩
    · rintro ⟨⟨x, hshows, rfl⟩, hid⟩
      exact ⟨x, (View.mem_visibleEntities hgrounded).mpr ⟨hshows, List.mem_dedup.mpr hid⟩, rfl⟩
  have hnodup : ((v.visibleEntities ids.dedup scopes knownAt).map EntitySummary.memoryId).Nodup :=
    List.pairwise_map.mpr ((View.pairwise_visibleEntities _).imp fun hlt => ne_of_lt hlt)
  rw [← List.length_map EntitySummary.memoryId]
  constructor
  · intro hlength id hid
    have hsub := List.subperm_of_subset hnodup fun id hid =>
      List.mem_dedup.mpr ((hmem id).mp hid).2
    have hperm := hsub.perm_of_length_le (Nat.le_of_eq hlength.symm)
    exact ((hmem id).mp (hperm.mem_iff.mpr (List.mem_dedup.mpr hid))).1
  · intro hall
    refine ((List.perm_ext_iff_of_nodup hnodup (List.nodup_dedup ids)).mpr fun id => ?_).length_eq
    rw [hmem, List.mem_dedup]
    exact ⟨fun h => h.2, fun h => ⟨hall id h, h⟩⟩

/-- The first frontier. -/
theorem View.starts_eq (v : View) (data : ExpandGraph) (knownAt : Time) : v.starts data knownAt
    = ((v.visibleEntities data.seeds data.scopeIds knownAt).map EntitySummary.memoryId).map
      fun seed => ⟨[seed], []⟩ := by
  rw [View.starts, List.map_map]
  rfl

/-- What has been collected before the first round. -/
def View.collected (v : View) (data : ExpandGraph) (knownAt : Time) : Walked :=
  ⟨[], [], (v.visibleEntities data.seeds data.scopeIds knownAt).map EntitySummary.memoryId, false⟩

theorem View.contains_collected {v : View} (hgrounded : Grounded v.store) (d : ExpandGraph)
    (t : Time) : (v.collected d t).Contains v d t (v.starts d t) := by
  constructor
  · intro id hid
    obtain ⟨x, hx, rfl⟩ := List.mem_map.mp hid
    exact ⟨x, ((View.mem_visibleEntities hgrounded).mp hx).1, rfl⟩
  · intro walk hwalk
    obtain ⟨x, hx, rfl⟩ := List.mem_map.mp hwalk
    exact ⟨x.memoryId, List.mem_map_of_mem hx, List.getLast?_singleton⟩

theorem View.collects_collected {v : View} {asOf knownAt : Time} :
    (v.collected data knownAt).Collects v data asOf knownAt [] where
  paths := rfl
  nodes id := by
    rw [View.collected, View.starts, List.mem_map]
    simp
  edges e := by
    rw [View.collected]
    simp
  distinct := .nil

/-- **An expansion is exact**, for what its reader could read when the seeds were looked up. -/
theorem outcome_expand (hgrounded : Grounded σ.store) :
    Outcome platform timeline (SqlGraph.expand data)
      (fun r _ _ => r.asOf = data.asOfFrom (timeline.moment n).timestamp
        ∧ r.knownAt = data.knownFrom (timeline.moment n).timestamp
        ∧ ExpandsExactly σ.store data (σ.view (timeline.moment (n + 1))).Reads r)
      (ExpansionFails timeline σ (n + 1) data (data.asOfFrom (timeline.moment n).timestamp)
        (data.knownFrom (timeline.moment n).timestamp)) n σ := by
  refine outcome_read (outcome_decode (fun _ => ?_) fun hunreadable => ?_)
  swap
  · obtain ⟨t, ht, hnot⟩ := List.all_eq_false.mp hunreadable
    rw [decide_eq_true_eq] at hnot
    exact .instant ht hnot
  refine outcome_read ?_
  have hcollected := View.contains_collected (v := σ.view (timeline.moment (n + 1))) hgrounded data
    (data.knownFrom (timeline.moment n).timestamp)
  rw [View.starts_eq] at hcollected
  refine outcome_bind (outcome_hops hgrounded (Nat.le_succ _) rfl hcollected) ?_
  rintro w m σ' hm ⟨rfl, -, hcontains, -, hshows⟩
  rw [← View.starts_eq] at hshows
  have hlength : ((σ'.view (timeline.moment m)).visibleEntities w.nodes.dedup data.scopeIds
        (data.knownFrom (timeline.moment n).timestamp)).length = w.nodes.dedup.length
      ↔ ∀ id ∈ w.nodes, σ'.store.ShowsId (data.knownFrom (timeline.moment n).timestamp)
        (σ'.view (timeline.moment m)).Reads data.scopeIds id :=
    View.length_visibleEntities hgrounded
  refine outcome_read (outcome_demand (fun hall => outcome_pure ⟨rfl, rfl, ?_⟩) fun hlost => ?_)
  · have hshown := hlength.mp (of_decide_eq_true hall)
    have hvisible : ∀ id ∈ w.nodes, (σ'.view (timeline.moment m)).visible id = true :=
      fun id hid => Store.ShowsId.visible (v := σ'.view (timeline.moment m)) hgrounded (hshown id hid)
    obtain ⟨hcollects, htruncated⟩ := (hshows hvisible).collects [] View.collects_collected
    exact Walked.Collects.exact (v := σ'.view (timeline.moment (n + 1)))
      (u := σ'.view (timeline.moment m)) rfl (fun _ h => Session.reads_of_le (by omega) h) hgrounded
      hcollects htruncated hvisible
  · have hmissing : ¬∀ id ∈ w.nodes, σ'.store.ShowsId
        (data.knownFrom (timeline.moment n).timestamp) (σ'.view (timeline.moment m)).Reads
          data.scopeIds id := fun h => of_decide_eq_false hlost (hlength.mpr h)
    simp only [not_forall] at hmissing
    obtain ⟨id, hid, hnot⟩ := hmissing
    obtain ⟨x, hx, rfl⟩ := hcontains.shown id hid
    exact .lost hx.scope hx.readable fun hread => hnot ⟨x, hx.mono hread, rfl⟩

end Expand

/-- **Expansions are exact.** A call that expands the graph of a reachable store is answered with the
first walks, or fails because of an instant that the client cannot read or of a scope that its caller lost
during the call. -/
theorem expansions_exact {platform : Platform} {s : Store} (hs : Reachable platform s) {c : Call}
    {data : ExpandGraph} (hrequest : c.request = .expand data)
    (hknown : (s.access.principals.find? c.principal).isSome = true) :
    (∃ r, (c.exec platform s).1 = .ok (.expanded r)
        ∧ r.asOf = data.asOfFrom (c.timeline.moment 1).timestamp
        ∧ r.knownAt = data.knownFrom (c.timeline.moment 1).timestamp
        ∧ ExpandsExactly s data
          ((Session.start c.principal s).view (c.timeline.moment 2)).Reads r)
      ∨ ∃ fault, (c.exec platform s).1 = .error fault
        ∧ ExpansionFails c.timeline (.start c.principal s) 2 data
          (data.asOfFrom (c.timeline.moment 1).timestamp)
          (data.knownFrom (c.timeline.moment 1).timestamp) fault := by
  have houtcome : Outcome platform c.timeline (SqlGraph.expand data)
      (fun r _ _ => r.asOf = data.asOfFrom (c.timeline.moment 1).timestamp
        ∧ r.knownAt = data.knownFrom (c.timeline.moment 1).timestamp
        ∧ ExpandsExactly s data
          ((Session.start c.principal s).view (c.timeline.moment 2)).Reads r)
      (ExpansionFails c.timeline (.start c.principal s) 2 data
        (data.asOfFrom (c.timeline.moment 1).timestamp)
        (data.knownFrom (c.timeline.moment 1).timestamp)) 1 (.start c.principal s) :=
    outcome_expand hs.sound.grounded
  have hbody : c.request.body platform = respond .expanded (SqlGraph.expand data) := by
    rw [hrequest]
    rfl
  exact Call.exec_reading (readOnly_expand data) hbody hs.sound.integrity.deferred hknown houtcome

/-- A relation between two entities of the small tenant. -/
def CreateRelation.brief : CreateRelation where
  scopeId := 2
  sourceEntity := 308
  targetEntity := 408
  predicate := .dependsOn
  evidence := Remember.brief.evidence
  bounds := Remember.brief.bounds
  valid := Remember.brief.valid

/-- The small tenant with the relation 516 between two entities. -/
def Store.related : Store :=
  runEvents .plain [
    .call ⟨1, .ticking 0 100, .observe (.brief 2) "key"⟩,
    .call ⟨1, .ticking 200 300, .createEntity .brief "source"⟩,
    .call ⟨1, .ticking 400 400, .createEntity .brief "target"⟩,
    .call ⟨1, .ticking 600 500, .createRelation .brief "key"⟩] (.provisioned (.sole 1 2 none))

/-- The expansion around the source of the relation. -/
def ExpandGraph.brief : ExpandGraph where
  scopeIds := [2]
  seeds := [308]
  relationTypes := [.dependsOn]
  purpose := .brief
  direction := .both

/-- The paths of a response. -/
def expandedPaths : Except Fault Response → List GraphPath
  | .ok (.expanded r) => r.paths
  | _ => []

/-- The small tenant's graph has one walk from the source. -/
theorem expansions_exact_brief :
    expandedPaths (Call.exec .plain ⟨1, .ticking 800 600, .expand .brief⟩ .related).1
        = [⟨[308, 408], [(516, 1)]⟩]
      ∧ ((∃ r, (Call.exec .plain ⟨1, .ticking 800 600, .expand .brief⟩ .related).1
            = .ok (.expanded r)
          ∧ r.asOf = ExpandGraph.brief.asOfFrom ((Timeline.ticking 800 600).moment 1).timestamp
          ∧ r.knownAt = ExpandGraph.brief.knownFrom ((Timeline.ticking 800 600).moment 1).timestamp
          ∧ ExpandsExactly .related .brief
            ((Session.start 1 .related).view ((Timeline.ticking 800 600).moment 2)).Reads r)
        ∨ ∃ fault, (Call.exec .plain ⟨1, .ticking 800 600, .expand .brief⟩ .related).1
            = .error fault
          ∧ ExpansionFails (.ticking 800 600) (.start 1 .related) 2 .brief
            (ExpandGraph.brief.asOfFrom ((Timeline.ticking 800 600).moment 1).timestamp)
            (ExpandGraph.brief.knownFrom ((Timeline.ticking 800 600).moment 1).timestamp) fault) :=
  ⟨by decide +kernel, expansions_exact ((Reachable.provisioned _).run _)
    (c := ⟨1, .ticking 800 600, .expand .brief⟩) rfl (by decide +kernel)⟩

end PgAgmemory

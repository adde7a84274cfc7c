import PgAgmemory.Recalling.Offers
import PgAgmemory.Service.History
import PgAgmemory.System.Calls

/-! # What reading operations report

What a revision of an assertion is, in the terms of the store: its texts and times, the episodes of its
evidence, and the endpoints of a relation. A statement that reads in the scope of the assertion sees
exactly that (`View.evidenceRefs_eq`, `View.endpoints?_eq`), and so every item of a recall says what the
store says (`Session.Reports.cases`). -/

namespace PgAgmemory

open Keyed (HasKey Table key)
open MemoryService

/-! ## Revisions -/

/-- The episodes of the evidence of a revision. -/
def Store.evidenceRefs (s : Store) (id : UUID) (revision : Nat) : List UUID :=
  ((s.contents.edges.rows.filter fun e => e.childId = id && decide (e.childRevision = revision)).map
    ProvenanceEdgeRow.parentId).insertionSort (· ≤ ·)

/-- The endpoints of a revision of a relation. -/
def Store.endpoints? (s : Store) (id : UUID) (revision : Nat) : Option RelationEndpoints :=
  (s.graph.relations.find? id).bind fun l => (s.graph.targets.find? (id, revision)).map fun t =>
    ⟨l.sourceId, t.targetId⟩

/-! ## Views of a readable scope -/

section Views

variable {v : View} {a : AssertionRow}

/-- The episode of a live id in a readable scope. -/
theorem View.episode?_of_edge (hgrounded : Grounded v.store) {e : ProvenanceEdgeRow}
    (he : e ∈ v.store.contents.edges) (hread : v.permitted e.scopeId .read = true) :
    (v.episode? e.parentId).isSome = true := by
  obtain ⟨p, hp, hkey⟩ := hgrounded.foreign.content.edge_parent.exists_parent he rfl
  obtain ⟨hid, hscope⟩ := Prod.mk.inj hkey
  have hvisible : v.visible p.id = true :=
    ((hgrounded.episode hp).visible hgrounded.foreign.marked rfl).mpr (hscope ▸ hread)
  rw [← hid]
  exact Option.isSome_iff_exists.mpr
    ⟨p, Option.filter_eq_some_iff.mpr ⟨Table.find?_eq_some_iff.mpr ⟨hp, rfl⟩, hvisible⟩⟩

/-- The reader of a scope sees all the evidence of its assertions. -/
theorem View.evidenceRefs_eq (hgrounded : Grounded v.store) (ha : a ∈ v.store.contents.assertions)
    (hread : v.permitted a.scopeId .read = true) (revision : Nat) :
    v.evidenceRefs a.id revision = v.store.evidenceRefs a.id revision := by
  have hrows : v.edges.filter (fun e => e.childId = a.id && decide (e.childRevision = revision)
        && (v.episode? e.parentId).isSome)
      = v.store.contents.edges.rows.filter fun e =>
        e.childId = a.id && decide (e.childRevision = revision) := by
    rw [View.edges, List.filter_filter]
    refine List.filter_congr fun e he => ?_
    rw [Bool.eq_iff_iff, Bool.and_eq_true, Bool.and_eq_true, and_assoc, and_iff_left_iff_imp,
      Bool.and_eq_true, decide_eq_true_eq]
    rintro ⟨hid, -⟩
    -- an edge lies in the scope of its assertion, as does the episode it names
    have hscope : e.scopeId = a.scopeId :=
      (hgrounded.edgeChild he).anchored.unique (hid ▸ (hgrounded.assertion ha).anchored)
    have hmarked := hgrounded.foreign.marked
    exact ⟨View.episode?_of_edge hgrounded he (hscope ▸ hread), Bool.and_eq_true_iff.mpr
      ⟨((hgrounded.edgeChild he).visible hmarked rfl).mpr (hscope ▸ hread),
        ((hgrounded.edgeParent he).visible hmarked rfl).mpr (hscope ▸ hread)⟩⟩
  rw [View.evidenceRefs, Store.evidenceRefs, hrows]

/-- Whoever sees an edge sees its episode. -/
theorem View.episode?_of_visible (hgrounded : Grounded v.store) {e : ProvenanceEdgeRow}
    (he : e ∈ v.edges) : (v.episode? e.parentId).isSome = true := by
  obtain ⟨hmem, hvisible⟩ := List.mem_filter.mp he
  obtain ⟨hchild, -⟩ := Bool.and_eq_true_iff.mp hvisible
  exact View.episode?_of_edge hgrounded hmem
    (((hgrounded.edgeChild hmem).visible hgrounded.foreign.marked rfl).mp hchild)

/-- The reader of a scope sees the sources of its assertions. -/
theorem View.sources_eq (hgrounded : Grounded v.store) (ha : a ∈ v.store.contents.assertions)
    (hread : v.permitted a.scopeId .read = true) (revision : Nat) :
    v.sources a.id revision = v.store.evidenceRefs a.id revision := by
  rw [← View.evidenceRefs_eq hgrounded ha hread, View.sources, View.evidenceRefs]
  congr 2
  refine List.filter_congr fun e he => ?_
  rw [View.episode?_of_visible hgrounded he, Bool.and_true]

/-- An episode has no sources. -/
theorem View.sources_episode (hforeign : ForeignKeys v.store) {e : EpisodeRow}
    (he : e ∈ v.store.contents.episodes) (revision : Nat) : v.sources e.id revision = [] := by
  have hnone : v.edges.filter (fun x => x.childId = e.id && x.childRevision = revision) = [] := by
    refine List.filter_eq_nil_iff.mpr fun x hx hof => ?_
    -- the child of an edge is an assertion
    obtain ⟨a, ha, hkey⟩ :=
      hforeign.content.edge_child.exists_parent (List.mem_filter.mp hx).1 rfl
    refine View.episode_ne_assertion hforeign he ha ?_
    rw [(Prod.mk.inj hkey).1]
    exact (of_decide_eq_true (Bool.and_eq_true_iff.mp hof).1).symm
  rw [View.sources, hnone]
  rfl

/-- The quoted episodes of a revision are its sources. -/
theorem View.quotedSources_eq (hgrounded : Grounded v.store)
    (ha : a ∈ v.store.contents.assertions) (hread : v.permitted a.scopeId .read = true)
    (revision : Nat) :
    (v.quotedSources a.id revision).map QuotedSource.memoryId
      = v.store.evidenceRefs a.id revision := by
  rw [← View.sources_eq hgrounded ha hread, View.quotedSources, View.sources,
    List.map_insertionSort QuotedSource.before (· ≤ ·) _ _ fun _ _ _ _ => Iff.rfl]
  congr 1
  rw [List.map_filterMap, ← List.filterMap_eq_map]
  refine List.filterMap_congr fun e he => ?_
  obtain ⟨p, hp⟩ := Option.isSome_iff_exists.mp
    (View.episode?_of_visible hgrounded (List.mem_filter.mp he).1)
  rw [hp]
  rfl

/-- The reader of a scope sees the endpoints of its assertions. -/
theorem View.endpoints?_eq (hgrounded : Grounded v.store) (ha : a ∈ v.store.contents.assertions)
    (hread : v.permitted a.scopeId .read = true) (revision : Nat) :
    v.endpoints? a.id revision = v.store.endpoints? a.id revision := by
  rw [View.endpoints?, View.relation?_eq hgrounded ha hread, View.target?_eq hgrounded ha hread]
  rfl

end Views

/-- Endpoints that a statement sees are stored. -/
theorem View.endpoints_stored {v : View} {id : UUID} {revision : Nat} {ends : RelationEndpoints}
    (h : v.endpoints? id revision = some ends) : v.store.endpoints? id revision = some ends := by
  obtain ⟨l, hl, hrest⟩ := Option.bind_eq_some_iff.mp h
  obtain ⟨t, ht, rfl⟩ := Option.map_eq_some_iff.mp hrest
  rw [Store.endpoints?, (Option.filter_eq_some_iff.mp hl).1, Option.bind_some,
    (Option.filter_eq_some_iff.mp ht).1, Option.map_some]

/-- **The endpoints of a revision** are its source and its target. -/
theorem Store.endpoints?_eq_some {s : Store} {id : UUID} {revision : Nat}
    {ends : RelationEndpoints} : s.endpoints? id revision = some ends
      ↔ (∃ l ∈ s.graph.relations, l.id = id ∧ l.sourceId = ends.sourceEntity)
        ∧ ∃ t ∈ s.graph.targets, (t.assertionId, t.revision) = (id, revision)
          ∧ t.targetId = ends.targetEntity := by
  rw [Store.endpoints?, Option.bind_eq_some_iff]
  constructor
  · rintro ⟨l, hl, hrest⟩
    obtain ⟨t, ht, rfl⟩ := Option.map_eq_some_iff.mp hrest
    obtain ⟨hlMem, hlKey⟩ := Table.find?_eq_some_iff.mp hl
    obtain ⟨htMem, htKey⟩ := Table.find?_eq_some_iff.mp ht
    exact ⟨⟨l, hlMem, hlKey, rfl⟩, t, htMem, htKey, rfl⟩
  · rintro ⟨⟨l, hl, hid, hsource⟩, t, ht, hkey, htarget⟩
    refine ⟨l, Table.find?_eq_some_iff.mpr ⟨hl, hid⟩, ?_⟩
    rw [Table.find?_eq_some_iff.mpr ⟨ht, hkey⟩, Option.map_some, hsource, htarget]

/-- An assertion that is not a relation has no endpoints. -/
theorem Reachable.endpoints?_eq {platform : Platform} {s : Store} (hs : Reachable platform s)
    {a : AssertionRow} (ha : a ∈ s.contents.assertions) (revision : Nat) :
    (if a.isRelation then s.endpoints? a.id revision else none) = s.endpoints? a.id revision := by
  cases hrelation : a.isRelation with
  | true => rfl
  | false =>
    rw [if_neg Bool.false_ne_true, eq_comm, Option.eq_none_iff_forall_ne_some]
    intro ends hends
    obtain ⟨⟨l, hl, hid, -⟩, -⟩ := Store.endpoints?_eq_some.mp hends
    obtain ⟨a', ha', hid', hmarked⟩ := hs.typed l hl
    obtain rfl : a' = a := Table.eq_of_key_eq ha' ha (hid'.trans hid)
    exact absurd (hmarked.symm.trans hrelation) (by decide)

/-! ## Candidates -/

/-- The endpoints that a candidate names. -/
def Candidate.endpoints? (c : Candidate) : Option RelationEndpoints :=
  c.sourceEntity.bind fun source => c.targetEntity.map fun target => ⟨source, target⟩

/-- **A candidate of a revision**, in the terms of the store. -/
structure Store.Proposes (s : Store) (a : AssertionRow) (r : AssertionRevisionRow) (c : Candidate) :
    Prop where
  kind : c.kind = .assertion
  identity : c.id = a.id ∧ c.revision = r.revision
  content : c.content = a.text r
  createdAt : c.createdAt = r.systemFrom
  occurredAt : c.occurredAt = none
  validFrom : c.validFrom = r.validTime.lower
  validTo : c.validTo = r.validTime.upper
  endpoints : c.endpoints? = s.endpoints? a.id r.revision

/-- **What a candidate is**: an episode without endpoints, or a readable revision in force. -/
theorem View.candidate_cases {v : View} (hgrounded : Grounded v.store) {q : CandidateQuery}
    {c : Candidate} (hc : c ∈ v.candidates q) :
    (c.kind = .episode ∧ c.endpoints? = none ∧ ∃ e ∈ v.store.contents.episodes, e.id = c.id
        ∧ c.revision = 1 ∧ c.content = e.content.str ∧ c.occurredAt = some e.occurredAt
        ∧ c.validFrom = none ∧ c.validTo = none)
      ∨ ∃ a ∈ v.store.contents.assertions, ∃ r ∈ v.store.contents.revisionsOf a.id,
        v.store.Proposes a r c ∧ v.permitted a.scopeId .read = true
          ∧ r.validTime.contains q.asOf = true ∧ r.systemTime.contains q.known = true := by
  cases (View.mem_candidates_iff hgrounded).mp hc with
  | @episode o e _ he _ _ _ _ _ _ _ _ _ => exact Or.inl ⟨rfl, rfl, e, he, rfl, rfl, rfl, rfl, rfl, rfl⟩
  | @revision o a r ho ha hid _ hr _ hread _ _ _ _ hasOf hknown =>
    refine Or.inr ⟨a, ha, r, hr, ⟨rfl, ⟨rfl, rfl⟩, rfl, rfl, rfl, rfl, rfl, ?_⟩, ?_, hasOf, hknown⟩
    · rw [Candidate.endpoints?, Store.revisionOffer, Store.endpoints?, Option.bind_map]
      refine Option.bind_congr fun l _ => ?_
      rw [Function.comp_apply, Option.map_map]
      rfl
    · obtain ⟨o', ho', hkey⟩ := hgrounded.foreign.content.assertion_object.exists_parent ha rfl
      obtain ⟨hid', hscope, -⟩ : _ ∧ _ ∧ _ := by simpa only [Prod.mk.injEq] using hkey
      obtain rfl : o' = o := Table.eq_of_key_eq ho' ho (hid'.trans hid.symm)
      rw [← hscope]
      exact hread

/-! ## Items -/

/-- **A context selects among the items.** -/
theorem mem_of_buildContext {items selected : List MemoryItem} {budget required : Nat}
    {p : ContextPack} {omitted : Bool}
    (h : buildContext items budget required = .ok (p, selected, omitted)) {item : MemoryItem}
    (hitem : item ∈ selected) : item ∈ items := by
  by_cases hoverflows : Greedy.Overflows (fitsBudget budget) [] required items
  · rw [buildContext_exhausted hoverflows] at h
    cases h
  · rw [buildContext_selects hoverflows] at h
    split at h <;> cases h
    exact (Greedy.greedy_sublist items).subset hitem

/-- **A reported item** is that of a candidate that one statement of the recall has seen, with the
sources that a later one has seen. -/
def Session.Reports (σ : Session) (timeline : Timeline) (data : Recall) (start : Nat)
    (item : MemoryItem) : Prop :=
  ∃ k l, ∃ row : Ranked, row.candidate ∈ σ.candidatesAt timeline data start k
    ∧ item = data.itemOf row ((σ.view (timeline.moment l)).sources row.candidate.id
      row.candidate.revision) row.candidate.endpoints?

section Outcome

variable {platform : Platform} {timeline : Timeline} {data : Recall} {n : Nat} {σ : Session}

/-- The item of a row has the sources that its statement sees. -/
theorem outcome_item_sources (row : Ranked) :
    Outcome platform timeline (item data row)
      (fun item _ σ' => σ' = σ ∧ ∃ l, item = data.itemOf row
        ((σ.view (timeline.moment l)).sources row.candidate.id row.candidate.revision)
        row.candidate.endpoints?) (fun _ => True) n σ := by
  refine outcome_read ?_
  have hends : Outcome platform timeline (endpoints row.candidate)
      (fun relation _ σ' => σ' = σ ∧ relation = row.candidate.endpoints?) (fun _ => True)
      (n + 1) σ := by
    unfold endpoints Candidate.endpoints?
    split
    next hsource => exact outcome_pure ⟨rfl, by rw [hsource, Option.bind_none]⟩
    next hsource htarget =>
      exact outcome_pure ⟨rfl, by rw [hsource, htarget, Option.bind_some, Option.map_some]⟩
    next => exact outcome_raise trivial
  refine outcome_bind hends ?_
  rintro relation m σ' - ⟨rfl, rfl⟩
  exact outcome_pure ⟨rfl, n, rfl⟩

/-- **Every item of a recall is reported.** -/
theorem outcome_reports (data : Recall) (n : Nat) (σ : Session) :
    Outcome platform timeline (MemoryService.«recall» platform data)
      (fun r _ _ => ∀ item ∈ r.items, σ.Reports timeline data n item) (fun _ => True) n σ := by
  refine outcome_read (outcome_bind ((outcome_searchText rfl).mono (fun _ _ _ _ h => h)
    fun _ _ => trivial) ?_)
  rintro text m σ' - ⟨rfl, rfl, -⟩
  refine outcome_bind ((outcome_requiredCandidates _).mono (fun _ _ _ _ h => h)
    fun _ _ => trivial) ?_
  rintro required m σ' - ⟨-, rfl, -, -, rfl⟩
  refine outcome_bind ((outcome_rankedCandidates _ text).mono (fun _ _ _ _ h => h)
    fun _ _ => trivial) ?_
  rintro ranked m' σ' - ⟨rfl, rfl, -, rfl, -⟩
  refine outcome_bind ((outcome_coverage _).mono (fun _ _ _ _ h => h) fun _ _ => trivial) ?_
  rintro ⟨lexicalIncomplete, vectorIncomplete⟩ m' σ' - ⟨rfl, -⟩
  refine outcome_bind (outcome_forCollect fun row _ k _ => outcome_item_sources row) ?_
  rintro items k σ' - ⟨rfl, hitems⟩
  cases hbuild : buildContext items data.tokenBudget
      ((data.requiredRows (σ'.candidatesAt timeline data n (n + 1))).map
        Candidate.unranked).length with
  | error code =>
    unfold Session.candidatesAt at hbuild
    rw [hbuild]
    exact outcome_raise trivial
  | ok result =>
    obtain ⟨context, selected, omitted⟩ := result
    have hbuilt := hbuild
    unfold Session.candidatesAt at hbuild
    rw [hbuild]
    refine outcome_read (outcome_read (outcome_pure fun item hitem => ?_))
    obtain ⟨row, hrow, l, heq⟩ := exists_of_forall₂ hitems (mem_of_buildContext hbuilt hitem)
    rcases List.mem_append.mp (List.mem_of_mem_take hrow) with hrequired | hranked
    · obtain ⟨c, hc, rfl⟩ := List.mem_map.mp hrequired
      exact ⟨_, l, _, Recall.mem_requiredRows hc, heq⟩
    · exact ⟨_, l, _, Recall.mem_rankedRows hranked, heq⟩

end Outcome

/-- The instant at which revisions are to be valid, for a recall at an instant. -/
def Recall.asOfFrom (data : Recall) (now : Time) : Time :=
  (data.asOf.map AwareDatetime.instant).getD now

/-- The instant at which they are to be known. -/
def Recall.knownFrom (data : Recall) (now : Time) : Time :=
  (data.knownAt.map AwareDatetime.instant).getD now

/-- **An item says what the store says** of a revision. -/
structure Store.Says (s : Store) (a : AssertionRow) (r : AssertionRevisionRow) (item : MemoryItem) :
    Prop where
  identity : item.memoryId = a.id ∧ item.revision = r.revision
  content : item.content = a.text r
  recordedAt : item.recordedAt = r.systemFrom
  validFrom : item.validFrom = r.validTime.lower
  validTo : item.validTo = r.validTime.upper
  relation : item.relation = s.endpoints? a.id r.revision

/-- **What a reported item is**: an episode without endpoints, or a revision in force. -/
theorem Session.Reports.cases {σ : Session} {timeline : Timeline} {data : Recall} {n : Nat}
    {item : MemoryItem} (h : σ.Reports timeline data n item) (hgrounded : Grounded σ.store) :
    (item.kind = .episode ∧ item.relation = none ∧ ∃ e ∈ σ.store.contents.episodes,
        e.id = item.memoryId ∧ item.revision = 1 ∧ item.content = e.content.str
          ∧ item.occurredAt = some e.occurredAt ∧ item.validFrom = none ∧ item.validTo = none
          ∧ item.source = [])
      ∨ ∃ a ∈ σ.store.contents.assertions, ∃ r ∈ σ.store.contents.revisionsOf a.id,
        item.kind = .assertion ∧ σ.store.Says a r item
          ∧ (∃ k, (σ.view (timeline.moment k)).permitted a.scopeId .read = true)
          ∧ r.validTime.contains (data.asOfFrom (timeline.moment n).timestamp) = true
          ∧ r.systemTime.contains (data.knownFrom (timeline.moment n).timestamp) = true
          ∧ ((∀ k, (σ.view (timeline.moment k)).permitted a.scopeId .read = true) →
            item.source = σ.store.evidenceRefs a.id r.revision) := by
  obtain ⟨k, l, row, hcandidate, rfl⟩ := h
  rcases View.candidate_cases (v := σ.view (timeline.moment k)) hgrounded hcandidate with
    ⟨hkind, hnone, e, he, hid, hone, hcontent, hoccurred, hfrom, hto⟩
      | ⟨a, ha, r, hr, hproposes, hread, hvalid, hknown⟩
  · refine Or.inl ⟨hkind, hnone, e, he, hid, hone, hcontent, hoccurred, hfrom, hto, ?_⟩
    change (σ.view (timeline.moment l)).sources row.candidate.id row.candidate.revision = _
    rw [← hid]
    exact View.sources_episode (v := σ.view (timeline.moment l)) hgrounded.foreign he _
  · refine Or.inr ⟨a, ha, r, hr, hproposes.kind, ⟨hproposes.identity, hproposes.content,
      hproposes.createdAt, hproposes.validFrom, hproposes.validTo, hproposes.endpoints⟩, ⟨k, hread⟩,
      hvalid, hknown, fun hreads => ?_⟩
    change (σ.view (timeline.moment l)).sources row.candidate.id row.candidate.revision = _
    rw [hproposes.identity.1, hproposes.identity.2]
    exact View.sources_eq (v := σ.view (timeline.moment l)) hgrounded ha (hreads l) _

/-! ## Explanations -/

section Explain

variable {platform : Platform} {timeline : Timeline} {data : Explain} {n : Nat} {σ : Session}

/-- **An explained revision**: its row and that of its assertion, and the endpoints of a relation. -/
structure Store.Explains (s : Store) (data : Explain) (a : AssertionRow) (r : AssertionRevisionRow)
    (relation : Option RelationEndpoints) : Prop where
  assertion : a ∈ s.contents.assertions
  id : a.id = data.memoryId
  revision : r ∈ s.contents.revisionsOf a.id
  number : r.revision = data.revision.val
  typed : a.isRelation = true → relation ≠ none ∧ relation = s.endpoints? a.id r.revision
  untyped : a.isRelation = false → relation = none

/-- **What an answered explanation says** of a revision. -/
theorem outcome_explains : Outcome platform timeline (explain data)
    (fun x _ _ => ∀ a r relation evidence, x = .assertion a r relation evidence →
      σ.store.Explains data a r relation) (fun _ => True) n σ := by
  refine outcome_bind ((outcome_object _ _).mono (fun _ _ _ _ h => h) fun _ _ => trivial) ?_
  rintro obj m σ' - ⟨rfl, -⟩
  split
  next =>
    refine outcome_demand (fun _ => outcome_read (outcome_decode (fun _ =>
      outcome_pure fun a r relation evidence heq => ?_) fun _ => trivial)) fun _ => trivial
    cases heq
  next =>
    refine outcome_read (outcome_decode (fun _ => outcome_found (fun row hrow => ?_)
      fun _ => trivial) fun _ => trivial)
    obtain ⟨a, ha, hrest⟩ := Option.bind_eq_some_iff.mp hrow
    obtain ⟨r, hr, rfl⟩ := Option.map_eq_some_iff.mp hrest
    obtain ⟨haMem, haKey⟩ := Table.find?_eq_some_iff.mp (Option.filter_eq_some_iff.mp ha).1
    obtain ⟨hrMem, hrKey⟩ := Table.find?_eq_some_iff.mp (Option.filter_eq_some_iff.mp hr).1
    have haKey : a.id = data.memoryId := haKey
    obtain ⟨hrId, hrNumber⟩ := Prod.mk.inj hrKey
    have hof : r ∈ σ'.store.contents.revisionsOf a.id := ⟨hrMem, hrId.trans haKey.symm⟩
    dsimp only
    -- The endpoints are asked for at a relation only, and then have to be there.
    cases hrelation : a.isRelation with
    | false =>
      rw [if_neg Bool.false_ne_true]
      refine outcome_pure_bind (outcome_read (outcome_decode (fun _ => outcome_pure ?_)
        fun _ => trivial))
      rintro a' r' relation evidence heq
      cases heq
      exact ⟨haMem, haKey, hof, hrNumber, fun h => absurd (hrelation.symm.trans h)
        Bool.false_ne_true, fun _ => rfl⟩
    | true =>
      rw [if_pos rfl]
      refine outcome_read (outcome_found (fun ends hends => ?_) fun _ => trivial)
      have hstored := View.endpoints_stored hends
      refine outcome_pure_bind (outcome_read (outcome_decode (fun _ => outcome_pure ?_)
        fun _ => trivial))
      rintro a' r' relation evidence heq
      cases heq
      refine ⟨haMem, haKey, hof, hrNumber, fun _ => ⟨Option.some_ne_none _, ?_⟩, fun h =>
        absurd (h.symm.trans hrelation) Bool.false_ne_true⟩
      rw [haKey, hrNumber]
      exact hstored.symm

end Explain

/-- The items of an answered recall are reported. -/
theorem Call.reports {platform : Platform} {c : Call} {s : Store} {data : Recall} {r : RecallResult}
    (hrequest : c.request = .«recall» data) (h : (c.exec platform s).1 = .ok (.recalled r)) :
    ∀ item ∈ r.items, (Session.start c.principal s).Reports c.timeline data 1 item := by
  have hbody : c.request.body platform = respond .recalled (MemoryService.«recall» platform data) := by
    rw [hrequest]
    rfl
  exact Call.answered hbody (fun b heq => Response.recalled.inj heq) h (outcome_reports data 1 _)

end PgAgmemory

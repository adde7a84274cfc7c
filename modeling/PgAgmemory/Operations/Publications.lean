import PgAgmemory.History.Building
import PgAgmemory.Operations.Footprints

/-! # What a publication writes

Publishing a request makes one assertion of a free id, with one revision and one edge for each quoted
source (`Store.Records`), as `remember` does. -/

namespace PgAgmemory

open Keyed (HasKey Table key)
open Interactive (Program)
open Interactive.Program (ReadOnly Sends)
open MemoryService

/-- The first revision of a request, as a row that began at some time and is current. -/
def Remember.firstRevision (data : Remember) (id : UUID) (t : Time) : AssertionRevisionRow :=
  ⟨id, data.scopeId, 1, data.value, data.content.validTime, t, none, none⟩

/-- The edges of the first revision of a request. -/
def Remember.edges (data : Remember) (id : UUID) : List ProvenanceEdgeRow :=
  data.evidence.map fun e => ⟨id, 1, e.memoryId, data.scopeId, e.quote⟩

/-- **A request as recorded**: the assertion, its only revision, which is current, and exactly the
quotes of the request as its evidence. -/
structure Store.Records (s : Store) (id : UUID) (data : Remember) : Prop where
  assertion : (⟨id, data.scopeId, data.subject, data.predicate, false, 1⟩ : AssertionRow)
    ∈ s.contents.assertions
  revision : ∃ t, s.contents.revisions.rows.filter (·.assertionId = id) = [data.firstRevision id t]
  edges : s.contents.edges.rows.filter (·.childId = id) = (data.edges id).reverse

/-- Records are a matter of the contents. -/
theorem Store.Records.congr {s s' : Store} {id : UUID} {data : Remember} (h : s.Records id data)
    (hsame : s'.contents = s.contents) : s'.Records id data := by
  obtain ⟨hassertion, hrevision, hedges⟩ := h
  constructor <;> rw [hsame] <;> assumption

/-- A row put on a table belongs to the id in front of the others. -/
theorem filter_insert? {α κ : Type} [DecidableEq κ] [HasKey α κ] {t t' : Table α} {r : α}
    (h : t.insert? r = some t') (p : α → Bool) :
    t'.rows.filter p = (if p r then [r] else []) ++ t.rows.filter p := by
  rw [(Table.insert?_eq_some_iff.mp h).2, List.filter_cons]
  split <;> rfl

section Publishing

variable {platform : Platform} {timeline : Timeline} {n : Nat} {σ : Session}

/-- Contents without anything of an id. -/
def Vacant (c : Contents) (id : UUID) : Prop :=
  c.revisions.rows.filter (·.assertionId = id) = [] ∧ c.edges.rows.filter (·.childId = id) = []

/-- **A free id** has no revision and no evidence. -/
theorem vacant_of_fresh {s : Store} (hkeys : ForeignKeys s) {id : UUID} (hfresh : Fresh s id) :
    Vacant s.contents id := by
  constructor
  · refine List.filter_eq_nil_iff.mpr fun r hr hid => ?_
    obtain ⟨a, ha, hkey⟩ := hkeys.content.revision_assertion.exists_parent (Table.mem_rows.mp hr) rfl
    exact bare_of_fresh hkeys hfresh .assertion
      ⟨a, ha, (Prod.mk.inj hkey).1.trans (of_decide_eq_true hid)⟩
  · refine List.filter_eq_nil_iff.mpr fun r hr hid => ?_
    obtain ⟨a, ha, hkey⟩ := hkeys.content.edge_child.exists_parent (Table.mem_rows.mp hr) rfl
    exact bare_of_fresh hkeys hfresh .assertion
      ⟨a, ha, (Prod.mk.inj hkey).1.trans (of_decide_eq_true hid)⟩

/-- **A first revision** is put on the revisions, and changes nothing else. -/
theorem step_firstRevision {new : NewRevision} {m : Moment} {r : Returned} {σ' : Session}
    (hfirst : new.revision = 1)
    (hstep : step platform (.content (.insertRevision new)) m σ = .ok (r, σ')) :
    ∃ t, σ.store.contents.revisions.insert? (new.row m) = some t
      ∧ σ'.store.contents = { σ.store.contents with revisions := t } := by
  obtain ⟨c, ⟨-, t, c', ⟨hadopts, ht⟩, rfl⟩, hstore⟩ := Statement.accepted (step_eq_ok.mp hstep).2.1
  cases hadopts with
  | first _ _ _ => exact ⟨t, ht, congrArg Store.contents hstore⟩
  | next _ hlater _ _ _ _ => exact absurd hfirst hlater

/-- **Inserting a first revision** records its row and its evidence. -/
theorem outcome_firstRevision {id : UUID} (data : Remember) (hvacant : Vacant σ.store.contents id)
    (hassertion : (⟨id, data.scopeId, data.subject, data.predicate, false, 1⟩ : AssertionRow)
      ∈ σ.store.contents.assertions) :
    Outcome platform timeline (MemoryService.insertRevision platform id data.scopeId 1 data.content)
      (fun _ _ σ' => σ'.store.Records id data) (fun _ => True) n σ := by
  refine outcome_send (fun r σ₁ hstep => ?_) fun _ _ => trivial
  obtain ⟨t, ht, hcontents⟩ := step_firstRevision rfl hstep
  have hrevision : σ₁.store.contents.revisions.rows.filter (·.assertionId = id)
      = [data.firstRevision id ((timeline.moment n).clock 0)] := by
    rw [hcontents, filter_insert? ht, hvacant.1]
    exact congrArg (· ++ []) (if_pos (decide_eq_true rfl))
  have hedges : σ₁.store.contents.edges.rows.filter (·.childId = id) = [] := by
    rw [hcontents]
    exact hvacant.2
  have hassertion₁ : (⟨id, data.scopeId, data.subject, data.predicate, false, 1⟩ : AssertionRow)
      ∈ σ₁.store.contents.assertions := by
    rw [hcontents]
    exact hassertion
  -- every pass puts one edge in front of those before it
  refine outcome_bind (outcome_children (fun s => s.contents.edges.rows.filter (·.childId = id))
    (g := fun e : Evidence => (⟨id, 1, e.memoryId, data.scopeId, e.quote⟩ : ProvenanceEdgeRow))
    (I := fun σ => σ.store.contents.assertions = σ₁.store.contents.assertions
      ∧ σ.store.contents.revisions = σ₁.store.contents.revisions) ?_ ⟨rfl, rfl⟩)
    fun _ m σ₂ _ hpost => ?_
  · rintro e - m σ r σ' ⟨hassertions, hrevisions⟩ hstep
    obtain ⟨c, ⟨-, t, ht, rfl⟩, hstore⟩ := Statement.accepted (step_eq_ok.mp hstep).2.1
    rw [hstore]
    refine ⟨⟨hassertions, hrevisions⟩, ?_⟩
    show t.rows.filter _ = _
    rw [filter_insert? ht]
    exact congrArg (· ++ _) (if_pos (decide_eq_true rfl))
  · obtain ⟨⟨hassertions, hrevisions⟩, hlisted⟩ := hpost
    rw [hedges, List.append_nil] at hlisted
    have hrecords : σ₂.store.Records id data :=
      ⟨hassertions ▸ hassertion₁, ⟨_, hrevisions ▸ hrevision⟩, hlisted⟩
    refine outcome_read (outcome_found (fun identity _ => ?_) fun _ => trivial)
    refine outcome_bind (outcome_readOnly (readOnly_segment platform _) fun _ => trivial) ?_
    rintro segmented m σ₃ - rfl
    refine outcome_send_last (fun r σ' hstep => ?_) fun _ _ => trivial
    obtain ⟨c, ⟨-, t, ht, rfl⟩, hstore⟩ := Statement.accepted (step_eq_ok.mp hstep).2.1
    obtain ⟨hassertion, hrevision, hedges⟩ := hrecords
    rw [hstore]
    exact ⟨hassertion, hrevision, hedges⟩

/-- Writing in other areas leaves contents alone. -/
theorem Within.contents {areas : List Area} {st : Statement} {m : Moment} {r : Returned} {σ' : Session}
    (hst : Within areas st) (hcontent : .content ∉ areas) (hpurge : .purge ∉ areas)
    (hstep : step platform st m σ = .ok (r, σ')) : σ'.store.contents = σ.store.contents := by
  have hquiet := hst.quiet hpurge
  obtain ⟨-, hexec, -⟩ := step_eq_ok.mp hstep
  rcases (st.accepted hexec).contents_cases hquiet with hsame | ⟨st', rfl, -⟩
  · exact hsame
  · exact absurd hst hcontent

/-- What writes in other areas keeps what was recorded. -/
theorem outcome_contents {α : Type} {p : Tx α} {areas : List Area} {id : UUID} {data : Remember}
    (hp : Sends (Within areas) p) (hrecords : σ.store.Records id data)
    (hcontent : .content ∉ areas) (hpurge : .purge ∉ areas) :
    Outcome platform timeline p (fun _ _ σ' => σ'.store.Records id data) (fun _ => True) n σ :=
  hp.yields hrecords fun _ _ _ _ _ hst hrecords hstep =>
    hrecords.congr (hst.contents hcontent hpurge hstep)

/-- **A new object** takes a free id, and leaves the contents alone. -/
theorem outcome_newObject_fresh (scopeId : UUID) (kind : ObjectKind) :
    Outcome platform timeline (newObject scopeId kind)
      (fun id _ σ' => Fresh σ.store id ∧ σ'.store.contents = σ.store.contents) (fun _ => True) n σ := by
  refine outcome_drawUUID (outcome_send (fun r σ' hstep => outcome_pure ?_) fun _ _ => trivial)
  obtain ⟨-, t, ht, hstore⟩ := Statement.accepted (step_eq_ok.mp hstep).2.1
  refine ⟨(Table.insert?_eq_some_iff.mp ht).1, ?_⟩
  rw [hstore]
  rfl

/-- **Publishing a request** records it under a free id. -/
theorem outcome_publishAssertion (data : Remember) (hkeys : ForeignKeys σ.store) :
    Outcome platform timeline (publishAssertion platform data)
      (fun receipt _ σ' => ∃ id, receipt = .assertion id 1 ∧ Fresh σ.store id ∧ σ'.store.Records id data)
      (fun _ => True) n σ := by
  unfold publishAssertion
  refine outcome_bind (outcome_readOnly (readOnly_scope _ _) fun _ => trivial) ?_
  rintro - m σ₁ - rfl
  refine outcome_bind (outcome_readOnly (readOnly_validateEvidence _ _) fun _ => trivial) ?_
  rintro - m σ₁ - rfl
  refine outcome_bind (outcome_newObject_fresh _ _) fun id m σ₂ _ hnew => ?_
  obtain ⟨hfresh, hcontents⟩ := hnew
  have hvacant : Vacant σ₁.store.contents id := vacant_of_fresh hkeys hfresh
  refine outcome_send (fun r σ₃ hstep => ?_) fun _ _ => trivial
  obtain ⟨c, ⟨-, t, ht, rfl⟩, hstore⟩ := Statement.accepted (step_eq_ok.mp hstep).2.1
  have hcontents₃ : σ₃.store.contents = { σ₁.store.contents with assertions := t } := by
    rw [hstore]
    exact congrArg (fun c : Contents => { c with assertions := t }) hcontents
  refine outcome_bind (outcome_firstRevision data ?_ ?_) fun _ m σ₄ _ hrecords => ?_
  · rw [hcontents₃]
    exact hvacant
  · rw [hcontents₃]
    exact Table.mem_insert?_self ht
  refine outcome_bind (outcome_contents (sends_audited _ _) hrecords (by decide) (by decide)) fun _ m σ₅ _ hrecords => outcome_pure ?_
  exact ⟨id, rfl, hfresh, hrecords⟩

end Publishing

end PgAgmemory

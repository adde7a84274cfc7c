import PgAgmemory.History.Building

/-! # Every operation keeps a store intact

The operations on episodes, assertions and relations, the captures and publications made of them, and
with them every request but `forget` (`Request.keeps`). -/

namespace PgAgmemory

open Keyed (HasKey Table key)
open Interactive (Program)
open Interactive.Program (ReadOnly Sends)
open MemoryService

section Operations

variable {platform : Platform} {timeline : Timeline} {n : Nat} {σ : Session}

/-! ## Episodes -/

/-- **A new episode** is its row. -/
theorem Kept.recordEvent (h : Kept platform σ) (data : Observe) (requestDigest : Digest) :
    Keeps platform timeline (MemoryService.recordEvent platform data requestDigest) n σ := by
  refine outcome_digest (outcome_read ?_)
  split
  · exact h.keeps (((readOnly_demand _ _).bind fun _ => (readOnly_object _ _).bind fun _ =>
      readOnly_pure _).sends)
  refine h.newObject fun id m σ₁ hbuilding _ _ => outcome_send (fun r σ₂ hstep => ?_) fun _ _ => trivial
  have hbuilding₂ : Building platform id .episode σ₂ := hbuilding.step rfl (Or.inr rfl) hstep
  obtain ⟨c, ⟨-, t, ht, rfl⟩, hstore⟩ := Statement.accepted (step_eq_ok.mp hstep).2.1
  have hrow : HasRow σ₂.store id .episode := by
    rw [hstore]
    exact ⟨_, Table.mem_insert?_self ht, rfl⟩
  have hkept : Kept platform σ₂ :=
    hbuilding₂.finish hrow (by simp) (by simp) (by simp) (by simp) (by simp)
  exact hkept.keeps ((readOnly_segment platform _).sends.bind fun _ => (sends_send ⟨rfl, rfl⟩).bind
    fun _ => (sends_send ⟨rfl, rfl⟩).bind fun _ => (sends_send ⟨rfl, rfl⟩).bind fun _ => trivial)

theorem Kept.observe (h : Kept platform σ) (data : Observe) (key : String) :
    Keeps platform timeline (MemoryService.observe platform data key) n σ :=
  h.reading (readOnly_scope _ _) fun _ _ h => h.once (fun _ => readOnly_pure _) fun _ rd _ =>
    keeps_bind (h.recordEvent data rd) fun _ _ _ h' =>
      h'.keeps ((sends_send ⟨rfl, rfl⟩).bind fun _ => trivial)

/-! ## Assertions -/

/-- A plain assertion is no relation. -/
def Plain (s : Store) (id : UUID) : Prop :=
  ∀ a ∈ s.contents.assertions, a.id = id → a.isRelation = false

/-- **A revision of a plain assertion** needs no target. -/
theorem Kept.plainRevision (h : Kept platform σ) {new : NewRevision} {m : Moment} {r : Returned}
    {σ' : Session} (hplain : Plain σ.store new.assertionId)
    (hstep : PgAgmemory.step platform (.content (.insertRevision new)) m σ = .ok (r, σ')) :
    Kept platform σ' := by
  have haccepted := Statement.accepted (step_eq_ok.mp hstep).2.1
  refine ⟨(step_eq_ok.mp hstep).2.2.1.1, fun id => ?_⟩
  by_cases hid : id = new.assertionId
  · have hwhole := h.intact id
    have hrow : ∀ o ∈ σ.store.anchor.objects, o.id = id → Untombstoned σ.store id →
        HasRow σ'.store id o.kind := fun o ho hoid hlive =>
      (hwhole.row o ho hoid hlive).statement rfl haccepted
    obtain ⟨c, ⟨-, t, c', ⟨hadopts, -⟩, rfl⟩, hstore⟩ := haccepted
    rw [hstore] at hrow ⊢
    refine { hwhole with row := hrow, relation := fun a ha haid hrelation => ?_ }
    obtain ⟨a', ha', hid', hrelation'⟩ := hadopts.rows.1 a ha
    rw [← hrelation', hplain a' ha' (hid'.trans (haid.trans hid))] at hrelation
    cases hrelation
  · exact (h.intact id).statement rfl haccepted fun hbuilds => hid (Option.some.inj hbuilds).symm

/-- What follows the statement of a revision builds nothing. -/
theorem buildsNothing_rest (objectId scopeId : UUID) (revision : Nat) (data : RevisionContent) :
    Sends BuildsNothing (do
      forEach data.evidence fun evidence =>
        send (.content (.insertEdge ⟨objectId, revision, evidence.memoryId, scopeId, evidence.quote⟩))
      let identity ← read fun v => v.assertion? objectId
      let identity ← found identity .notFound
      let segmented ← segment platform
        (identity.subject.str ++ " " ++ identity.predicate.str ++ " " ++ data.value.str)
      send (.content (.insertAssertionLexical ⟨objectId, revision, scopeId, [segmented]⟩))) :=
  (sends_forEach fun _ _ => sends_send ⟨rfl, rfl⟩).bind fun _ => (readOnly_read _).sends.bind fun _ =>
    (readOnly_found _ _).sends.bind fun _ => (readOnly_segment platform _).sends.bind fun _ =>
      sends_send ⟨rfl, rfl⟩

theorem Kept.insertRevision (h : Kept platform σ) {objectId : UUID} (hplain : Plain σ.store objectId)
    (scopeId : UUID) (revision : Nat) (data : RevisionContent) :
    Keeps platform timeline (MemoryService.insertRevision platform objectId scopeId revision data)
      n σ :=
  outcome_send (fun _ _ hstep => (h.plainRevision hplain hstep).keeps
    (buildsNothing_rest objectId scopeId revision data)) fun _ _ => trivial

/-- **A new assertion** is its row. -/
theorem Kept.publishAssertion (h : Kept platform σ) (data : Remember) :
    Keeps platform timeline (MemoryService.publishAssertion platform data) n σ := by
  refine h.reading (readOnly_scope _ _) fun _ _ h => h.reading (readOnly_validateEvidence _ _)
    fun _ _ h => h.newObject fun id m σ₁ hbuilding hbare _ => ?_
  refine outcome_send (fun r σ₂ hstep => ?_) fun _ _ => trivial
  have hbuilding₂ : Building platform id .assertion σ₂ := hbuilding.step rfl (Or.inr rfl) hstep
  obtain ⟨c, ⟨-, t, ht, rfl⟩, hstore⟩ := Statement.accepted (step_eq_ok.mp hstep).2.1
  have hplain : Plain σ₂.store id := by
    rw [hstore]
    intro a ha hid
    rw [Table.eq_of_key_eq ha (Table.mem_insert?_self ht) hid]
  have hrow : HasRow σ₂.store id .assertion := by
    rw [hstore]
    exact ⟨_, Table.mem_insert?_self ht, rfl⟩
  have hkept : Kept platform σ₂ := by
    refine hbuilding₂.finish hrow (by simp) (by simp) (by simp) (by simp) fun _ a ha hid hrelation => ?_
    rw [hplain a ha hid] at hrelation
    cases hrelation
  exact keeps_bind (hkept.insertRevision hplain _ _ _) fun _ _ _ h' =>
    h'.keeps ((sends_send ⟨rfl, rfl⟩).bind fun _ => trivial)

theorem Kept.remember (h : Kept platform σ) (data : Remember) (key : String) :
    Keeps platform timeline (MemoryService.remember platform data key) n σ :=
  h.reading (readOnly_scope _ _) fun _ _ h => h.once (fun _ => readOnly_pure _) fun _ _ _ =>
    keeps_bind (h.publishAssertion data) fun _ _ _ h' =>
      h'.keeps ((sends_send ⟨rfl, rfl⟩).bind fun _ => trivial)

/-- The assertion that a lookup finds is the only one of its id. -/
theorem View.assertion?_unique {v : View} {id : UUID} {p : AssertionRow → Bool} {head a : AssertionRow}
    (h : (v.assertion? id).filter p = some head) (ha : a ∈ v.store.contents.assertions)
    (hid : a.id = id) : a = head := by
  obtain ⟨hfound, -⟩ := Option.filter_eq_some_iff.mp (Option.filter_eq_some_iff.mp h).1
  obtain ⟨hhead, hkey⟩ := Table.find?_eq_some_iff.mp hfound
  exact Table.eq_of_key_eq ha hhead (hid.trans hkey.symm)

theorem Kept.reviseAssertion (h : Kept platform σ) (objectId : UUID) (data : ReviseAssertion)
    (key : String) :
    Keeps platform timeline (MemoryService.reviseAssertion platform objectId data key) n σ := by
  refine h.reading (readOnly_object _ _) fun obj _ h => h.reading (readOnly_demand _ _) fun _ _ h =>
    h.once (fun _ => readOnly_pure _) fun kd rd m => ?_
  refine outcome_read (outcome_found (fun head hhead => outcome_demand (fun hrelation => ?_)
    fun _ => trivial) fun _ => trivial)
  refine outcome_demand (fun _ => outcome_demand (fun _ => ?_) fun _ => trivial) fun _ => trivial
  refine h.reading (readOnly_validateEvidence _ _) fun _ _ h => ?_
  have hplain : Plain σ.store objectId := by
    intro a ha hid
    obtain rfl := View.assertion?_unique hhead ha hid
    exact Bool.not_eq_true' _ |>.mp hrelation
  exact keeps_bind (h.insertRevision hplain _ _ _) fun _ _ _ h' =>
    h'.keeps ((sends_send ⟨rfl, rfl⟩).bind fun _ => (sends_send ⟨rfl, rfl⟩).bind fun _ => trivial)

/-! ## Relations -/

/-- The source of a relation, and the targets of its revisions but one. -/
structure TargetedBut (s : Store) (id : UUID) (skipped : Option Nat) : Prop where
  source : ∃ l ∈ s.graph.relations, l.id = id
  targets : ∀ r ∈ s.contents.revisions, r.assertionId = id → some r.revision ≠ skipped →
    ∃ t ∈ s.graph.targets, key t = key r

/-- What builds nothing leaves assertions, revisions and the graph alone. -/
theorem BuildsNothing.unrelated {st : Statement} {m : Moment} {r : Returned} {σ' : Session}
    (hst : BuildsNothing st) (hstep : step platform st m σ = .ok (r, σ')) :
    σ'.store.contents.assertions = σ.store.contents.assertions
      ∧ σ'.store.contents.revisions = σ.store.contents.revisions
      ∧ σ'.store.graph = σ.store.graph := by
  obtain ⟨hquiet, hnone⟩ := hst
  have haccepted := Statement.accepted (step_eq_ok.mp hstep).2.1
  have hgraph : σ'.store.graph = σ.store.graph := by
    rcases (haccepted.inArea hquiet).graph with hsame | ⟨st', rfl⟩
    · exact hsame
    · cases st' <;> cases hnone
  rcases haccepted.contents_cases hquiet with hsame | ⟨st', rfl, hcontents⟩
  · exact ⟨congrArg _ hsame, congrArg _ hsame, hgraph⟩
  generalize σ'.store.contents = c at hcontents ⊢
  cases st' with
  | insertEpisode row => cases hnone
  | insertAssertion id scope subject predicate isRelation => cases hnone
  | insertRevision new => cases hnone
  | _ =>
    obtain ⟨-, t, -, rfl⟩ := hcontents
    exact ⟨rfl, rfl, hgraph⟩

/-- **The rest of a relation revision**: its evidence, its projection and its target. -/
theorem Building.finishRelation {id scopeId target : UUID} {revision : Nat} {data : RevisionContent}
    {kind : ObjectKind} {α : Type} {k : Unit → Tx α} (h : Building platform id kind σ)
    (hkind : kind = .assertion) (hrow : HasRow σ.store id .assertion)
    (htargeted : TargetedBut σ.store id none)
    (hk : ∀ u m σ', Kept platform σ' → Keeps platform timeline (k u) m σ') :
    Keeps platform timeline (MemoryService.insertRevision platform id scopeId revision data >>=
      fun _ => SqlGraph.insertTarget id scopeId revision target >>= k) n σ := by
  subst hkind
  have hrevision : Outcome platform timeline
      (MemoryService.insertRevision platform id scopeId revision data)
      (fun _ _ σ' => Building platform id .assertion σ' ∧ HasRow σ'.store id .assertion
        ∧ TargetedBut σ'.store id (some revision)) (fun _ => True) n σ := by
    refine outcome_send (fun r σ₁ hstep => ?_) fun _ _ => trivial
    have haccepted := Statement.accepted (step_eq_ok.mp hstep).2.1
    have hstart : Building platform id .assertion σ₁ ∧ HasRow σ₁.store id .assertion
        ∧ TargetedBut σ₁.store id (some revision) := by
      refine ⟨h.step rfl (Or.inr rfl) hstep, hrow.statement rfl haccepted, ?_⟩
      obtain ⟨c, ⟨-, t, c', ⟨hadopts, ht⟩, rfl⟩, hstore⟩ := haccepted
      rw [hstore]
      refine ⟨htargeted.source, fun r hr hof hskip => ?_⟩
      rcases (Table.mem_insert? ht).mp hr with rfl | hold
      · exact absurd rfl hskip
      · obtain ⟨r', hr', hkey⟩ := hadopts.rows.2 r hold
        obtain ⟨t', ht', hkey'⟩ := htargeted.targets r' hr' ((Prod.mk.inj hkey).1.trans hof)
          (Option.some_ne_none _)
        exact ⟨t', ht', hkey'.trans hkey⟩
    exact Sends.yields (I := fun σ' => Building platform id .assertion σ'
      ∧ HasRow σ'.store id .assertion ∧ TargetedBut σ'.store id (some revision))
      (buildsNothing_rest id scopeId revision data) hstart fun st m σ r σ' hst hI hstep => by
        obtain ⟨hb, hrow, hsource, htargets⟩ := hI
        obtain ⟨hassertions, hrevisions, hgraph⟩ := hst.unrelated hstep
        refine ⟨hb.step hst.1 (Or.inl hst.2) hstep,
          hrow.statement hst.1 (Statement.accepted (step_eq_ok.mp hstep).2.1), ?_, ?_⟩
        · exact hgraph ▸ hsource
        · exact hgraph ▸ hrevisions ▸ htargets
  refine outcome_bind hrevision fun _ m σ₁ _ ⟨hb, hrow₁, hsource, htargets⟩ => ?_
  refine outcome_send (fun r σ₂ hstep => hk _ _ σ₂ ?_) fun _ _ => trivial
  have hb₂ : Building platform id .assertion σ₂ := hb.step rfl (Or.inr rfl) hstep
  have hrow₂ := hrow₁.statement rfl (Statement.accepted (step_eq_ok.mp hstep).2.1)
  refine hb₂.finish hrow₂ (by simp) (by simp) (by simp) (by simp) fun _ a ha hid hrelation => ?_
  obtain ⟨g, ⟨-, t, ht, rfl⟩, hstore⟩ := Statement.accepted (step_eq_ok.mp hstep).2.1
  rw [hstore]
  refine ⟨hsource, fun r hr hof => ?_⟩
  by_cases hskip : r.revision = revision
  · exact ⟨_, Table.mem_insert?_self ht, Prod.ext hof.symm hskip.symm⟩
  · obtain ⟨t', ht', hkey⟩ := htargets r hr hof fun heq => hskip (Option.some.inj heq)
    exact ⟨t', (Table.mem_insert? ht).mpr (Or.inr ht'), hkey⟩

theorem Kept.createRelation (h : Kept platform σ) (data : CreateRelation) (key : String) :
    Keeps platform timeline (SqlGraph.createRelation platform data key) n σ := by
  refine h.reading (readOnly_scope _ _) fun _ _ h => h.once (fun _ => readOnly_pure _) fun kd rd m => ?_
  refine h.reading (readOnly_endpoint _ _) fun source _ h => h.reading (readOnly_endpoint _ _)
    fun target _ h => h.reading (readOnly_validateEvidence _ _) fun _ _ h =>
      h.newObject fun id m σ₁ hbuilding hbare _ => ?_
  refine outcome_send (fun r σ₂ hstep => outcome_send (fun r σ₃ hstep' => ?_) fun _ _ => trivial)
    fun _ _ => trivial
  have hb₂ : Building platform id .assertion σ₂ := hbuilding.step rfl (Or.inr rfl) hstep
  have hb₃ : Building platform id .assertion σ₃ := hb₂.step rfl (Or.inr rfl) hstep'
  have hrow₂ : HasRow σ₂.store id .assertion := by
    obtain ⟨c, ⟨-, t, ht, rfl⟩, hstore⟩ := Statement.accepted (step_eq_ok.mp hstep).2.1
    rw [hstore]
    exact ⟨_, Table.mem_insert?_self ht, rfl⟩
  have hrow₃ := hrow₂.statement rfl (Statement.accepted (step_eq_ok.mp hstep').2.1)
  refine hb₃.finishRelation rfl hrow₃ ⟨?_, fun r hr hof _ => ?_⟩ ?_
  · obtain ⟨g, ⟨-, t, ht, rfl⟩, hstore⟩ := Statement.accepted (step_eq_ok.mp hstep').2.1
    rw [hstore]
    exact ⟨_, Table.mem_insert?_self ht, rfl⟩
  · -- a new assertion has no revisions
    obtain ⟨c, ⟨-, t, ht, rfl⟩, hstore⟩ := Statement.accepted (step_eq_ok.mp hstep).2.1
    obtain ⟨g, -, hstore'⟩ := Statement.accepted (step_eq_ok.mp hstep').2.1
    rw [hstore', Session.view, hstore] at hr
    obtain ⟨a, ha, hkey⟩ := hbuilding.foreign.content.revision_assertion.exists_parent hr rfl
    exact absurd ⟨a, ha, (Prod.mk.inj hkey).1.trans hof⟩ (hbare .assertion)
  · exact fun _ _ _ h' => h'.keeps ((sends_send ⟨rfl, rfl⟩).bind fun _ =>
      (sends_send ⟨rfl, rfl⟩).bind fun _ => trivial)

theorem Kept.reviseRelation (h : Kept platform σ) (assertionId : UUID) (data : ReviseRelation)
    (key : String) :
    Keeps platform timeline (SqlGraph.reviseRelation platform assertionId data key) n σ := by
  refine h.reading (readOnly_object _ _) fun obj _ h =>
    outcome_read (outcome_found (fun head hhead => ?_) fun _ => trivial)
  refine h.once (fun _ => readOnly_pure _) fun kd rd m => ?_
  refine outcome_demand (fun _ => outcome_demand (fun _ => ?_) fun _ => trivial) fun _ => trivial
  refine h.reading (readOnly_endpoint _ _) fun target _ h =>
    h.reading (readOnly_validateEvidence _ _) fun _ m h => ?_
  obtain ⟨hfound, hrelation⟩ := Option.filter_eq_some_iff.mp hhead
  obtain ⟨hmem, hid⟩ := Table.find?_eq_some_iff.mp (Option.filter_eq_some_iff.mp hfound).1
  rw [Bool.and_eq_true, Bool.and_eq_true] at hrelation
  obtain ⟨o, ho, hkey⟩ := h.foreign.content.assertion_object.exists_parent hmem rfl
  obtain ⟨hoid, hrest⟩ := Prod.mk.inj hkey
  have hbuilding : Building platform assertionId .assertion σ :=
    ⟨h.foreign, fun id _ => h.intact id, o, ho, hoid.trans hid, (Prod.mk.inj hrest).2⟩
  obtain ⟨hsource, htargets⟩ := (h.intact assertionId).relation head hmem hid hrelation.1.1
  dsimp only
  refine hbuilding.finishRelation rfl ⟨head, hmem, hid⟩
    ⟨hsource, fun r hr hof _ => htargets r hr hof⟩ ?_
  exact fun _ _ _ h' => h'.keeps ((sends_send ⟨rfl, rfl⟩).bind fun _ =>
    (sends_send ⟨rfl, rfl⟩).bind fun _ => trivial)

/-! ## Publications, captures and embeddings -/

theorem Kept.publish (h : Kept platform σ) (jobId token : UUID) (prepared : Remember) :
    Keeps platform timeline (Jobs.publish platform jobId token prepared) n σ := by
  refine h.reading (readOnly_lease _ _ _) fun row _ h => h.reading (readOnly_demand _ _)
    fun _ _ h => keeps_bind (h.publishAssertion prepared) fun result m σ' h' => h'.keeps ?_
  exact (readOnly_found _ _).sends.bind fun _ => (buildsNothing_update _ _).bind fun _ =>
    (readOnly_demand _ _).sends.bind fun _ => (sends_send ⟨rfl, rfl⟩).bind fun _ => trivial

theorem Kept.observeEpisode (h : Kept platform σ) (data : Observe) (key : String) :
    Keeps platform timeline (Captures.observeEpisode platform data key) n σ := by
  refine keeps_bind (h.observe data key) fun receipt m σ' h' => ?_
  split
  · exact h'
  · exact outcome_raise trivial

theorem Kept.enqueueMemory (h : Kept platform σ) (scopeId episode : UUID) (memory : CapturedMemory)
    (key : String) :
    Keeps platform timeline (Captures.enqueueMemory platform scopeId episode memory key) n σ := by
  refine keeps_bind (h.enqueue _ key none) fun receipt m σ' h' => ?_
  split
  · exact h'
  · exact outcome_raise trivial

theorem Kept.capture (h : Kept platform σ) (data : Capture) (key : String) :
    Keeps platform timeline (Captures.create platform data key) n σ := by
  refine h.reading (readOnly_scope _ _) fun _ _ h => h.once (fun _ => readOnly_pure _) fun kd rd m => ?_
  refine keeps_bind (h.observeEpisode data.episode _) fun episode _ _ h₁ =>
    keeps_bind (h₁.enqueueMemory _ episode data.memory _) fun job _ _ h₂ => h₂.keeps ?_
  exact (sends_send ⟨rfl, rfl⟩).bind fun _ => (sends_send ⟨rfl, rfl⟩).bind fun _ => trivial

theorem Kept.captureBatch (h : Kept platform σ) (data : CaptureBatch) (key : String) :
    Keeps platform timeline (Captures.createBatch platform data key) n σ := by
  refine h.reading (readOnly_scope _ _) fun _ _ h => h.once (fun _ => readOnly_pure _) fun kd rd m => ?_
  refine keeps_bind (h.observeEpisode data.episode _) fun episode _ _ h₁ => ?_
  refine keeps_bind (keeps_forCollect h₁ fun memory _ _ h' => h'.enqueueMemory _ episode memory.1 _)
    fun jobs _ _ h₂ => h₂.keeps ?_
  exact (sends_send ⟨rfl, rfl⟩).bind fun _ => (sends_send ⟨rfl, rfl⟩).bind fun _ => trivial

theorem Kept.put (h : Kept platform σ) (data : PutEmbedding) (key : String) :
    Keeps platform timeline (Embeddings.put platform data key) n σ := by
  refine h.reading (readOnly_source _ _) fun found _ h => h.reading (readOnly_demand _ _) fun _ _ h =>
    h.once (fun _ => readOnly_embeddingReplayed platform _ data) fun kd rd m => h.keeps ?_
  refine (readOnly_read _).sends.bind fun existing => ?_
  split
  · exact (readOnly_demand _ _).sends.bind fun _ => (sends_send ⟨rfl, rfl⟩).bind fun _ => trivial
  · refine (readOnly_read _).sends.bind fun _ => (readOnly_demand _ _).sends.bind fun _ => ?_
    refine (sends_send ?_).bind fun _ => (sends_send ⟨rfl, rfl⟩).bind fun _ =>
      (sends_send ⟨rfl, rfl⟩).bind fun _ => trivial
    unfold Embeddings.insertEmbedding
    split <;> exact ⟨rfl, rfl⟩

end Operations

/-! ## Requests -/

/-- **Every request but `forget` keeps a store intact.** -/
theorem Request.keeps {platform : Platform} {timeline : Timeline} {n : Nat} {σ : Session}
    {request : Request} (hdeletes : request.deletes = false) (h : Kept platform σ) :
    Keeps platform timeline (request.program platform) n σ := by
  refine h.reading readOnly_bindIdentity fun _ m h => ?_
  have hwrap : ∀ {α : Type} {wrap : α → Response} {p : Tx α}, Keeps platform timeline p m σ →
      Keeps platform timeline (respond wrap p) m σ := fun hp => keeps_bind hp fun _ _ _ h' => h'
  have hread : ∀ {α : Type} {wrap : α → Response} {p : Tx α}, ReadOnly p →
      Keeps platform timeline (respond wrap p) m σ := fun hp => hwrap (h.keeps hp.sends)
  cases request with
  | observe data key => exact hwrap (h.observe data key)
  | remember data key => exact hwrap (h.remember data key)
  | reviseAssertion objectId data key => exact hwrap (h.reviseAssertion objectId data key)
  | capture data key => exact hwrap (h.capture data key)
  | captureBatch data key => exact hwrap (h.captureBatch data key)
  | createEntity data key => exact hwrap (h.createEntity data key)
  | createRelation data key => exact hwrap (h.createRelation data key)
  | reviseRelation assertionId data key => exact hwrap (h.reviseRelation assertionId data key)
  | enqueue data key retryOf => exact hwrap (h.enqueue data key retryOf)
  | cancel jobId data key => exact hwrap (h.cancel jobId data key)
  | createCheckpoint data key => exact hwrap (h.createCheckpoint data key)
  | restoreCheckpoint data key => exact hwrap (h.restore data key)
  | plan data key => exact hwrap (h.plan data key)
  | transition effectId data key => exact hwrap (h.transition effectId data key)
  | putEmbedding data key => exact hwrap (h.put data key)
  | forget data key => cases hdeletes
  | «recall» data => exact hread (readOnly_recall platform data)
  | explain data => exact hread (readOnly_explain data)
  | entity entityId => exact hread (readOnly_entity entityId)
  | expand data => exact hread (readOnly_expand data)
  | checkpoint checkpointId => exact hread (readOnly_envelope platform checkpointId)
  | checkpointHead data => exact hread (readOnly_head platform data)
  | job jobId => exact hread (readOnly_jobGet jobId)
  | effect effectId => exact hread (readOnly_effectGet effectId)
  | query query => exact hread (readOnly_query platform query)
  | claim leaseSeconds => exact hwrap (h.claim leaseSeconds)
  | heartbeat jobId token => exact hwrap (h.heartbeat jobId token)
  | publish jobId token prepared => exact hwrap (h.publish jobId token prepared)
  | fail jobId token code retry => exact hwrap (h.fail jobId token code retry)

end PgAgmemory

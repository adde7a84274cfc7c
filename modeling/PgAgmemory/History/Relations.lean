import PgAgmemory.History.Maintained
import PgAgmemory.Recalling.Candidates

/-! # Relations are named after their entities

A typed relation is kept twice: as an assertion with texts, and as links to entities. Its subject is the
label of its source, and the value of each revision is the label of that revision's target (`Named`): the
operations on relations copy the labels, entities keep theirs, and no other operation writes links
(`Linkless`). -/

namespace PgAgmemory

open Keyed (HasKey Table key)
open Interactive (Program)
open Interactive.Program (ReadOnly Sends)
open MemoryService

/-! ## Names -/

/-- The predicate of a relation type is a relation predicate. -/
theorem RelationType.mem_relationPredicates (type : RelationType) :
    type.predicate ∈ relationPredicates := by
  refine List.mem_map_of_mem ?_
  cases type <;> simp

/-- A relation has the label of its source as subject and a relation predicate. -/
def Store.SourceNamed (s : Store) (l : RelationRow) : Prop :=
  ∃ e ∈ s.graph.entities, e.id = l.sourceId ∧ ∀ a ∈ s.contents.assertions, a.id = l.id →
    a.subject.str = e.canonicalLabel.str ∧ a.predicate ∈ relationPredicates

/-- A revision of a relation has the label of its target as value. -/
def Store.TargetNamed (s : Store) (t : RelationRevisionRow) : Prop :=
  ∃ e ∈ s.graph.entities, e.id = t.targetId ∧ ∀ r ∈ s.contents.revisions, key r = key t →
    r.value.str = e.canonicalLabel.str

/-- **Relations are named after their entities.** -/
structure Named (s : Store) : Prop where
  sources : ∀ l ∈ s.graph.relations, s.SourceNamed l
  targets : ∀ t ∈ s.graph.targets, s.TargetNamed t

/-- What a new link is named after. -/
def Names (s : Store) : Statement → Prop
  | .graph (.insertRelation l) => s.SourceNamed l
  | .graph (.insertTarget t) => s.TargetNamed t
  | st => st.quiet = true

/-- **A statement without links** writes no source and no target of a relation. -/
def Linkless : Statement → Prop
  | .graph (.insertRelation _) => False
  | .graph (.insertTarget _) => False
  | st => st.quiet = true

section Statements

variable {platform : Platform} {timeline : Timeline} {n : Nat} {σ σ' : Session} {st : Statement}
  {m : Moment} {r : Returned}

theorem Names.quiet {s : Store} (h : Names s st) : st.quiet = true := by
  cases st with
  | graph st => rfl
  | _ => exact h

theorem Linkless.names (h : Linkless st) (s : Store) : Names s st := by
  cases st with
  | graph st =>
    cases st with
    | insertRelation l => exact h.elim
    | insertTarget t => exact h.elim
    | _ => rfl
  | _ => exact h

/-- Links are left alone. -/
theorem Linkless.links (h : Linkless st) (hstep : step platform st m σ = .ok (r, σ')) :
    σ'.store.graph.relations = σ.store.graph.relations
      ∧ σ'.store.graph.targets = σ.store.graph.targets := by
  rcases (Statement.accepted (step_eq_ok.mp hstep).2.1).graph_cases (h.names σ.store).quiet with
    hsame | ⟨st', rfl, hgraph⟩
  · exact ⟨congrArg _ hsame, congrArg _ hsame⟩
  generalize σ'.store.graph = g at hgraph ⊢
  cases st' with
  | insertRelation l => exact h.elim
  | insertTarget t => exact h.elim
  | _ =>
    obtain ⟨-, t, -, rfl⟩ := hgraph
    exact ⟨rfl, rfl⟩

/-- Entities stay. -/
theorem Statement.Accepted.entities {v : View} {s : Store} (hquiet : st.quiet = true)
    (h : st.Accepted v m s) {e : EntityRow} (he : e ∈ v.store.graph.entities) :
    e ∈ s.graph.entities := by
  rcases h.graph_cases hquiet with hsame | ⟨st', -, hgraph⟩
  · exact hsame ▸ he
  generalize s.graph = g at hgraph ⊢
  cases st' with
  | insertEntity row =>
    obtain ⟨-, t, ht, rfl⟩ := hgraph
    exact (Table.mem_insert? ht).mpr (Or.inr he)
  | _ =>
    obtain ⟨-, t, -, rfl⟩ := hgraph
    exact he

/-- **The texts of a relation stay**: its assertion is there already, and is not changed. -/
theorem Store.SourceNamed.step {l : RelationRow} (hkeys : ForeignKeys σ.store)
    (hl : l ∈ σ.store.graph.relations) (hquiet : st.quiet = true) (h : σ.store.SourceNamed l)
    (hstep : step platform st m σ = .ok (r, σ')) : σ'.store.SourceNamed l := by
  have haccepted := Statement.accepted (step_eq_ok.mp hstep).2.1
  obtain ⟨e, he, hid, hnamed⟩ := h
  refine ⟨e, haccepted.entities hquiet he, hid, fun a ha haid => ?_⟩
  rcases haccepted.contents_cases hquiet with hsame | ⟨st', rfl, hcontents⟩
  · exact hnamed a (hsame ▸ ha) haid
  generalize σ'.store.contents = c at hcontents ha
  cases st' with
  | insertAssertion id scope subject predicate isRelation =>
    obtain ⟨-, t, ht, rfl⟩ := hcontents
    rcases (Table.mem_insert? ht).mp ha with rfl | hold
    · obtain ⟨b, hb, hkey⟩ := hkeys.graph.relation_assertion.exists_parent hl rfl
      exact absurd ((Prod.mk.inj hkey).1.trans haid.symm) ((Table.insert?_eq_some_iff.mp ht).1 b hb)
    · exact hnamed a hold haid
  | insertRevision new =>
    obtain ⟨-, t, c', ⟨hadopts, -⟩, rfl⟩ := hcontents
    obtain ⟨a', ha', head, rfl⟩ := hadopts.kept.2.1 a ha
    exact hnamed a' ha' haid
  | _ =>
    obtain ⟨-, t, -, rfl⟩ := hcontents
    exact hnamed a ha haid

/-- **The value of a revision of a relation stays.** -/
theorem Store.TargetNamed.step {t : RelationRevisionRow} (hkeys : ForeignKeys σ.store)
    (ht : t ∈ σ.store.graph.targets) (hquiet : st.quiet = true) (h : σ.store.TargetNamed t)
    (hstep : step platform st m σ = .ok (r, σ')) : σ'.store.TargetNamed t := by
  have haccepted := Statement.accepted (step_eq_ok.mp hstep).2.1
  obtain ⟨e, he, hid, hnamed⟩ := h
  refine ⟨e, haccepted.entities hquiet he, hid, fun x hx hkey => ?_⟩
  rcases haccepted.contents_cases hquiet with hsame | ⟨st', rfl, hcontents⟩
  · exact hnamed x (hsame ▸ hx) hkey
  generalize σ'.store.contents = c at hcontents hx
  cases st' with
  | insertRevision new =>
    obtain ⟨-, u, c', ⟨hadopts, hu⟩, rfl⟩ := hcontents
    rcases (Table.mem_insert? hu).mp hx with rfl | hold
    · obtain ⟨old, hold, hoid⟩ := hkeys.graph.target_revision.exists_parent ht rfl
      obtain ⟨old', hold', hkey'⟩ := hadopts.keys hold
      obtain ⟨hid', hrest⟩ := Prod.mk.inj hoid
      refine absurd ?_ ((Table.insert?_eq_some_iff.mp hu).1 old' hold')
      exact hkey'.trans ((Prod.ext hid' (Prod.mk.inj hrest).1).trans hkey.symm)
    · obtain ⟨x', hx', closed, rfl⟩ := hadopts.kept.2.2 x hold
      exact hnamed x' hx' hkey
  | _ =>
    obtain ⟨-, u, -, rfl⟩ := hcontents
    exact hnamed x hx hkey

/-- A statement on the graph leaves contents alone. -/
theorem Statement.Accepted.contents_graph {v : View} {s : Store} {st : GraphStatement}
    (h : (Statement.graph st).Accepted v m s) : s.contents = v.store.contents := by
  rcases h.contents_cases rfl with hsame | ⟨st', heq, -⟩
  · exact hsame
  · cases heq

/-- A statement on the graph adds no target but its own. -/
theorem GraphStatement.Accepted.targets {v : View} {st : GraphStatement} {g : Graph}
    (h : st.Accepted v g) {t : RelationRevisionRow} (ht : t ∈ g.targets) :
    t ∈ v.store.graph.targets ∨ st = .insertTarget t := by
  cases st with
  | insertTarget x =>
    obtain ⟨-, table, htable, rfl⟩ := h
    rcases (Table.mem_insert? htable).mp ht with rfl | hold
    · exact Or.inr rfl
    · exact Or.inl hold
  | _ =>
    obtain ⟨-, table, -, rfl⟩ := h
    exact Or.inl ht

/-- **Statements keep relations named.** -/
theorem Named.step (h : Named σ.store) (hkeys : ForeignKeys σ.store) (hst : Names σ.store st)
    (hstep : step platform st m σ = .ok (r, σ')) : Named σ'.store := by
  have haccepted := Statement.accepted (step_eq_ok.mp hstep).2.1
  have hquiet := hst.quiet
  constructor
  · intro l hl
    have hkept : l ∈ σ.store.graph.relations → σ'.store.SourceNamed l := fun hold =>
      (h.sources l hold).step hkeys hold hquiet hstep
    rcases haccepted.graph_cases hquiet with hsame | ⟨st', rfl, hgraph⟩
    · exact hkept (hsame ▸ hl)
    rcases hgraph.relations hl with hold | rfl
    · exact hkept hold
    · obtain ⟨e, he, hid, hnamed⟩ := hst
      refine ⟨e, haccepted.entities hquiet he, hid, fun a ha => hnamed a ?_⟩
      rwa [haccepted.contents_graph] at ha
  · intro t ht
    have hkept : t ∈ σ.store.graph.targets → σ'.store.TargetNamed t := fun hold =>
      (h.targets t hold).step hkeys hold hquiet hstep
    rcases haccepted.graph_cases hquiet with hsame | ⟨st', rfl, hgraph⟩
    · exact hkept (hsame ▸ ht)
    rcases hgraph.targets ht with hold | rfl
    · exact hkept hold
    · obtain ⟨e, he, hid, hnamed⟩ := hst
      refine ⟨e, haccepted.entities hquiet he, hid, fun x hx => hnamed x ?_⟩
      rwa [haccepted.contents_graph] at hx

/-! ## Programs without links -/

/-- What builds nothing writes no links. -/
theorem BuildsNothing.linkless (h : BuildsNothing st) : Linkless st := by
  obtain ⟨hquiet, hnone⟩ := h
  cases st with
  | graph st => cases st <;> cases hnone
  | _ => exact hquiet

/-- Minor statements write no links. -/
theorem Minor.linkless (h : Minor st) : Linkless st := by
  cases st with
  | content st => rfl
  | insertObject id scope kind => rfl
  | checkpoint st => rfl
  | ledger st => rfl
  | queue st => rfl
  | operation st => rfl
  | _ => exact h.elim

theorem Linkless.content {st : ContentStatement} : Linkless (.content st) := rfl

theorem Linkless.operation {st : OperationStatement} : Linkless (.operation st) := rfl

theorem Linkless.queue {st : QueueStatement} : Linkless (.queue st) := rfl

theorem Linkless.entity {row : EntityRow} : Linkless (.graph (.insertEntity row)) := rfl

theorem Linkless.evidence {row : EntityEvidenceRow} : Linkless (.graph (.insertEntityEvidence row)) :=
  rfl

theorem linkless_newObject (scopeId : UUID) (kind : ObjectKind) :
    Sends Linkless (newObject scopeId kind) := by
  refine sends_newObject fun id => ?_
  exact rfl

theorem linkless_insertRevision (objectId scopeId : UUID) (revision : Nat) (data : RevisionContent) :
    Sends Linkless (MemoryService.insertRevision platform objectId scopeId revision data) :=
  (sends_send Linkless.content).bind fun _ =>
    Sends.mono (buildsNothing_rest objectId scopeId revision data) fun _ => BuildsNothing.linkless

variable (platform)

theorem linkless_recordEvent (data : Observe) (requestDigest : Digest) :
    Sends Linkless (MemoryService.recordEvent platform data requestDigest) := by
  refine (readOnly_digest platform _).sends.bind fun _ => (readOnly_read _).sends.bind fun row => ?_
  split
  · exact ((readOnly_demand _ _).bind fun _ => (readOnly_object _ _).bind fun _ =>
      readOnly_pure _).sends
  · refine (linkless_newObject _ _).bind fun id => (sends_send Linkless.content).bind fun _ =>
      (readOnly_segment platform _).sends.bind fun _ => (sends_send Linkless.content).bind fun _ => ?_
    exact (sends_send Linkless.operation).bind fun _ => (sends_send Linkless.operation).bind
      fun _ => trivial

theorem linkless_publishAssertion (data : Remember) :
    Sends Linkless (MemoryService.publishAssertion platform data) :=
  (readOnly_scope _ _).sends.bind fun _ => (readOnly_validateEvidence _ _).sends.bind fun _ =>
    (linkless_newObject _ _).bind fun _ => (sends_send Linkless.content).bind fun _ =>
      (linkless_insertRevision _ _ _ _).bind fun _ => (sends_send Linkless.operation).bind
        fun _ => trivial

theorem linkless_reviseAssertion (objectId : UUID) (data : ReviseAssertion) (key : String) :
    Sends Linkless (MemoryService.reviseAssertion platform objectId data key) := by
  refine (readOnly_object _ _).sends.bind fun _ => (readOnly_demand _ _).sends.bind fun _ =>
    sends_once (fun _ => trivial) fun kd rd => ?_
  refine (readOnly_read _).sends.bind fun _ => (readOnly_found _ _).sends.bind fun _ =>
    (readOnly_demand _ _).sends.bind fun _ => (readOnly_demand _ _).sends.bind fun _ =>
      (readOnly_demand _ _).sends.bind fun _ => (readOnly_validateEvidence _ _).sends.bind fun _ => ?_
  exact (linkless_insertRevision _ _ _ _).bind fun _ => (sends_send Linkless.operation).bind
    fun _ => (sends_send Linkless.operation).bind fun _ => trivial

theorem linkless_createEntity (data : CreateEntity) (key : String) :
    Sends Linkless (SqlGraph.createEntity platform data key) := by
  refine (readOnly_scope _ _).sends.bind fun _ =>
    sends_once (fun r => (readOnly_entityReplayed r).sends) fun kd rd => ?_
  refine (readOnly_validateEvidence _ _).sends.bind fun _ =>
    (linkless_newObject _ _).bind fun id => (sends_send Linkless.entity).bind fun _ => ?_
  exact (sends_forEach fun _ _ => sends_send Linkless.evidence).bind fun _ =>
    (sends_send Linkless.operation).bind fun _ => (sends_send Linkless.operation).bind
      fun _ => trivial

theorem linkless_insertJob (data : EnqueueJob) (retryOf : Option UUID) (intent identity : Digest) :
    Sends Linkless (Jobs.insertJob data retryOf intent identity) := by
  refine (readOnly_read _).sends.bind fun _ => (readOnly_demand _ _).sends.bind fun _ =>
    (readOnly_validateEvidence _ _).sends.bind fun _ => (linkless_newObject _ _).bind fun id => ?_
  refine (sends_send Linkless.queue).bind fun _ =>
    (sends_forEach fun _ _ => sends_send Linkless.queue).bind fun _ => ?_
  exact (readOnly_read _).sends.bind fun _ => (sends_send Linkless.queue).bind fun _ =>
    (sends_send Linkless.operation).bind fun _ => trivial

variable {platform}

/-- A program without links. -/
theorem Holding.linkless {α : Type} {p : Tx α} (h : Holding Named σ) (hp : Sends Linkless p) :
    Maintains platform timeline (Holding Named) p n σ :=
  hp.yields h fun _ _ _ _ _ hst hI hstep =>
    ⟨(step_eq_ok.mp hstep).2.2.1.1, hI.holds.step hI.foreign (hst.names _) hstep⟩

/-! ## Links -/

/-- An endpoint of a relation is a stored entity. -/
theorem outcome_endpoint (entityId scopeId : UUID) :
    Outcome platform timeline (SqlGraph.endpoint entityId scopeId)
      (fun e _ σ' => σ' = σ ∧ e ∈ σ.store.graph.entities ∧ e.id = entityId ∧ e.scopeId = scopeId)
      (fun _ => True) n σ := by
  have hentity : Outcome platform timeline (SqlGraph.entity entityId)
      (fun e _ σ' => σ' = σ ∧ e ∈ σ.store.graph.entities ∧ e.id = entityId) (fun _ => True) n σ := by
    refine outcome_bind (outcome_readOnly (readOnly_object _ _) fun _ => trivial) ?_
    rintro o m σ' - rfl
    refine outcome_demand (fun _ => outcome_read (outcome_found (fun e he => ?_) fun _ => trivial))
      fun _ => trivial
    obtain ⟨hfound, -⟩ := Option.filter_eq_some_iff.mp he
    obtain ⟨hmem, hid⟩ := Table.find?_eq_some_iff.mp hfound
    exact outcome_read (outcome_demand (fun _ => ⟨rfl, hmem, hid⟩) fun _ => trivial)
  refine outcome_bind hentity ?_
  rintro e m σ' - ⟨rfl, he, hid⟩
  exact outcome_demand (fun hscope => ⟨rfl, he, hid, of_decide_eq_true hscope⟩) fun _ => trivial

/-- **A session with an entity.** -/
structure Naming (e : EntityRow) (σ : Session) : Prop where
  named : Holding Named σ
  entity : e ∈ σ.store.graph.entities

theorem Naming.step {e : EntityRow} (h : Naming e σ) (hst : Names σ.store st)
    (hstep : PgAgmemory.step platform st m σ = .ok (r, σ')) : Naming e σ' where
  named := ⟨(step_eq_ok.mp hstep).2.2.1.1, h.named.holds.step h.named.foreign hst hstep⟩
  entity := (Statement.accepted (step_eq_ok.mp hstep).2.1).entities hst.quiet h.entity

theorem Naming.linkless {e : EntityRow} {α : Type} {p : Tx α} (h : Naming e σ)
    (hp : Sends Linkless p) :
    Outcome platform timeline p (fun _ _ σ' => Naming e σ') (fun _ => True) n σ :=
  hp.yields h fun _ _ _ _ _ hst hI hstep => hI.step (hst.names _) hstep

/-- **A new revision has the label of the target as value.** -/
theorem Naming.revision {e : EntityRow} {new : NewRevision} (h : Naming e σ)
    (hvalue : new.value.str = e.canonicalLabel.str)
    (hstep : PgAgmemory.step platform (.content (.insertRevision new)) m σ = .ok (r, σ')) :
    Naming e σ' ∧ ∀ x ∈ σ'.store.contents.revisions, key x = (new.assertionId, new.revision) →
      x.value.str = e.canonicalLabel.str := by
  refine ⟨h.step (Linkless.content.names _) hstep, fun x hx hkey => ?_⟩
  obtain ⟨c, ⟨-, t, c', ⟨-, ht⟩, rfl⟩, hstore⟩ := Statement.accepted (step_eq_ok.mp hstep).2.1
  rw [hstore] at hx
  rcases (Table.mem_insert? ht).mp hx with rfl | hold
  · exact hvalue
  · exact absurd hkey ((Table.insert?_eq_some_iff.mp ht).1 x hold)

/-- **A revision of a relation**, with its target. -/
theorem Naming.revise {e : EntityRow} {α : Type} {k : Unit → Tx α} (h : Naming e σ)
    {id scopeId : UUID} {revision : Nat} {data : RevisionContent}
    (hvalue : data.value.str = e.canonicalLabel.str)
    (hk : ∀ m σ', Holding Named σ' → Maintains platform timeline (Holding Named) (k ()) m σ') :
    Maintains platform timeline (Holding Named)
      (MemoryService.insertRevision platform id scopeId revision data >>= fun _ =>
        SqlGraph.insertTarget id scopeId revision e.id >>= k) n σ := by
  have hrevision : Outcome platform timeline
      (MemoryService.insertRevision platform id scopeId revision data)
      (fun _ _ σ' => Naming e σ' ∧ ∀ x ∈ σ'.store.contents.revisions, key x = (id, revision) →
        x.value.str = e.canonicalLabel.str) (fun _ => True) n σ := by
    refine outcome_send (fun r σ₁ hstep => ?_) fun _ _ => trivial
    have hstart := h.revision hvalue hstep
    refine Sends.yields (buildsNothing_rest id scopeId revision data) hstart ?_
    rintro st m σ r σ' hst ⟨hnaming, hvalues⟩ hstep
    exact ⟨hnaming.step (hst.linkless.names _) hstep, (hst.unrelated hstep).2.1 ▸ hvalues⟩
  refine outcome_bind hrevision fun _ m σ₁ _ ⟨hnaming, hvalues⟩ => ?_
  refine outcome_send (fun r σ₂ hstep => hk _ σ₂ ?_) fun _ _ => trivial
  have hnames : Names σ₁.store (.graph (.insertTarget ⟨id, scopeId, revision, e.id⟩)) :=
    ⟨e, hnaming.entity, rfl, hvalues⟩
  exact (hnaming.step hnames hstep).named

/-- **A new relation is named after its source and target.** -/
theorem Holding.relateNamed (h : Holding Named σ) (data : CreateRelation) (key : String) :
    Maintains platform timeline (Holding Named) (SqlGraph.createRelation platform data key) n σ := by
  refine maintains_reading h (readOnly_scope _ _) fun _ _ h => maintains_once h
    (fun _ => readOnly_pure _) fun kd rd m => ?_
  refine outcome_bind (outcome_endpoint _ _) ?_
  rintro source m₁ σ₁ - ⟨rfl, hsource, hsourceId, -⟩
  refine outcome_bind (outcome_endpoint _ _) ?_
  rintro target m₂ σ₂ - ⟨rfl, htarget, htargetId, -⟩
  refine maintains_reading h (readOnly_validateEvidence _ _) fun _ m₃ h => ?_
  -- both entities are there until the links are written
  have hnew : Outcome platform timeline (newObject data.scopeId .assertion)
      (fun _ _ σ' => Naming source σ' ∧ Naming target σ') (fun _ => True) m₃ σ₂ :=
    (linkless_newObject _ _).yields ⟨⟨h, hsource⟩, ⟨h, htarget⟩⟩ fun _ _ _ _ _ hst hI hstep =>
      ⟨hI.1.step (hst.names _) hstep, hI.2.step (hst.names _) hstep⟩
  refine outcome_bind hnew fun id m₄ σ₃ _ ⟨hs₃, ht₃⟩ => ?_
  refine outcome_send (fun r σ₄ hstep => ?_) fun _ _ => trivial
  have hs₄ := hs₃.step (Linkless.content.names _) hstep
  have ht₄ := ht₃.step (Linkless.content.names _) hstep
  have htexts : ∀ a ∈ σ₄.store.contents.assertions, a.id = id →
      a.subject.str = source.canonicalLabel.str ∧ a.predicate ∈ relationPredicates := by
    intro a ha hid
    obtain ⟨c, ⟨-, t, ht, rfl⟩, hstore⟩ := Statement.accepted (step_eq_ok.mp hstep).2.1
    rw [hstore] at ha
    rcases (Table.mem_insert? ht).mp ha with rfl | hold
    · exact ⟨rfl, data.predicate.mem_relationPredicates⟩
    · exact absurd hid ((Table.insert?_eq_some_iff.mp ht).1 a hold)
  refine outcome_send (fun r σ₅ hstep' => ?_) fun _ _ => trivial
  have hnames : Names σ₄.store (.graph (.insertRelation ⟨id, data.scopeId, data.sourceEntity⟩)) :=
    ⟨source, hs₄.entity, hsourceId, htexts⟩
  have ht₅ := ht₄.step hnames hstep'
  rw [← htargetId]
  exact ht₅.revise rfl fun _ _ h => h.linkless ((sends_send Linkless.operation).bind fun _ =>
    (sends_send Linkless.operation).bind fun _ => trivial)

/-- **A correction of a relation is named after its target.** -/
theorem Holding.reviseRelationNamed (h : Holding Named σ) (assertionId : UUID)
    (data : ReviseRelation) (key : String) :
    Maintains platform timeline (Holding Named)
      (SqlGraph.reviseRelation platform assertionId data key) n σ := by
  refine maintains_reading h (readOnly_object _ _) fun obj _ h => maintains_reading h
    (readOnly_read _) fun _ _ h => maintains_reading h (readOnly_found _ _) fun head _ h =>
      maintains_once h (fun _ => readOnly_pure _) fun kd rd m => ?_
  refine maintains_reading h (readOnly_demand _ _) fun _ _ h => maintains_reading h
    (readOnly_demand _ _) fun _ _ h => ?_
  refine outcome_bind (outcome_endpoint _ _) ?_
  rintro target m₁ σ₁ - ⟨rfl, htarget, htargetId, -⟩
  refine maintains_reading h (readOnly_validateEvidence _ _) fun _ _ h => ?_
  rw [← htargetId]
  exact Naming.revise ⟨h, htarget⟩ rfl fun _ _ h => h.linkless
    ((sends_send Linkless.operation).bind fun _ => (sends_send Linkless.operation).bind
      fun _ => trivial)

variable (platform) in
/-- **Every operation but `forget` keeps relations named.** -/
theorem maintained_named : Maintained platform Named where
  provisioned _ := ⟨fun x hx => absurd hx (Table.not_mem_empty x), fun x hx =>
    absurd hx (Table.not_mem_empty x)⟩
  parts _ := {
    minor := fun hst h hstep => ⟨(step_eq_ok.mp hstep).2.2.1.1,
      h.holds.step h.foreign (hst.linkless.names _) hstep⟩
    episode := fun data rd _ h => h.linkless (linkless_recordEvent platform data rd)
    assertion := fun data _ h => h.linkless (linkless_publishAssertion platform data)
    correction := fun objectId data key _ h =>
      h.linkless (linkless_reviseAssertion platform objectId data key)
    entity := fun data key _ h => h.linkless (linkless_createEntity platform data key)
    relation := fun data key _ h => h.relateNamed data key
    relationCorrection := fun assertionId data key _ h => h.reviseRelationNamed assertionId data key
    job := fun data retryOf intent identity _ h =>
      h.linkless (linkless_insertJob data retryOf intent identity) }
  access _ _ _ h := ⟨h.sources, h.targets⟩

end Statements

/-! ## Purges -/

/-- **A purge keeps relations named**: whatever it leaves of a relation, its entities are left as well. -/
theorem Named.purged {s s' : Store} {gone : Gone} (h : Named s) (hs' : Sound s')
    (hpurged : Purged s s' gone) : Named s' := by
  have hkeys := hs'.integrity.foreign
  have hentity : ∀ {e id scope}, e ∈ s.graph.entities → e.id = id →
      (∃ e' ∈ s'.graph.entities, (e'.id, e'.scopeId) = (id, scope)) → e ∈ s'.graph.entities := by
    rintro e id scope he hid ⟨e', he', hkey⟩
    have hold : e' ∈ s.graph.entities := (Table.mem_delete.mp (hpurged.graph ▸ he')).1
    obtain rfl : e' = e := Table.eq_of_key_eq hold he ((Prod.mk.inj hkey).1.trans hid.symm)
    exact he'
  constructor
  · intro l hl
    obtain ⟨e, he, hid, hnamed⟩ := h.sources l (Table.mem_delete.mp (hpurged.graph ▸ hl)).1
    refine ⟨e, hentity he hid (hkeys.graph.relation_source.exists_parent hl rfl), hid,
      fun a ha haid => hnamed a ?_ haid⟩
    exact (Table.mem_delete.mp (hpurged.contents ▸ ha)).1
  · intro t ht
    obtain ⟨e, he, hid, hnamed⟩ := h.targets t (Table.mem_delete.mp (hpurged.graph ▸ ht)).1
    refine ⟨e, hentity he hid (hkeys.graph.target_entity.exists_parent ht rfl), hid,
      fun x hx hkey => hnamed x ?_ hkey⟩
    exact (Table.mem_delete.mp (hpurged.contents ▸ hx)).1

/-- **Relations are named after their entities** in every reachable store. -/
theorem Reachable.named {platform : Platform} {s : Store} (h : Reachable platform s) : Named s :=
  (maintained_named platform).reachable (fun _ _ _ hs' hJ hpurged => hJ.purged hs' hpurged) h

end PgAgmemory

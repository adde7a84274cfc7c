import PgAgmemory.Guarantees.Expansions
import PgAgmemory.History.Orderly
import PgAgmemory.History.Relations
import PgAgmemory.Recalling.Reports

/-! # Typed relations stay consistent

A typed relation is an assertion with links: a source, and a target for each revision. In an orderly run
the links and the texts agree, only the operations on relations write links, and expansions, recalls and
explanations report the same links (`Orderly.relationsConsistent`). A purge whose caller's membership
expires between two of its statements breaks this: it deletes the source of a relation and leaves the
assertion, which is still marked as a relation. -/

namespace PgAgmemory

open Keyed (HasKey Table key)
open Interactive.Program (Sends)
open MemoryService

/-! ## Edges -/

/-- **An edge of a store**: a revision of a relation that is valid at one instant and known at another,
from its source to its target. -/
structure Store.Relates (s : Store) (asOf knownAt : Time) (e : GraphEdge) : Prop where
  relation : ∃ l ∈ s.graph.relations, l.id = e.assertion.1 ∧ l.sourceId = e.sourceEntity
  target : ∃ t ∈ s.graph.targets, (t.assertionId, t.revision) = e.assertion
    ∧ t.targetId = e.targetEntity
  assertion : ∃ a ∈ s.contents.assertions, a.id = e.assertion.1 ∧ a.predicate = e.predicate
  revision : ∃ r ∈ s.contents.revisions, (r.assertionId, r.revision) = e.assertion
    ∧ r.validTime.contains asOf = true ∧ r.systemTime.contains knownAt = true
    ∧ r.validTime.lower = e.validFrom ∧ r.validTime.upper = e.validTo ∧ r.systemFrom = e.recordedAt

/-- **An edge that a request asks for**: of one of its types and scopes, between entities that are shown
to its reader. -/
structure Store.Wanted (s : Store) (data : ExpandGraph) (knownAt : Time) (Readable : UUID → Prop)
    (e : GraphEdge) : Prop where
  scope : ∃ a ∈ s.contents.assertions, a.id = e.assertion.1 ∧ a.scopeId ∈ data.scopeIds
  type : e.predicate ∈ data.relationTypes.map RelationType.predicate
  source_shown : s.ShowsId knownAt Readable data.scopeIds e.sourceEntity
  target_shown : s.ShowsId knownAt Readable data.scopeIds e.targetEntity

/-- The endpoints of an edge. -/
def GraphEdge.ends (e : GraphEdge) : RelationEndpoints := ⟨e.sourceEntity, e.targetEntity⟩

section Edges

variable {s : Store} {asOf knownAt : Time} {e : GraphEdge}

/-- An edge in force for a request is an edge that it asks for. -/
theorem Store.inForce_iff {data : ExpandGraph} {Readable : UUID → Prop} :
    s.InForce data asOf knownAt Readable e
      ↔ s.Relates asOf knownAt e ∧ s.Wanted data knownAt Readable e := by
  constructor
  · intro h
    obtain ⟨a, ha, hid, hscope, hpredicate⟩ := h.assertion
    exact ⟨⟨h.relation, h.target, ⟨a, ha, hid, hpredicate⟩, h.revision⟩,
      ⟨⟨a, ha, hid, hscope⟩, h.type, h.source_shown, h.target_shown⟩⟩
  · rintro ⟨hrelates, hwanted⟩
    obtain ⟨a, ha, hid, hpredicate⟩ := hrelates.assertion
    obtain ⟨a', ha', hid', hscope⟩ := hwanted.scope
    obtain rfl : a = a' := Table.eq_of_key_eq ha ha' (hid.trans hid'.symm)
    exact ⟨hrelates.relation, hrelates.target, ⟨a, ha, hid, hscope, hpredicate⟩, hwanted.type,
      hrelates.revision, hwanted.source_shown, hwanted.target_shown⟩

/-- **The endpoints of a revision in force are those of its edge.** -/
theorem Store.endpoints?_relates {a : AssertionRow} (ha : a ∈ s.contents.assertions)
    {r : AssertionRevisionRow} (hr : r ∈ s.contents.revisionsOf a.id)
    (hvalid : r.validTime.contains asOf = true) (hknown : r.systemTime.contains knownAt = true)
    {ends : RelationEndpoints} : s.endpoints? a.id r.revision = some ends
      ↔ ∃ e, s.Relates asOf knownAt e ∧ e.assertion = (a.id, r.revision) ∧ e.ends = ends := by
  rw [Store.endpoints?_eq_some]
  constructor
  · rintro ⟨hrelation, htarget⟩
    refine ⟨⟨(a.id, r.revision), a.predicate, ends.sourceEntity, ends.targetEntity,
      r.validTime.lower, r.validTime.upper, r.systemFrom⟩, ?_, rfl, rfl⟩
    exact ⟨hrelation, htarget, ⟨a, ha, rfl, rfl⟩,
      r, hr.1, Prod.ext hr.2 rfl, hvalid, hknown, rfl, rfl, rfl⟩
  · rintro ⟨e, he, heq, rfl⟩
    have hrelation := he.relation
    have htarget := he.target
    rw [heq] at hrelation htarget
    exact ⟨hrelation, htarget⟩

end Edges

/-! ## Links -/

/-- A statement that writes no assertion and no source of a relation. -/
def Corrective : Statement → Prop
  | .content (.insertAssertion _ _ _ _ _) => False
  | .graph (.insertRelation _) => False
  | st => st.quiet = true

/-- **What a correction of a relation leaves alone**: the sources, and the texts of assertions. -/
structure Corrected (s s' : Store) : Prop where
  relations : s'.graph.relations = s.graph.relations
  assertions : ∀ a ∈ s.contents.assertions, ∃ a' ∈ s'.contents.assertions,
    a'.id = a.id ∧ a'.subject = a.subject ∧ a'.predicate = a.predicate ∧ a'.isRelation = a.isRelation

section Calls

variable {platform : Platform} {timeline : Timeline} {c : Call} {s : Store}

/-- A call without links leaves them alone. -/
theorem Call.links_kept (hsends : Sends Linkless (c.request.program platform)) :
    (c.exec platform s).2.graph.relations = s.graph.relations
      ∧ (c.exec platform s).2.graph.targets = s.graph.targets := by
  rcases c.exec_cases platform s with ⟨fault, hexec⟩ | ⟨response, s', hok, hexec⟩
  · rw [hexec]
    exact ⟨rfl, rfl⟩
  rw [hexec]
  obtain ⟨n, σ, hrun, hcommit⟩ := attempt_eq_ok.mp hok
  obtain ⟨-, rfl⟩ := commit_eq_ok.mp hcommit
  have houtcome : Outcome platform c.timeline (c.request.program platform)
      (fun _ _ σ => σ.store.graph.relations = s.graph.relations
        ∧ σ.store.graph.targets = s.graph.targets) (fun _ => True) 0 (.start c.principal s) := by
    refine hsends.yields ⟨rfl, rfl⟩ ?_
    rintro st m σ r σ' hst ⟨hrelations, htargets⟩ hstep
    obtain ⟨hrelations', htargets'⟩ := hst.links hstep
    exact ⟨hrelations'.trans hrelations, htargets'.trans htargets⟩
  exact houtcome.of_run hrun

/-- What builds nothing is corrective. -/
theorem BuildsNothing.corrective {st : Statement} (h : BuildsNothing st) : Corrective st := by
  obtain ⟨hquiet, hnone⟩ := h
  cases st with
  | content st => cases st <;> first | rfl | cases hnone
  | graph st => cases st <;> cases hnone
  | _ => exact hquiet

/-- Moving a head leaves texts alone. -/
theorem exists_moveHead_texts {t : Table AssertionRow} {a : AssertionRow} (ha : a ∈ t) (id : UUID)
    (n : Nat) : ∃ a' ∈ moveHead t id n, a'.id = a.id ∧ a'.subject = a.subject
      ∧ a'.predicate = a.predicate ∧ a'.isRelation = a.isRelation := by
  refine ⟨_, Table.mem_update.mpr ⟨a, ha, rfl⟩, ?_⟩
  split <;> exact ⟨rfl, rfl, rfl, rfl⟩

/-- Corrective statements leave sources and texts alone. -/
theorem Corrected.step {start : Store} {σ σ' : Session} {st : Statement} {m : Moment} {r : Returned}
    (h : Corrected start σ.store) (hst : Corrective st)
    (hstep : PgAgmemory.step platform st m σ = .ok (r, σ')) : Corrected start σ'.store := by
  have hquiet : st.quiet = true := by
    cases st with
    | content st => rfl
    | graph st => rfl
    | _ => exact hst
  have haccepted := Statement.accepted (step_eq_ok.mp hstep).2.1
  constructor
  · rcases haccepted.graph_cases hquiet with hsame | ⟨st', rfl, hgraph⟩
    · exact (congrArg _ hsame).trans h.relations
    generalize σ'.store.graph = g at hgraph ⊢
    cases st' with
    | insertRelation l => exact hst.elim
    | _ =>
      obtain ⟨-, t, -, rfl⟩ := hgraph
      exact h.relations
  · intro a ha
    obtain ⟨a', ha', hsame⟩ := h.assertions a ha
    rcases haccepted.contents_cases hquiet with hkept | ⟨st', rfl, hcontents⟩
    · exact ⟨a', hkept ▸ ha', hsame⟩
    generalize σ'.store.contents = c at hcontents ⊢
    cases st' with
    | insertAssertion id scope subject predicate isRelation => exact hst.elim
    | insertRevision new =>
      obtain ⟨-, t, c', ⟨hadopts, -⟩, rfl⟩ := hcontents
      cases hadopts with
      | first _ _ _ => exact ⟨a', ha', hsame⟩
      | next _ _ _ _ _ _ =>
        obtain ⟨a'', ha'', hid, hsubject, hpredicate, hrelation⟩ :=
          exists_moveHead_texts ha' new.assertionId new.revision
        exact ⟨a'', ha'', hid.trans hsame.1, hsubject.trans hsame.2.1,
          hpredicate.trans hsame.2.2.1, hrelation.trans hsame.2.2.2⟩
    | _ =>
      obtain ⟨-, t, -, rfl⟩ := hcontents
      exact ⟨a', ha', hsame⟩

/-- A correction of a relation is corrective. -/
theorem corrective_reviseRelation (platform : Platform) (assertionId : UUID) (data : ReviseRelation)
    (key : String) : Sends Corrective (SqlGraph.reviseRelation platform assertionId data key) := by
  refine (readOnly_object _ _).sends.bind fun obj => (readOnly_read _).sends.bind fun _ =>
    (readOnly_found _ _).sends.bind fun head => sends_once (fun _ => trivial) fun kd rd => ?_
  refine (readOnly_demand _ _).sends.bind fun _ => (readOnly_demand _ _).sends.bind fun _ =>
    (readOnly_endpoint _ _).sends.bind fun target =>
      (readOnly_validateEvidence _ _).sends.bind fun _ => ?_
  have hrevision : Sends Corrective (MemoryService.insertRevision platform assertionId obj.scopeId
      (data.expectedRevision.val + 1) (SqlGraph.correctedContent data target.canonicalLabel)) := by
    refine (sends_send ?_).bind fun _ =>
      Sends.mono (buildsNothing_rest _ _ _ _) fun _ => BuildsNothing.corrective
    exact rfl
  refine hrevision.bind fun _ => (sends_send ?_).bind fun _ => (sends_send ?_).bind fun _ =>
    (sends_send ?_).bind fun _ => trivial
  · exact rfl
  · exact rfl
  · exact rfl

/-- **A correction of a relation leaves sources and texts alone.** -/
theorem Call.corrected {assertionId : UUID} {data : ReviseRelation} {key : String}
    (hrequest : c.request = .reviseRelation assertionId data key) :
    Corrected s (c.exec platform s).2 := by
  have hsame : Corrected s s := ⟨rfl, fun a ha => ⟨a, ha, rfl, rfl, rfl, rfl⟩⟩
  rcases c.exec_cases platform s with ⟨fault, hexec⟩ | ⟨response, s', hok, hexec⟩
  · rw [hexec]
    exact hsame
  rw [hexec]
  obtain ⟨n, σ, hrun, hcommit⟩ := attempt_eq_ok.mp hok
  obtain ⟨-, rfl⟩ := commit_eq_ok.mp hcommit
  rw [hrequest] at hrun
  have hsends : Sends Corrective
      (Request.program platform (.reviseRelation assertionId data key)) :=
    readOnly_bindIdentity.sends.bind fun _ =>
      (corrective_reviseRelation platform assertionId data key).bind fun _ => trivial
  have houtcome : Outcome platform c.timeline
      (Request.program platform (.reviseRelation assertionId data key))
      (fun _ _ σ => Corrected s σ.store) (fun _ => True) 0 (.start c.principal s) :=
    hsends.yields hsame fun _ _ _ _ _ hst hI hstep => hI.step hst hstep
  exact houtcome.of_run hrun

/-- The requests that write texts only. -/
def Request.freeText : Request → Bool
  | .remember _ _ => true
  | .publish _ _ _ => true
  | .reviseAssertion _ _ _ => true
  | _ => false

/-- **Texts write no links.** -/
theorem linkless_freeText {request : Request} (h : request.freeText = true) :
    Sends Linkless (request.program platform) := by
  refine readOnly_bindIdentity.sends.bind fun _ => ?_
  cases request with
  | remember data key =>
    refine Sends.bind ?_ fun _ => trivial
    refine (readOnly_scope _ _).sends.bind fun _ => sends_once (fun _ => trivial) fun kd rd => ?_
    exact (linkless_publishAssertion platform data).bind fun _ =>
      (sends_send Linkless.operation).bind fun _ => trivial
  | publish jobId token prepared =>
    refine Sends.bind ?_ fun _ => trivial
    refine (readOnly_lease _ _ _).sends.bind fun row => (readOnly_demand _ _).sends.bind fun _ =>
      (linkless_publishAssertion platform prepared).bind fun _ => ?_
    exact (readOnly_found _ _).sends.bind fun _ => (sends_update Linkless.queue).bind fun _ =>
      (readOnly_demand _ _).sends.bind fun _ => (sends_send Linkless.operation).bind fun _ => trivial
  | reviseAssertion objectId data key =>
    exact (linkless_reviseAssertion platform objectId data key).bind fun _ => trivial
  | _ => cases h

end Calls

/-! ## Consistency -/

/-- **The same links everywhere**: what expansions find, recalls show and explanations say are the edges
of the store at the instants asked for. -/
structure LinksAgree (platform : Platform) (s : Store) : Prop where
  /-- The edges that an expansion finds are edges of the store, of its request and of its paths. -/
  expanded : ∀ (c : Call) data x, c.request = .expand data →
    (c.exec platform s).1 = .ok (.expanded x) → ∀ e, e ∈ x.edges ↔ s.Relates x.asOf x.knownAt e
      ∧ s.Wanted data x.knownAt
        ((Session.start c.principal s).view (c.timeline.moment 2)).Reads e
      ∧ ∃ p ∈ x.paths, e.assertion ∈ p.assertions
  /-- An expansion that is not truncated finds every edge asked for that leads away from a seed. -/
  found : ∀ (c : Call) data x, c.request = .expand data →
    (c.exec platform s).1 = .ok (.expanded x) → x.truncated = false →
      ∀ e seed next, s.Relates x.asOf x.knownAt e → s.Wanted data x.knownAt
        ((Session.start c.principal s).view (c.timeline.moment 2)).Reads e →
        seed ∈ data.seeds → e.Leads data.direction seed next → next ≠ seed → e ∈ x.edges
  /-- A recalled item names the endpoints of its edge. -/
  recalled : ∀ (c : Call) data x, c.request = .«recall» data →
    (c.exec platform s).1 = .ok (.recalled x) → ∀ item ∈ x.items, ∀ ends,
      item.relation = some ends ↔ ∃ e, s.Relates (data.asOfFrom (c.timeline.moment 1).timestamp)
          (data.knownFrom (c.timeline.moment 1).timestamp) e
        ∧ e.assertion = (item.memoryId, item.revision) ∧ e.ends = ends
  /-- An explanation names the endpoints of the edge, whenever the revision is in force. -/
  explained : ∀ (c : Call) data a r relation evidence, c.request = .explain data →
    (c.exec platform s).1 = .ok (.explained (.assertion a r relation evidence)) →
      ∀ asOf knownAt, r.validTime.contains asOf = true → r.systemTime.contains knownAt = true →
        ∀ ends, relation = some ends ↔ ∃ e, s.Relates asOf knownAt e
          ∧ e.assertion = (data.memoryId, data.revision.val) ∧ e.ends = ends

section Agree

variable {platform : Platform} {s : Store}

/-- An edge that leads away from a seed is a walk. -/
theorem Store.InForce.walk {data : ExpandGraph} {asOf knownAt : Time} {Readable : UUID → Prop}
    {e : GraphEdge} (h : s.InForce data asOf knownAt Readable e) {seed next : UUID}
    (hseed : seed ∈ data.seeds) (hleads : e.Leads data.direction seed next) (hne : next ≠ seed) :
    s.Walk data asOf knownAt Readable ⟨[seed, next], [e.assertion]⟩ := by
  have hshown : s.ShowsId knownAt Readable data.scopeIds seed := by
    cases hleads with
    | forward _ => exact h.source_shown
    | backward _ => exact h.target_shown
  have hstart : s.Walk data asOf knownAt Readable ⟨[seed], []⟩ := .seed hseed hshown
  refine hstart.step (x := ⟨e, next⟩) ⟨h, ⟨seed, rfl, hleads⟩, ?_⟩
  rw [List.mem_singleton]
  exact hne

/-- **Every reachable store shows the same links everywhere.** -/
theorem Reachable.linksAgree (hs : Reachable platform s) : LinksAgree platform s := by
  have hgrounded := hs.sound.grounded
  have hexact : ∀ (c : Call) data x, c.request = .expand data →
      (c.exec platform s).1 = .ok (.expanded x) → ExpandsExactly s data
        ((Session.start c.principal s).view (c.timeline.moment 2)).Reads x := by
    intro c data x hrequest hx
    have hbody : c.request.body platform = respond .expanded (SqlGraph.expand data) := by
      rw [hrequest]
      rfl
    exact (Call.answered hbody (fun b heq => Response.expanded.inj heq) hx
      (outcome_expand hgrounded)).2.2
  constructor
  · intro c data x hrequest hx e
    rw [(hexact c data x hrequest hx).edges, Store.inForce_iff, and_assoc]
  · intro c data x hrequest hx hall e seed next hrelates hwanted hseed hleads hne
    have hexpands := hexact c data x hrequest hx
    have hinForce := Store.inForce_iff.mpr ⟨hrelates, hwanted⟩
    obtain ⟨walks, hwalks, -, hpaths, htruncated⟩ := hexpands.paths
    have hshort : walks.length ≤ data.maxPaths := by
      by_contra hlong
      rw [htruncated.mpr (Nat.not_le.mp hlong)] at hall
      cases hall
    rw [List.take_of_length_le hshort] at hpaths
    have hwalk : (⟨[seed, next], [e.assertion]⟩ : GraphPath) ∈ x.paths :=
      hpaths ▸ (hwalks _).mpr ⟨hinForce.walk hseed hleads hne, Nat.one_pos, data.limits.1.1⟩
    exact (hexpands.edges e).mpr ⟨hinForce, _, hwalk, List.mem_singleton_self _⟩
  · intro c data x hrequest hx item hitem ends
    rcases (Call.reports hrequest hx item hitem).cases hgrounded with
      ⟨-, hnone, hepisode⟩ | ⟨a, ha, r, hr, -, htells, -, hvalid, hknown, -⟩
    · refine iff_of_false (by rw [hnone]; exact Option.some_ne_none ends |>.symm) ?_
      rintro ⟨edge, hrelates, heq, -⟩
      obtain ⟨e, he, hid, -⟩ := hepisode
      obtain ⟨a, ha, haid, -⟩ := hrelates.assertion
      refine View.episode_ne_assertion hs.sound.integrity.foreign he ha ?_
      rw [hid, haid, heq]
    · rw [htells.relation, htells.identity.1, htells.identity.2]
      exact Store.endpoints?_relates ha hr hvalid hknown
  · intro c data a r relation evidence hrequest hx asOf knownAt hvalid hknown ends
    have hbody : c.request.body platform = respond .explained (explain data) := by
      rw [hrequest]
      rfl
    have hexplains := Call.answered hbody (fun b heq => Response.explained.inj heq) hx
      outcome_explains a r relation evidence rfl
    have hrelation : relation = s.endpoints? a.id r.revision := by
      rw [← hs.endpoints?_eq hexplains.assertion]
      cases htyped : a.isRelation with
      | true => exact (hexplains.typed htyped).2
      | false => exact hexplains.untyped htyped
    rw [hrelation, ← hexplains.id, ← hexplains.number]
    exact Store.endpoints?_relates hexplains.assertion hexplains.revision hvalid hknown

end Agree

/-! ## The guarantee -/

/-- **Typed relations are consistent.** -/
structure RelationsConsistent (platform : Platform) (s : Store) : Prop where
  /-- An assertion is marked as a relation exactly when it has a source. -/
  marked : ∀ a ∈ s.contents.assertions,
    a.isRelation = true ↔ ∃ l ∈ s.graph.relations, l.id = a.id
  /-- Its subject is the label of its source, an entity of its scope. -/
  source : ∀ a ∈ s.contents.assertions, ∀ l ∈ s.graph.relations, l.id = a.id →
    ∃ e ∈ s.graph.entities, e.id = l.sourceId ∧ e.scopeId = a.scopeId
      ∧ a.subject.str = e.canonicalLabel.str
  /-- Its predicate is one of the relation types. -/
  predicate : ∀ a ∈ s.contents.assertions, a.isRelation = true →
    ∃ type : RelationType, a.predicate = type.predicate
  /-- Each of its revisions has exactly one target, an entity of its scope whose label is its value. -/
  target : ∀ a ∈ s.contents.assertions, a.isRelation = true →
    ∀ r ∈ s.contents.revisionsOf a.id, ∃ t ∈ s.graph.targets,
      (t.assertionId, t.revision) = (a.id, r.revision)
        ∧ (∀ t' ∈ s.graph.targets, (t'.assertionId, t'.revision) = (a.id, r.revision) → t' = t)
        ∧ ∃ e ∈ s.graph.entities, e.id = t.targetId ∧ e.scopeId = a.scopeId
          ∧ r.value.str = e.canonicalLabel.str
  /-- Requests for texts leave sources and targets alone. -/
  texts : ∀ c : Call, c.request.freeText = true →
    (c.exec platform s).2.graph.relations = s.graph.relations
      ∧ (c.exec platform s).2.graph.targets = s.graph.targets
  /-- A correction of a relation leaves sources, subjects and predicates alone. -/
  corrections : ∀ (c : Call) assertionId data key,
    c.request = .reviseRelation assertionId data key → Corrected s (c.exec platform s).2
  /-- Expansions, recalls and explanations report the same links. -/
  agree : LinksAgree platform s

/-- **Typed relations stay consistent** in an orderly run. -/
theorem Orderly.relationsConsistent {platform : Platform} {s : Store} (h : Orderly platform s) :
    RelationsConsistent platform s := by
  have hs := h.reachable
  have hkeys := hs.sound.integrity.foreign
  have hnamed := hs.named
  have hrelated : ∀ a ∈ s.contents.assertions, a.isRelation = true →
      (∃ l ∈ s.graph.relations, l.id = a.id) ∧ ∀ r ∈ s.contents.revisions, r.assertionId = a.id →
        ∃ t ∈ s.graph.targets, key t = key r := fun a ha hmarked =>
    (h.intact a.id).relation a ha rfl hmarked
  have hscope : ∀ a ∈ s.contents.assertions, ∀ l ∈ s.graph.relations, l.id = a.id →
      l.scopeId = a.scopeId := by
    intro a ha l hl hid
    obtain ⟨a', ha', hkey⟩ := hkeys.graph.relation_assertion.exists_parent hl rfl
    obtain rfl : a' = a := Table.eq_of_key_eq ha' ha ((Prod.mk.inj hkey).1.trans hid)
    exact (Prod.mk.inj hkey).2.symm
  constructor
  · intro a ha
    refine ⟨fun hmarked => (hrelated a ha hmarked).1, ?_⟩
    rintro ⟨l, hl, hid⟩
    obtain ⟨a', ha', hid', hmarked⟩ := hs.typed l hl
    obtain rfl : a' = a := Table.eq_of_key_eq ha' ha (hid'.trans hid)
    exact hmarked
  · intro a ha l hl hid
    obtain ⟨e, he, heid, htexts⟩ := hnamed.sources l hl
    obtain ⟨e', he', hkey⟩ := hkeys.graph.relation_source.exists_parent hl rfl
    obtain rfl : e' = e := Table.eq_of_key_eq he' he ((Prod.mk.inj hkey).1.trans heid.symm)
    exact ⟨e', he, heid, (Prod.mk.inj hkey).2.trans (hscope a ha l hl hid),
      (htexts a ha hid.symm).1⟩
  · intro a ha hmarked
    obtain ⟨l, hl, hid⟩ := (hrelated a ha hmarked).1
    obtain ⟨e, he, -, htexts⟩ := hnamed.sources l hl
    obtain ⟨type, -, heq⟩ := List.mem_map.mp (htexts a ha hid.symm).2
    exact ⟨type, heq.symm⟩
  · intro a ha hmarked r hr
    obtain ⟨⟨l, hl, hlid⟩, htargets⟩ := hrelated a ha hmarked
    obtain ⟨t, ht, hkey⟩ := htargets r hr.1 hr.2
    have hkey : key t = (a.id, r.revision) := hkey.trans (Prod.ext hr.2 rfl)
    refine ⟨t, ht, hkey, fun t' ht' hkey' => Table.eq_of_key_eq ht' ht (hkey'.trans hkey.symm), ?_⟩
    obtain ⟨e, he, heid, hvalues⟩ := hnamed.targets t ht
    obtain ⟨e', he', hparent⟩ := hkeys.graph.target_entity.exists_parent ht rfl
    obtain rfl : e' = e := Table.eq_of_key_eq he' he ((Prod.mk.inj hparent).1.trans heid.symm)
    obtain ⟨l', hl', hrelation⟩ := hkeys.graph.target_relation.exists_parent ht rfl
    have hid : l'.id = a.id := (Prod.mk.inj hrelation).1.trans (Prod.mk.inj hkey).1
    have hrkey : key r = (a.id, r.revision) := Prod.ext hr.2 rfl
    refine ⟨e', he, heid, ?_, hvalues r hr.1 (hrkey.trans hkey.symm)⟩
    exact (Prod.mk.inj hparent).2.trans ((Prod.mk.inj hrelation).2.symm.trans
      (hscope a ha l' hl' hid))
  · exact fun c htext => Call.links_kept (linkless_freeText htext)
  · exact fun c assertionId data key hrequest => Call.corrected hrequest
  · exact hs.linksAgree

/-! ## A small tenant -/

/-- The run of the small tenant in which its relation is created is orderly. -/
theorem orderly_related : Orderly .plain .related :=
  (Orderly.provisioned _).run ⟨trivial, trivial, trivial, trivial, trivial⟩

/-- The relation of the small tenant is consistent. -/
theorem relationsConsistent_related : RelationsConsistent .plain .related
    ∧ (Store.related.contents.assertions.rows.map fun a => (a.id, a.isRelation)) = [(516, true)]
    ∧ (Store.related.graph.relations.rows.map fun l => (l.id, l.sourceId)) = [(516, 308)] :=
  ⟨orderly_related.relationsConsistent, by decide +kernel, by decide +kernel⟩

/-- The small tenant after the purge of its relation: the membership expired when the revisions were
erased, and was granted again. -/
def Store.severed : Store :=
  runEvents .plain [
    .call ⟨1, .ticking 0 100, .observe (.brief 2) "key"⟩,
    .call ⟨1, .ticking 200 300, .createEntity .brief "source"⟩,
    .call ⟨1, .ticking 400 400, .createEntity .brief "target"⟩,
    .call ⟨1, .ticking 600 500, .createRelation .brief "key"⟩,
    .call ⟨1, .ticking 800 1000, .forget { memoryIds := [516], reason := .brief } "forget"⟩,
    .renewal] (.provisioned (.sole 1 2 (some 819)))

/-- **A relation without links**: the assertion is marked as a relation, and has no source. -/
theorem not_relationsConsistent_severed :
    ¬ ∀ s, Reachable .plain s → RelationsConsistent .plain s := by
  intro hall
  have hreach : Reachable .plain .severed := (Reachable.provisioned _).run _
  have hassertions : (Store.severed.contents.assertions.rows.map fun a => (a.id, a.isRelation))
      = [(516, true)] := by
    decide +kernel
  have hrelations : Store.severed.graph.relations.rows.map RelationRow.id = [] := by decide +kernel
  obtain ⟨a, ha, heq⟩ := List.mem_map.mp (hassertions ▸ List.mem_singleton_self (516, true))
  obtain ⟨l, hl, -⟩ := ((hall _ hreach).marked a ha).mp (Prod.mk.inj heq).2
  have hmem : l.id ∈ Store.severed.graph.relations.rows.map RelationRow.id :=
    List.mem_map_of_mem (Table.mem_rows.mpr hl)
  rw [hrelations] at hmem
  exact absurd hmem List.not_mem_nil

end PgAgmemory

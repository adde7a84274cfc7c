import PgAgmemory.History.Maintained

/-! # Evidence is quoted

Whoever inserts evidence has validated it in the same request: every quote occurs in an episode of the
scope. Episodes are not changed, so what was validated stays true until the episode is purged, and a
wholesale purge takes with it whatever rests on an episode (`Quotes.wholesale`). -/

namespace PgAgmemory

open Keyed (HasKey Table key)
open Interactive (Program)
open Interactive.Program (ReadOnly Sends)
open MemoryService

/-! ## Evidence -/

/-- A quote of a stored episode. -/
def Store.Cites (s : Store) (id : UUID) (quote : LongText) : Prop :=
  ∃ e ∈ s.contents.episodes, e.id = id ∧ quoted quote e.content = true

/-- The evidence of a revision: its episodes and their quotes. -/
def Contents.evidenceOf (c : Contents) (child : UUID × Nat) : List (UUID × LongText) :=
  (c.edges.rows.filter fun x => decide ((x.childId, x.childRevision) = child)).map fun x =>
    (x.parentId, x.quote)

/-- The evidence of an entity. -/
def Graph.evidenceOf (g : Graph) (id : UUID) : List (UUID × LongText) :=
  (g.evidence.rows.filter fun x => decide (x.entityId = id)).map fun x => (x.sourceId, x.quote)

/-- **What an active job stores**: a request, with quotes of stored episodes, of which its inputs are
some. -/
structure Store.Requested (s : Store) (j : JobRow) (r : Remember) : Prop where
  payload : j.payload = some r.dump
  scope : r.scopeId = j.scopeId
  count : j.referenceCount = r.evidence.length
  quoted : ∀ x ∈ r.evidence, s.Cites x.memoryId x.quote
  inputs : ∀ i ∈ s.queue.inputs, i.jobId = j.id → i.sourceId ∈ r.evidence.map Evidence.memoryId

/-- **Evidence is quoted**, but for a revision that is being written. -/
structure QuotesBut (written : Option (UUID × Nat)) (s : Store) : Prop where
  edges : ∀ x ∈ s.contents.edges, s.Cites x.parentId x.quote
  evidence : ∀ x ∈ s.graph.evidence, s.Cites x.sourceId x.quote
  counted : ∀ r ∈ s.contents.revisions, some (key r) ≠ written →
    1 ≤ (s.contents.evidenceOf (key r)).length ∧ (s.contents.evidenceOf (key r)).length ≤ 32
  entities : ∀ e ∈ s.graph.entities, 1 ≤ e.referenceCount ∧ e.referenceCount ≤ 32
  jobs : ∀ j ∈ s.queue.jobs, j.state.active = true → ∃ r, s.Requested j r

/-- **All evidence is quoted.** -/
abbrev Quotes (s : Store) : Prop := QuotesBut none s

/-! ## Statements -/

/-- **Evidence from a list**: a statement that writes no episode, no assertion's revision but the given
one, no evidence that is not on the list, and nothing on jobs but identities and updates. -/
def Cited (written : Option (UUID × Nat)) (evidence : List Evidence) : Statement → Prop
  | .content (.insertRevision _) => False
  | .content (.insertEdge x) => some (x.childId, x.childRevision) = written
    ∧ ⟨x.parentId, x.quote⟩ ∈ evidence
  | .graph (.insertEntity x) => 1 ≤ x.referenceCount ∧ x.referenceCount ≤ 32
  | .graph (.insertEntityEvidence x) => ⟨x.sourceId, x.quote⟩ ∈ evidence
  | .queue (.insertJob _) => False
  | .queue (.insertInput _) => False
  | st => st.quiet = true

section Statements

variable {platform : Platform} {timeline : Timeline} {n : Nat} {σ σ' : Session} {st : Statement}
  {m : Moment} {r : Returned} {written : Option (UUID × Nat)} {evidence : List Evidence}

theorem Cited.quiet (h : Cited written evidence st) : st.quiet = true := by
  cases st with
  | content st => rfl
  | graph st => rfl
  | queue st => rfl
  | _ => exact h

/-- The evidence of the revision that is being written. -/
theorem Cited.edge {x : Evidence} (hx : x ∈ evidence) (id scope : UUID) (revision : Nat) :
    Cited (some (id, revision)) evidence
      (.content (.insertEdge ⟨id, revision, x.memoryId, scope, x.quote⟩)) := ⟨rfl, hx⟩

/-- Episodes stay. -/
theorem Store.Cites.step {id : UUID} {quote : LongText} (hquiet : st.quiet = true)
    (h : σ.store.Cites id quote) (hstep : step platform st m σ = .ok (r, σ')) :
    σ'.store.Cites id quote := by
  obtain ⟨e, he, hcites⟩ := h
  refine ⟨e, ?_, hcites⟩
  rcases (Statement.accepted (step_eq_ok.mp hstep).2.1).contents_cases hquiet with
    hsame | ⟨st', rfl, hcontents⟩
  · exact hsame ▸ he
  generalize σ'.store.contents = c at hcontents ⊢
  cases st' with
  | insertEpisode row =>
    obtain ⟨-, t, ht, rfl⟩ := hcontents
    exact (Table.mem_insert? ht).mpr (Or.inr he)
  | insertRevision new =>
    obtain ⟨-, t, c', ⟨hadopts, -⟩, rfl⟩ := hcontents
    rw [hadopts.kept.1]
    exact he
  | _ =>
    obtain ⟨-, t, -, rfl⟩ := hcontents
    exact he

/-- A request stays stored while the job and its inputs are left alone. -/
theorem Store.Requested.step {j : JobRow} {request : Remember} (hquiet : st.quiet = true)
    (h : σ.store.Requested j request) (hstep : step platform st m σ = .ok (r, σ'))
    (hinputs : σ'.store.queue.inputs = σ.store.queue.inputs) : σ'.store.Requested j request where
  payload := h.payload
  scope := h.scope
  count := h.count
  quoted x hx := (h.quoted x hx).step hquiet hstep
  inputs := hinputs ▸ h.inputs

/-- **An update keeps the request of a job that stays active.** -/
theorem ChangesJob.request {v : View} {id : UUID} {change : JobChange} {old new : JobRow}
    (h : ChangesJob v m id change old new) (hactive : new.state.active = true) :
    old.state.active = true ∧ new.payload = old.payload ∧ new.scopeId = old.scopeId
      ∧ new.id = old.id := by
  have hguarded := h.guarded
  have hchecked := h.checked
  simp only [guardUpdate, Bool.and_eq_true] at hguarded
  simp only [JobRow.checks, Bool.and_eq_true] at hchecked
  obtain ⟨⟨⟨⟨hold, hpayload⟩, -⟩, -⟩, -⟩ := hguarded
  obtain ⟨⟨⟨-, hobject⟩, -⟩, -⟩ := hchecked
  rw [if_pos hactive] at hobject
  refine ⟨hold, ?_, ?_, ?_⟩
  · rcases Bool.or_eq_true_iff.mp hpayload with hnone | hsame
    · rw [Option.isNone_iff_eq_none.mp hnone] at hobject
      cases hobject
    · exact of_decide_eq_true hsame
  · rw [h.stamped]
    cases change <;> rfl
  · rw [h.stamped]
    exact JobChange.apply_id _ _ _ _

/-- An update keeps what active jobs store. -/
theorem QuotesBut.updated {v : View} {id : UUID} {change : JobChange} {old new : JobRow}
    (h : QuotesBut written v.store) (hchanges : ChangesJob v m id change old new)
    (hactive : new.state.active = true) : ∃ request, v.store.Requested new request := by
  obtain ⟨hold, hpayload, hscope, hid⟩ := hchanges.request hactive
  obtain ⟨hmem, -⟩ := Table.find?_eq_some_iff.mp hchanges.found
  obtain ⟨request, hrequested⟩ := h.jobs old hmem hold
  exact ⟨request, hpayload.trans hrequested.payload, hrequested.scope.trans hscope.symm,
    hchanges.referenceCount.trans hrequested.count, hrequested.quoted,
    fun i hi hof => hrequested.inputs i hi (hof.trans hid)⟩

/-- Statements on jobs that write no request. -/
theorem QuotesBut.queue {st : QueueStatement} {row : Option JobRow} {q : Queue} {v : View}
    (h : QuotesBut written v.store) (hst : Cited written evidence (.queue st))
    (haccepted : st.Accepted v m row q) :
    ∀ j ∈ q.jobs, j.state.active = true → ∃ request, v.store.Requested j request := by
  cases st with
  | insertJob n => exact hst.elim
  | insertInput i => exact hst.elim
  | insertIdentity i =>
    obtain ⟨-, t, -, rfl⟩ := haccepted
    exact h.jobs
  | updateJob id change =>
    obtain ⟨-, rfl⟩ | ⟨old, new, hid, hchanges, -, rfl⟩ := haccepted
    · exact h.jobs
    · intro j hj hactive
      rcases (mem_replaceJob_iff hid).mp hj with ⟨rfl, -⟩ | ⟨hold, -⟩
      · exact h.updated hchanges hactive
      · exact h.jobs j hold hactive

/-- Inputs of jobs are left alone. -/
theorem Cited.inputs (hst : Cited written evidence st) (hstep : step platform st m σ = .ok (r, σ')) :
    σ'.store.queue.inputs = σ.store.queue.inputs := by
  rcases (Statement.accepted (step_eq_ok.mp hstep).2.1).queue_cases hst.quiet with
    hsame | ⟨st', row, rfl, hqueue⟩
  · exact congrArg _ hsame
  generalize σ'.store.queue = q at hqueue ⊢
  cases st' with
  | insertJob n => exact hst.elim
  | insertInput i => exact hst.elim
  | insertIdentity i =>
    obtain ⟨-, t, -, rfl⟩ := hqueue
    rfl
  | updateJob id change =>
    obtain ⟨-, rfl⟩ | ⟨old, new, hid, hchanges, -, rfl⟩ := hqueue <;> rfl

/-- The evidence of a revision after one more edge. -/
theorem evidenceOf_insertEdge {c : Contents} {x : ProvenanceEdgeRow} {t : Table ProvenanceEdgeRow}
    (ht : c.edges.insert? x = some t) (child : UUID × Nat) :
    Contents.evidenceOf { c with edges := t } child
      = if (x.childId, x.childRevision) = child then (x.parentId, x.quote) :: c.evidenceOf child
        else c.evidenceOf child := by
  rw [Contents.evidenceOf, Contents.evidenceOf, (Table.insert?_eq_some_iff.mp ht).2]
  by_cases hchild : (x.childId, x.childRevision) = child
  · rw [if_pos hchild, List.filter_cons, if_pos (decide_eq_true hchild)]
    rfl
  · rw [if_neg hchild, List.filter_cons_of_neg (by simpa using hchild)]

/-- **Statements with evidence from a list of quotes keep evidence quoted.** -/
theorem QuotesBut.step (h : QuotesBut written σ.store) (hst : Cited written evidence st)
    (hcites : ∀ x ∈ evidence, σ.store.Cites x.memoryId x.quote)
    (hstep : step platform st m σ = .ok (r, σ')) : QuotesBut written σ'.store := by
  have haccepted := Statement.accepted (step_eq_ok.mp hstep).2.1
  have hquiet := hst.quiet
  have hkept : ∀ {id quote}, σ.store.Cites id quote → σ'.store.Cites id quote := fun h =>
    h.step hquiet hstep
  have hcited : ∀ {id quote}, ⟨id, quote⟩ ∈ evidence → σ'.store.Cites id quote := fun hmem =>
    hkept (hcites _ hmem)
  -- Old sources stay cited; a new row only cites evidence that the call itself was given.
  constructor
  · intro x hx
    rcases haccepted.contents_cases hquiet with hsame | ⟨st', rfl, hcontents⟩
    · exact hkept (h.edges x (hsame ▸ hx))
    generalize σ'.store.contents = c at hcontents hx
    cases st' with
    | insertRevision new => exact hst.elim
    | insertEdge row =>
      obtain ⟨-, t, ht, rfl⟩ := hcontents
      rcases (Table.mem_insert? ht).mp hx with rfl | hold
      · exact hcited hst.2
      · exact hkept (h.edges x hold)
    | _ =>
      obtain ⟨-, t, -, rfl⟩ := hcontents
      exact hkept (h.edges x hx)
  · intro x hx
    rcases haccepted.graph_cases hquiet with hsame | ⟨st', rfl, hgraph⟩
    · exact hkept (h.evidence x (hsame ▸ hx))
    generalize σ'.store.graph = g at hgraph hx
    cases st' with
    | insertEntityEvidence row =>
      obtain ⟨-, t, ht, rfl⟩ := hgraph
      rcases (Table.mem_insert? ht).mp hx with rfl | hold
      · exact hcited hst
      · exact hkept (h.evidence x hold)
    | _ =>
      obtain ⟨-, t, -, rfl⟩ := hgraph
      exact hkept (h.evidence x hx)
  · intro x hx hother
    rcases haccepted.contents_cases hquiet with hsame | ⟨st', rfl, hcontents⟩
    · rw [hsame] at hx ⊢
      exact h.counted x hx hother
    generalize σ'.store.contents = c at hcontents hx ⊢
    cases st' with
    | insertRevision new => exact hst.elim
    | insertEdge row =>
      obtain ⟨-, t, ht, rfl⟩ := hcontents
      have hne : (row.childId, row.childRevision) ≠ key x := fun heq =>
        hother (heq ▸ hst.1)
      rw [evidenceOf_insertEdge ht, if_neg hne]
      exact h.counted x hx hother
    | _ =>
      obtain ⟨-, t, -, rfl⟩ := hcontents
      exact h.counted x hx hother
  · intro e he
    rcases haccepted.graph_cases hquiet with hsame | ⟨st', rfl, hgraph⟩
    · exact h.entities e (hsame ▸ he)
    generalize σ'.store.graph = g at hgraph he
    cases st' with
    | insertEntity row =>
      obtain ⟨-, t, ht, rfl⟩ := hgraph
      rcases (Table.mem_insert? ht).mp he with rfl | hold
      · exact hst
      · exact h.entities e hold
    | _ =>
      obtain ⟨-, t, -, rfl⟩ := hgraph
      exact h.entities e he
  · intro j hj hactive
    have hinputs := hst.inputs hstep
    have hold : ∃ request, σ.store.Requested j request := by
      rcases haccepted.queue_cases hquiet with hsame | ⟨st', row, rfl, hqueue⟩
      · exact h.jobs j (hsame ▸ hj) hactive
      · exact QuotesBut.queue h hst hqueue j hj hactive
    exact hold.imp fun request hrequested => hrequested.step hquiet hstep hinputs

/-- Minor statements are among them. -/
theorem Minor.cited (h : Minor st) : Cited written evidence st := by
  cases st with
  | content st =>
    cases st with
    | insertEpisodeEmbedding row => rfl
    | insertAssertionEmbedding row => rfl
    | _ => exact h.elim
  | queue st =>
    cases st with
    | insertIdentity row => rfl
    | updateJob id change => rfl
    | _ => exact h.elim
  | insertObject id scope kind => rfl
  | checkpoint st => rfl
  | ledger st => rfl
  | operation st => rfl
  | _ => exact h.elim

/-! ## Validated evidence -/

/-- **Validated evidence** is quoted. -/
theorem outcome_validateEvidence (scopeId : UUID) (sources : List Evidence) :
    Outcome platform timeline (validateEvidence scopeId sources)
      (fun _ _ σ' => σ' = σ ∧ ∀ x ∈ sources, σ.store.Cites x.memoryId x.quote) (fun _ => True)
      n σ := by
  unfold validateEvidence forEach
  rw [List.forM_eq_forM]
  induction sources generalizing n with
  | nil => exact ⟨rfl, fun x hx => absurd hx List.not_mem_nil⟩
  | cons x sources ih =>
    rw [List.forM_cons]
    have hone : Outcome platform timeline (do
        let source ← object x.memoryId
        demand (decide (source.scopeId = scopeId) && decide (source.kind = .episode)) .invalidEvidence
        let row ← read fun v => v.episode? x.memoryId
        demand (row.any fun episode => quoted x.quote episode.content) .invalidEvidence)
        (fun _ _ σ' => σ' = σ ∧ σ.store.Cites x.memoryId x.quote) (fun _ => True) n σ := by
      refine outcome_bind (outcome_readOnly (readOnly_object _ _) fun _ => trivial) ?_
      rintro source m σ' - rfl
      refine outcome_demand (fun _ => outcome_read ?_) fun _ => trivial
      cases hquoted : ((σ'.view (timeline.moment m)).episode? x.memoryId).any
          fun episode => quoted x.quote episode.content with
      | false => exact trivial
      | true =>
        obtain ⟨e, he, hquote⟩ := (Option.any_eq_true _ _).mp hquoted
        obtain ⟨hfound, -⟩ := Option.filter_eq_some_iff.mp he
        obtain ⟨hmem, hid⟩ := Table.find?_eq_some_iff.mp hfound
        exact ⟨rfl, e, hmem, hid, hquote⟩
    refine outcome_bind hone ?_
    rintro - m σ' - ⟨rfl, hx⟩
    refine ih.mono ?_ fun _ h => h
    rintro - m' σ'' - ⟨rfl, hrest⟩
    exact ⟨rfl, List.forall_mem_cons.mpr ⟨hx, hrest⟩⟩

/-- **A session with validated evidence**: all evidence is quoted, but for a revision that is being
written, and so is the evidence of the request. -/
structure Validated (written : Option (UUID × Nat)) (evidence : List Evidence) (σ : Session) :
    Prop where
  foreign : ForeignKeys σ.store
  quotes : QuotesBut written σ.store
  cites : ∀ x ∈ evidence, σ.store.Cites x.memoryId x.quote

theorem Validated.holding (h : Validated none evidence σ) : Holding Quotes σ := ⟨h.foreign, h.quotes⟩

theorem Validated.step (h : Validated written evidence σ) (hst : Cited written evidence st)
    (hstep : PgAgmemory.step platform st m σ = .ok (r, σ')) : Validated written evidence σ' where
  foreign := (step_eq_ok.mp hstep).2.2.1.1
  quotes := h.quotes.step hst h.cites hstep
  cites x hx := (h.cites x hx).step hst.quiet hstep

/-- A program with evidence from the list. -/
theorem Validated.sends {α : Type} {p : Tx α} (h : Validated written evidence σ)
    (hp : Sends (Cited written evidence) p) :
    Outcome platform timeline p (fun _ _ σ' => Validated written evidence σ') (fun _ => True) n σ :=
  hp.yields h fun _ _ _ _ _ hst hI hstep => hI.step hst hstep

/-- No evidence is validated. -/
theorem Holding.validated (h : Holding Quotes σ) : Validated none [] σ :=
  ⟨h.foreign, h.holds, fun _ hx => absurd hx List.not_mem_nil⟩

/-- A program without evidence. -/
theorem Holding.cited {α : Type} {p : Tx α} (h : Holding Quotes σ) (hp : Sends (Cited none []) p) :
    Maintains platform timeline (Holding Quotes) p n σ :=
  (h.validated.sends hp).mono (fun _ _ _ _ h => h.holding) fun _ h => h

/-- A program that goes on with validated evidence. -/
theorem Holding.validate {α : Type} {k : Unit → Tx α} (h : Holding Quotes σ) (scopeId : UUID)
    (hk : ∀ m, Validated none evidence σ → Maintains platform timeline (Holding Quotes) (k ()) m σ) :
    Maintains platform timeline (Holding Quotes) (validateEvidence scopeId evidence >>= k) n σ := by
  refine outcome_bind (outcome_validateEvidence scopeId evidence) ?_
  rintro - m σ' - ⟨rfl, hcites⟩
  exact hk m ⟨h.foreign, h.holds, hcites⟩

/-! ## Revisions -/

/-- A new revision has no evidence yet. -/
theorem Validated.insertRevision {new : NewRevision} (h : Validated none evidence σ)
    (hstep : PgAgmemory.step platform (.content (.insertRevision new)) m σ = .ok (r, σ')) :
    Validated (some (new.assertionId, new.revision)) evidence σ'
      ∧ σ'.store.contents.evidenceOf (new.assertionId, new.revision) = [] := by
  have hcites : ∀ {id quote}, σ.store.Cites id quote → σ'.store.Cites id quote := fun h =>
    h.step rfl hstep
  obtain ⟨c, ⟨-, t, c', ⟨hadopts, ht⟩, rfl⟩, hstore⟩ := Statement.accepted (step_eq_ok.mp hstep).2.1
  obtain ⟨hsame, -, hrevisions⟩ := hadopts.kept
  have hedges : σ'.store.contents.edges = σ.store.contents.edges := by
    rw [hstore, hsame]
    rfl
  have hevidence : ∀ child, σ'.store.contents.evidenceOf child
      = σ.store.contents.evidenceOf child := fun child => by
    rw [Contents.evidenceOf, Contents.evidenceOf, hedges]
  refine ⟨⟨(step_eq_ok.mp hstep).2.2.1.1, ⟨?_, ?_, ?_, ?_, ?_⟩, fun x hx => hcites (h.cites x hx)⟩, ?_⟩
  · intro x hx
    exact hcites (h.quotes.edges x (hedges ▸ hx))
  · intro x hx
    rw [hstore] at hx
    exact hcites (h.quotes.evidence x hx)
  · intro x hx hother
    rw [hevidence]
    rw [hstore] at hx
    rcases (Table.mem_insert? ht).mp hx with rfl | hold
    · exact absurd rfl hother
    · obtain ⟨x', hx', closed, rfl⟩ := hrevisions x hold
      exact h.quotes.counted x' hx' (Option.some_ne_none _)
  · intro e he
    rw [hstore] at he
    exact h.quotes.entities e he
  · intro j hj hactive
    have hqueue : σ'.store.queue = σ.store.queue := by
      rw [hstore]
      rfl
    obtain ⟨request, hrequested⟩ := h.quotes.jobs j (hqueue ▸ hj) hactive
    exact ⟨request, hrequested.step rfl hstep (congrArg _ hqueue)⟩
  · rw [hevidence, Contents.evidenceOf, List.map_eq_nil_iff, List.filter_eq_nil_iff]
    intro x hx hchild
    obtain ⟨old, hold, hkey⟩ :=
      h.foreign.content.edge_revision.exists_parent (Table.mem_rows.mp hx) rfl
    obtain ⟨old', hold', hkey'⟩ := hadopts.keys hold
    obtain ⟨hid, hrest⟩ := Prod.mk.inj hkey
    have hchild : key old = (new.assertionId, new.revision) :=
      (Prod.ext hid (Prod.mk.inj hrest).1).trans (of_decide_eq_true hchild)
    exact (Table.insert?_eq_some_iff.mp ht).1 old' hold' (hkey'.trans hchild)

/-- **A new revision with validated evidence.** -/
theorem Validated.revise {data : RevisionContent} (h : Validated none data.evidence σ)
    (hbounds : evidenceBounds data.evidence) (objectId scopeId : UUID) (revision : Nat) :
    Maintains platform timeline (Holding Quotes)
      (MemoryService.insertRevision platform objectId scopeId revision data) n σ := by
  refine outcome_send (fun r σ₁ hstep => ?_) fun _ _ => trivial
  obtain ⟨h₁, hnone⟩ := h.insertRevision hstep
  refine outcome_bind (outcome_children (fun s => s.contents.evidenceOf (objectId, revision))
    (g := fun x : Evidence => (x.memoryId, x.quote)) (fun x hx m σ r σ' hI hstep => ?_) h₁)
    fun _ m σ₂ _ ⟨h₂, hlisted⟩ => ?_
  · refine ⟨hI.step (Cited.edge hx _ _ _) hstep, ?_⟩
    obtain ⟨c, ⟨-, t, ht, rfl⟩, hstore⟩ := Statement.accepted (step_eq_ok.mp hstep).2.1
    rw [hstore]
    exact (evidenceOf_insertEdge ht _).trans (if_pos rfl)
  · have hcount : (σ₂.store.contents.evidenceOf (objectId, revision)).length
        = data.evidence.length := by
      rw [hlisted, hnone, List.append_nil, List.length_reverse, List.length_map]
    have hquotes : Quotes σ₂.store := by
      refine { h₂.quotes with counted := fun x hx _ => ?_ }
      by_cases hkey : key x = (objectId, revision)
      · rw [hkey, hcount]
        exact hbounds
      · exact h₂.quotes.counted x hx fun heq => hkey (Option.some.inj heq)
    refine Holding.cited ⟨h₂.foreign, hquotes⟩ ?_
    exact (readOnly_read _).sends.bind fun _ => (readOnly_found _ _).sends.bind fun _ =>
      (readOnly_segment platform _).sends.bind fun _ => sends_send rfl

/-! ## Operations -/

/-- A new object has no evidence. -/
theorem cited_newObject (scopeId : UUID) (kind : ObjectKind) :
    Sends (Cited written evidence) (newObject scopeId kind) := by
  refine sends_newObject fun id => ?_
  exact rfl

/-- What ends an operation. -/
theorem Cited.operation {st : OperationStatement} : Cited written evidence (.operation st) := rfl

theorem Cited.assertion {id scope : UUID} {subject : ShortText} {predicate : Predicate}
    {isRelation : Bool} :
    Cited written evidence (.content (.insertAssertion id scope subject predicate isRelation)) := rfl

theorem Cited.identity {row : JobIdentityRow} :
    Cited written evidence (.queue (.insertIdentity row)) := rfl

theorem Cited.relation {row : RelationRow} : Cited written evidence (.graph (.insertRelation row)) := rfl

theorem Cited.target {row : RelationRevisionRow} :
    Cited written evidence (.graph (.insertTarget row)) := rfl

theorem Holding.publishQuoted (h : Holding Quotes σ) (data : Remember) :
    Maintains platform timeline (Holding Quotes) (MemoryService.publishAssertion platform data)
      n σ := by
  refine maintains_reading h (readOnly_scope _ _) fun _ _ h => h.validate _ fun _ h => ?_
  refine outcome_bind (h.sends (cited_newObject _ _)) fun id m σ₁ _ h₁ => ?_
  refine outcome_bind (h₁.sends (sends_send Cited.assertion)) fun _ m σ₂ _ h₂ => ?_
  exact maintains_bind (h₂.revise data.bounds _ _ _) fun _ _ _ h₃ =>
    h₃.cited ((sends_send Cited.operation).bind fun _ => trivial)

theorem Holding.reviseQuoted (h : Holding Quotes σ) (objectId : UUID) (data : ReviseAssertion)
    (key : String) :
    Maintains platform timeline (Holding Quotes)
      (MemoryService.reviseAssertion platform objectId data key) n σ := by
  refine maintains_reading h (readOnly_object _ _) fun obj _ h => maintains_reading h
    (readOnly_demand _ _) fun _ _ h => maintains_once h (fun _ => readOnly_pure _) fun kd rd m => ?_
  refine maintains_reading h (readOnly_read _) fun _ _ h => maintains_reading h (readOnly_found _ _)
    fun head _ h => maintains_reading h (readOnly_demand _ _) fun _ _ h => maintains_reading h
      (readOnly_demand _ _) fun _ _ h => maintains_reading h (readOnly_demand _ _) fun _ _ h =>
        h.validate _ fun _ h => ?_
  exact maintains_bind (h.revise data.bounds _ _ _) fun _ _ _ h' =>
    h'.cited ((sends_send Cited.operation).bind fun _ => (sends_send Cited.operation).bind
      fun _ => trivial)

theorem Holding.relateQuoted (h : Holding Quotes σ) (data : CreateRelation) (key : String) :
    Maintains platform timeline (Holding Quotes) (SqlGraph.createRelation platform data key) n σ := by
  refine maintains_reading h (readOnly_scope _ _) fun _ _ h => maintains_once h
    (fun _ => readOnly_pure _) fun kd rd m => ?_
  refine maintains_reading h (readOnly_endpoint _ _) fun source _ h => maintains_reading h
    (readOnly_endpoint _ _) fun target _ h => h.validate _ fun _ h => ?_
  refine outcome_bind (h.sends (cited_newObject _ _)) fun id m σ₁ _ h₁ => ?_
  refine outcome_bind (h₁.sends (sends_send Cited.assertion)) fun _ m σ₂ _ h₂ => ?_
  refine outcome_bind (h₂.sends (sends_send Cited.relation)) fun _ m σ₃ _ h₃ => ?_
  exact maintains_bind (h₃.revise data.bounds _ _ _) fun _ _ _ h' =>
    h'.cited ((sends_send Cited.target).bind fun _ => (sends_send Cited.operation).bind fun _ =>
      (sends_send Cited.operation).bind fun _ => trivial)

theorem Holding.reviseRelationQuoted (h : Holding Quotes σ) (assertionId : UUID)
    (data : ReviseRelation) (key : String) :
    Maintains platform timeline (Holding Quotes)
      (SqlGraph.reviseRelation platform assertionId data key) n σ := by
  refine maintains_reading h (readOnly_object _ _) fun obj _ h => maintains_reading h
    (readOnly_read _) fun _ _ h => maintains_reading h (readOnly_found _ _) fun head _ h =>
      maintains_once h (fun _ => readOnly_pure _) fun kd rd m => ?_
  refine maintains_reading h (readOnly_demand _ _) fun _ _ h => maintains_reading h
    (readOnly_demand _ _) fun _ _ h => maintains_reading h (readOnly_endpoint _ _) fun target _ h =>
      h.validate _ fun _ h => ?_
  exact maintains_bind (h.revise data.bounds _ _ _) fun _ _ _ h' =>
    h'.cited ((sends_send Cited.target).bind fun _ => (sends_send Cited.operation).bind fun _ =>
      (sends_send Cited.operation).bind fun _ => trivial)

/-- **A new entity with validated evidence.** -/
theorem Holding.createQuoted (h : Holding Quotes σ) (data : CreateEntity) (key : String) :
    Maintains platform timeline (Holding Quotes) (SqlGraph.createEntity platform data key) n σ := by
  refine maintains_reading h (readOnly_scope _ _) fun _ _ h => maintains_once h
    (fun r => readOnly_entityReplayed r) fun kd rd m => h.validate _ fun _ h => ?_
  refine (h.sends ?_).mono (fun _ _ _ _ h => h.holding) fun _ h => h
  refine (cited_newObject _ _).bind fun id => (sends_send ?_).bind fun _ => ?_
  · exact data.bounds
  refine (sends_forEach fun x hx => sends_send ?_).bind fun _ => ?_
  · exact hx
  exact (sends_send Cited.operation).bind fun _ => (sends_send Cited.operation).bind fun _ => trivial

/-- An episode has no evidence. -/
theorem cited_recordEvent (data : Observe) (requestDigest : Digest) :
    Sends (Cited none []) (MemoryService.recordEvent platform data requestDigest) := by
  refine (readOnly_digest platform _).sends.bind fun _ => (readOnly_read _).sends.bind fun row => ?_
  split
  · exact ((readOnly_demand _ _).bind fun _ => (readOnly_object _ _).bind fun _ =>
      readOnly_pure _).sends
  · refine (cited_newObject _ _).bind fun id => (sends_send ?_).bind fun _ =>
      (readOnly_segment platform _).sends.bind fun _ => (sends_send ?_).bind fun _ => ?_
    · rfl
    · rfl
    · exact (sends_send Cited.operation).bind fun _ => (sends_send Cited.operation).bind
        fun _ => trivial

/-! ## Jobs -/

/-- **A session with a job of a request**, whose inputs are being written. -/
structure Enqueued (id : UUID) (request : Remember) (σ : Session) : Prop where
  validated : Validated none request.evidence σ
  payload : ∀ j ∈ σ.store.queue.jobs, j.id = id → j.payload = some request.dump

/-- **A new job** has no inputs yet. -/
theorem Validated.insertJob {request : Remember} {new : NewJob}
    (h : Validated none request.evidence σ) (hpayload : new.payload = request.dump)
    (hscope : request.scopeId = new.scopeId) (hcount : new.referenceCount = request.evidence.length)
    (hstep : PgAgmemory.step platform (.queue (.insertJob new)) m σ = .ok (r, σ')) :
    Enqueued new.id request σ' := by
  have hcites : ∀ {id quote}, σ.store.Cites id quote → σ'.store.Cites id quote := fun h =>
    h.step rfl hstep
  obtain ⟨row, q, ⟨-, t, ht, rfl⟩, hstore⟩ := Statement.accepted (step_eq_ok.mp hstep).2.1
  have hcontents : σ'.store.contents = σ.store.contents := by
    rw [hstore]
    rfl
  have hgraph : σ'.store.graph = σ.store.graph := by
    rw [hstore]
    rfl
  have hinputs : σ'.store.queue.inputs = σ.store.queue.inputs := by
    rw [hstore]
    rfl
  have hnew : ∀ i ∈ σ.store.queue.inputs, i.jobId ≠ new.id := by
    intro i hi hid
    obtain ⟨j, hj, hkey⟩ := h.foreign.queue.input_job.exists_parent hi rfl
    exact (Table.insert?_eq_some_iff.mp ht).1 j hj ((Prod.mk.inj hkey).1.trans hid)
  have hrow : σ'.store.Requested (new.row (σ.view m) m) request :=
    ⟨congrArg some hpayload, hscope, hcount, fun x hx => hcites (h.cites x hx), fun i hi hid =>
      absurd hid (hnew i (hinputs ▸ hi))⟩
  have hjobs : ∀ j ∈ σ'.store.queue.jobs, j = new.row (σ.view m) m ∨ j ∈ σ.store.queue.jobs := by
    intro j hj
    rw [hstore] at hj
    exact (Table.mem_insert? ht).mp hj
  refine ⟨⟨(step_eq_ok.mp hstep).2.2.1.1, ⟨?_, ?_, ?_, ?_, ?_⟩, fun x hx => hcites (h.cites x hx)⟩, ?_⟩
  · exact fun x hx => hcites (h.quotes.edges x (hcontents ▸ hx))
  · exact fun x hx => hcites (h.quotes.evidence x (hgraph ▸ hx))
  · rw [hcontents]
    exact h.quotes.counted
  · rw [hgraph]
    exact h.quotes.entities
  · intro j hj hactive
    rcases hjobs j hj with rfl | hold
    · exact ⟨request, hrow⟩
    · obtain ⟨other, hrequested⟩ := h.quotes.jobs j hold hactive
      exact ⟨other, hrequested.step rfl hstep hinputs⟩
  · intro j hj hid
    rcases hjobs j hj with rfl | hold
    · exact hrow.payload
    · exact absurd hid ((Table.insert?_eq_some_iff.mp ht).1 j hold)

/-- **An input of the job** is an episode of its request. -/
theorem Enqueued.insertInput {request : Remember} {id : UUID} {input : JobInputRow}
    (h : Enqueued id request σ) (hof : input.jobId = id)
    (hsource : input.sourceId ∈ request.evidence.map Evidence.memoryId)
    (hstep : PgAgmemory.step platform (.queue (.insertInput input)) m σ = .ok (r, σ')) :
    Enqueued id request σ' := by
  have hcites : ∀ {id quote}, σ.store.Cites id quote → σ'.store.Cites id quote := fun h =>
    h.step rfl hstep
  obtain ⟨row, q, ⟨-, t, ht, rfl⟩, hstore⟩ := Statement.accepted (step_eq_ok.mp hstep).2.1
  have hcontents : σ'.store.contents = σ.store.contents := by
    rw [hstore]
    rfl
  have hgraph : σ'.store.graph = σ.store.graph := by
    rw [hstore]
    rfl
  have hjobs : σ'.store.queue.jobs = σ.store.queue.jobs := by
    rw [hstore]
    rfl
  have hinputs : ∀ i ∈ σ'.store.queue.inputs, i = input ∨ i ∈ σ.store.queue.inputs := by
    intro i hi
    rw [hstore] at hi
    exact (Table.mem_insert? ht).mp hi
  have hvalidated := h.validated
  refine ⟨⟨(step_eq_ok.mp hstep).2.2.1.1, ⟨?_, ?_, ?_, ?_, ?_⟩,
    fun x hx => hcites (hvalidated.cites x hx)⟩, hjobs ▸ h.payload⟩
  · exact fun x hx => hcites (hvalidated.quotes.edges x (hcontents ▸ hx))
  · exact fun x hx => hcites (hvalidated.quotes.evidence x (hgraph ▸ hx))
  · rw [hcontents]
    exact hvalidated.quotes.counted
  · rw [hgraph]
    exact hvalidated.quotes.entities
  · intro j hj hactive
    obtain ⟨other, hrequested⟩ := hvalidated.quotes.jobs j (hjobs ▸ hj) hactive
    refine ⟨other, { hrequested with
      quoted := fun x hx => hcites (hrequested.quoted x hx), inputs := fun i hi hid => ?_ }⟩
    rcases hinputs i hi with rfl | hold
    · have hpayload := h.payload j (hjobs ▸ hj) (hid.symm.trans hof)
      obtain rfl : request = other :=
        Remember.dump_inj.mp (Option.some.inj (hpayload.symm.trans hrequested.payload))
      exact hsource
    · exact hrequested.inputs i hold hid

/-- **A new job with validated evidence.** -/
theorem Holding.enqueueQuoted (h : Holding Quotes σ) (data : EnqueueJob) (retryOf : Option UUID)
    (intent identity : Digest) :
    Maintains platform timeline (Holding Quotes) (Jobs.insertJob data retryOf intent identity)
      n σ := by
  unfold Jobs.insertJob
  refine maintains_reading h (readOnly_read _) fun _ _ h => maintains_reading h
    (readOnly_demand _ _) fun _ _ h => h.validate _ fun _ h => ?_
  refine outcome_bind (h.sends (cited_newObject _ _)) fun id m σ₁ _ h₁ => ?_
  generalize hpayload : data.memory.dump = payload
  refine outcome_send (fun r σ₂ hstep => ?_) fun _ _ => trivial
  have h₂ : Enqueued id data.memory σ₂ := h₁.insertJob hpayload.symm rfl rfl hstep
  have hinputs : Sends (fun st => ∃ x ∈ data.memory.evidence,
      st = .queue (.insertInput ⟨id, data.memory.scopeId, x.memoryId⟩))
      (forEach data.memory.evidence fun evidence =>
        send (.queue (.insertInput ⟨id, data.memory.scopeId, evidence.memoryId⟩))) :=
    sends_forEach fun x hx => sends_send ⟨x, hx, rfl⟩
  refine outcome_bind (hinputs.yields h₂ ?_) fun _ m σ₃ _ h₃ => ?_
  · rintro _ m σ r σ' ⟨x, hx, rfl⟩ hI hstep
    exact hI.insertInput rfl (List.mem_map_of_mem hx) hstep
  · refine h₃.validated.holding.cited ?_
    exact (readOnly_read _).sends.bind fun _ => (sends_send Cited.identity).bind fun _ =>
      (sends_send Cited.operation).bind fun _ => trivial

variable (platform) in
/-- **Every operation but `forget` keeps evidence quoted.** -/
theorem maintained_quotes : Maintained platform Quotes where
  provisioned _ := {
    edges := fun x hx => absurd hx (Table.not_mem_empty x)
    evidence := fun x hx => absurd hx (Table.not_mem_empty x)
    counted := fun x hx => absurd hx (Table.not_mem_empty x)
    entities := fun x hx => absurd hx (Table.not_mem_empty x)
    jobs := fun x hx => absurd hx (Table.not_mem_empty x) }
  parts _ := {
    minor := fun hst h hstep => (h.validated.step hst.cited hstep).holding
    episode := fun data rd _ h => h.cited (cited_recordEvent data rd)
    assertion := fun data _ h => h.publishQuoted data
    correction := fun objectId data key _ h => h.reviseQuoted objectId data key
    entity := fun data key _ h => h.createQuoted data key
    relation := fun data key _ h => h.relateQuoted data key
    relationCorrection := fun assertionId data key _ h => h.reviseRelationQuoted assertionId data key
    job := fun data retryOf intent identity _ h => h.enqueueQuoted data retryOf intent identity }
  access _ _ _ h := ⟨h.edges, h.evidence, h.counted, h.entities, fun j hj hactive =>
    (h.jobs j hj hactive).imp fun _ hr => ⟨hr.payload, hr.scope, hr.count, hr.quoted, hr.inputs⟩⟩

end Statements

end PgAgmemory

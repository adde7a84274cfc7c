import PgAgmemory.Forgetting.Outcome

/-! # What a purge does to a store

The outcome of a committed purge without its moments (`Purged`): a coherent erasure, the next deletion
epoch, marks on nothing but what is gone for every statement, and one more receipt, deletion and audit
entry. Invariants of runs are kept by purges on these grounds alone. -/

namespace PgAgmemory

open Keyed (HasKey Table key)

/-! ## Content -/

/-- **Content of an object**: a row of one of the tables of content that belongs to it. -/
inductive HasContent (s : Store) : UUID → Prop where
  | episode {r : EpisodeRow} (h : r ∈ s.contents.episodes) : HasContent s r.id
  | assertion {r : AssertionRow} (h : r ∈ s.contents.assertions) : HasContent s r.id
  | revision {r : AssertionRevisionRow} (h : r ∈ s.contents.revisions) : HasContent s r.assertionId
  | edge {r : ProvenanceEdgeRow} (h : r ∈ s.contents.edges) : HasContent s r.childId
  | episodeLexical {r : EpisodeLexicalRow} (h : r ∈ s.contents.episodeLexical) :
    HasContent s r.episodeId
  | assertionLexical {r : AssertionLexicalRow} (h : r ∈ s.contents.assertionLexical) :
    HasContent s r.assertionId
  | episodeEmbedding {r : EpisodeEmbeddingRow} (h : r ∈ s.contents.episodeEmbeddings) :
    HasContent s r.episodeId
  | assertionEmbedding {r : AssertionEmbeddingRow} (h : r ∈ s.contents.assertionEmbeddings) :
    HasContent s r.assertionId
  | entity {r : EntityRow} (h : r ∈ s.graph.entities) : HasContent s r.id
  | evidence {r : EntityEvidenceRow} (h : r ∈ s.graph.evidence) : HasContent s r.entityId
  | relation {r : RelationRow} (h : r ∈ s.graph.relations) : HasContent s r.id
  | target {r : RelationRevisionRow} (h : r ∈ s.graph.targets) : HasContent s r.assertionId
  | checkpoint {r : CheckpointRow} (h : r ∈ s.checkpointing.checkpoints) : HasContent s r.id
  | checkpointReference {r : CheckpointReferenceRow} (h : r ∈ s.checkpointing.references) :
    HasContent s r.checkpointId
  | effect {r : ToolEffectRow} (h : r ∈ s.ledger.effects) : HasContent s r.id
  | effectRevision {r : ToolEffectRevisionRow} (h : r ∈ s.ledger.revisions) : HasContent s r.effectId
  | effectReference {r : ToolEffectReferenceRow} (h : r ∈ s.ledger.references) :
    HasContent s r.effectId
  | job {r : JobRow} (h : r ∈ s.queue.jobs) : HasContent s r.id
  | jobInput {r : JobInputRow} (h : r ∈ s.queue.inputs) : HasContent s r.jobId

/-- **What an erasure leaves of an object** was not gone for some statement. -/
theorem HasContent.kept {s : Store} {gone : Gone} {id : UUID} (h : HasContent (s.erase gone) id) :
    ∃ p, gone p id = false := by
  cases h with
  | episode h => exact ⟨_, (Table.mem_delete.mp h).2⟩
  | assertion h => exact ⟨_, (Table.mem_delete.mp h).2⟩
  | revision h => exact ⟨_, (Table.mem_delete.mp h).2⟩
  | edge h => exact ⟨_, (Table.mem_delete.mp h).2⟩
  | episodeLexical h => exact ⟨_, (Table.mem_delete.mp h).2⟩
  | assertionLexical h => exact ⟨_, (Table.mem_delete.mp h).2⟩
  | episodeEmbedding h => exact ⟨_, (Table.mem_delete.mp h).2⟩
  | assertionEmbedding h => exact ⟨_, (Table.mem_delete.mp h).2⟩
  | entity h => exact ⟨_, (Table.mem_delete.mp h).2⟩
  | evidence h => exact ⟨_, (Table.mem_delete.mp h).2⟩
  | relation h => exact ⟨_, (Table.mem_delete.mp h).2⟩
  | target h => exact ⟨_, (Table.mem_delete.mp h).2⟩
  | checkpoint h => exact ⟨_, (Table.mem_delete.mp h).2⟩
  | checkpointReference h => exact ⟨_, (Table.mem_delete.mp h).2⟩
  | effect h => exact ⟨_, (Table.mem_delete.mp h).2⟩
  | effectRevision h => exact ⟨_, (Table.mem_delete.mp h).2⟩
  | effectReference h => exact ⟨_, (Table.mem_delete.mp h).2⟩
  | job h => exact ⟨_, (Table.mem_delete.mp h).2⟩
  | jobInput h => exact ⟨_, (Table.mem_delete.mp h).2⟩

/-- The content of an object depends on the tables of content only. -/
theorem HasContent.congr {s s' : Store} {id : UUID} (h : HasContent s' id)
    (hcontents : s'.contents = s.contents) (hgraph : s'.graph = s.graph)
    (hcheckpointing : s'.checkpointing = s.checkpointing) (hledger : s'.ledger = s.ledger)
    (hqueue : s'.queue = s.queue) : HasContent s id := by
  obtain ⟨access, anchor, contents, graph, checkpointing, ledger, queue, operations⟩ := s'
  dsimp only at hcontents hgraph hcheckpointing hledger hqueue
  subst hcontents hgraph hcheckpointing hledger hqueue
  cases h <;> constructor <;> assumption

/-! ## Purges -/

/-- **A purge of a store**, by what is gone. -/
structure Purged (s s' : Store) (gone : Gone) : Prop where
  coherent : Coherent s gone
  /-- What is gone belongs to a live object. -/
  live : ∀ p id, gone p id = true → Untombstoned s id
  /-- No head is left without its current revision. -/
  heads : ∀ a ∈ s.contents.assertions, gone .assertions a.id = gone .revisions a.id
  effectHeads : ∀ e ∈ s.ledger.effects, gone .effects e.id = gone .effectRevisions e.id
  access : s'.access = { s.access with deletionEpoch := s.access.deletionEpoch + 1 }
  objects : s'.anchor.objects = s.anchor.objects
  marked : ∀ t, t ∈ s.anchor.tombstones → t ∈ s'.anchor.tombstones
  marks : ∀ t, t ∈ s'.anchor.tombstones → t ∈ s.anchor.tombstones ∨ ∀ p, gone p t.objectId = true
  contents : s'.contents = (s.erase gone).contents
  graph : s'.graph = (s.erase gone).graph
  checkpointing : s'.checkpointing = (s.erase gone).checkpointing
  ledger : s'.ledger = (s.erase gone).ledger
  queue : s'.queue = (s.erase gone).queue
  sourceEvents : s'.operations.sourceEvents = s.operations.sourceEvents
  receipts : ∃ receipt, receipt.operation = .forget ∧ receipt.result.objects = []
    ∧ ∀ r, r ∈ s'.operations.receipts ↔ r = receipt ∨ r ∈ s.operations.receipts
  audit : ∃ entry : AuditEventRow, entry.id = s.operations.nextAudit
    ∧ ∀ r, r ∈ s'.operations.audit ↔ r = entry ∨ r ∈ s.operations.audit
  nextAudit : s'.operations.nextAudit = s.operations.nextAudit + 1

/-- What is gone for every statement has no content left. -/
theorem Purged.not_hasContent {s s' : Store} {gone : Gone} (h : Purged s s' gone) {id : UUID}
    (hgone : ∀ p, gone p id = true) : ¬ HasContent s' id := by
  intro hcontent
  obtain ⟨p, hkept⟩ := (hcontent.congr h.contents h.graph h.checkpointing h.ledger h.queue).kept
  rw [hgone p] at hkept
  exact Bool.noConfusion hkept

section Outcome

variable {platform : Platform} {timeline : Timeline} {principal : UUID} {s s' : Store} {data : Forget}
  {key : String}

/-- What is gone for the last statement is gone for all. -/
theorem goneAt_of_mark (hs : Grounded s) {targets : List UUID} {n : Nat}
    (h : Targets timeline principal s targets n) {o : ObjectRow} (ho : o ∈ s.anchor.objects)
    (hid : o.id ∈ targets)
    (hread : (viewAt timeline principal s (n + 17)).permitted o.scopeId .read = true)
    (p : PurgeStep) : goneAt timeline principal s targets n p o.id = true := by
  rw [goneAt_eq hs h ⟨o, ho, rfl, rfl⟩, Bool.and_eq_true]
  have hrank := p.rank_lt
  exact ⟨decide_eq_true hid, permitted_viewAt_of_le (by omega) hread⟩

/-- The head of an assertion or effect goes with its revisions, where nothing was cut. -/
theorem goneAt_head (hs : Grounded s) {targets : List UUID} {n : Nat}
    (h : Targets timeline principal s targets n) {id scope : UUID} (ha : Anchored s id scope)
    {p q : PurgeStep} (hrank : p.rank ≤ q.rank)
    (hcut : ¬ (id ∈ targets ∧ (viewAt timeline principal s (n + p.rank)).permitted scope .read = true
      ∧ (viewAt timeline principal s (n + q.rank)).permitted scope .read = false)) :
    goneAt timeline principal s targets n q id = goneAt timeline principal s targets n p id := by
  rw [Bool.eq_iff_iff]
  constructor
  · exact (coherent_goneAt hs h).earlier p q id hrank
  · intro hgone
    rw [goneAt_eq hs h ha, Bool.and_eq_true, decide_eq_true_eq] at hgone ⊢
    refine ⟨hgone.1, ?_⟩
    by_contra hlost
    rw [Bool.not_eq_true] at hlost
    exact hcut ⟨hgone.1, hgone.2, hlost⟩

/-- **A committed purge is a purge of the store.** -/
theorem PurgeLeaves.purged (hs : Grounded s) (hadmits : Admits platform timeline principal s data key)
    (hrefused : ¬ PurgeRefused timeline principal s data)
    (h : PurgeLeaves platform timeline principal s data key s') :
    Purged s s' (goneAt timeline principal s (targetsOf timeline principal s data)
      (closureMoment data + 1)) := by
  obtain ⟨tombstones, operations, hmarks, hrecords, rfl⟩ := h
  have htargets := targets_targetsOf hs hadmits.deletable
  have hcut : ¬ Cut timeline principal s (targetsOf timeline principal s data)
      (closureMoment data + 1) := fun hcut => hrefused (Or.inr (Or.inr hcut))
  exact {
    coherent := coherent_goneAt hs htargets
    live := fun p id hgone => by
      obtain ⟨scope, ha⟩ := anchored_of_goneAt hgone
      rw [goneAt_eq hs htargets ha, Bool.and_eq_true, decide_eq_true_eq] at hgone
      exact htargets.live id hgone.1
    heads := fun a ha => goneAt_head hs htargets (hs.assertion ha).anchored (by decide)
      fun hlost => hcut (Or.inl ⟨a, ha, hlost⟩)
    effectHeads := fun e he => goneAt_head hs htargets (hs.effect he).anchored (by decide)
      fun hlost => hcut (Or.inr ⟨e, he, hlost⟩)
    access := rfl
    objects := rfl
    marked := fun t ht => (hmarks t).mpr (Or.inl ht)
    marks := fun t ht => by
      rcases (hmarks t).mp ht with hold | ⟨o, ho, hid, hread, rfl⟩
      · exact Or.inl hold
      · exact Or.inr (goneAt_of_mark hs htargets ho hid hread)
    contents := rfl
    graph := rfl
    checkpointing := rfl
    ledger := rfl
    queue := rfl
    sourceEvents := hrecords.sourceEvents
    receipts := ⟨_, rfl, rfl, hrecords.receipts⟩
    audit := ⟨_, rfl, hrecords.audit⟩
    nextAudit := hrecords.nextAudit }

end Outcome

end PgAgmemory

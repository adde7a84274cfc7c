import PgAgmemory.Service.Forget
import PgAgmemory.System.Visibility

/-! # Derivation

What an object is derived from, as the reference columns of the tables say it (`Derives`). In a
grounded store every derivation stays inside one scope, and the closure query of `forget` sees it
whenever that scope is readable (`Grounded.derives`); what the query sees is a derivation
(`Derives.of_dependencies`). -/

namespace PgAgmemory

open Keyed (HasKey Table key)
open Keyed.Table (References)

/-- **Derivation**: the second object has a row that refers to the first, or is a checkpoint of the run
of the first. -/
inductive Derives (s : Store) : UUID → UUID → Prop where
  | evidence {r : ProvenanceEdgeRow} (h : r ∈ s.contents.edges) : Derives s r.parentId r.childId
  | input {r : JobInputRow} (h : r ∈ s.queue.inputs) : Derives s r.sourceId r.jobId
  | result {j : JobRow} {a : UUID} (h : j ∈ s.queue.jobs) (ha : j.resultId = some a) :
    Derives s a j.id
  | retry {j : JobRow} {p : UUID} (h : j ∈ s.queue.jobs) (hp : j.retryOf = some p) : Derives s p j.id
  | entityEvidence {r : EntityEvidenceRow} (h : r ∈ s.graph.evidence) :
    Derives s r.sourceId r.entityId
  | source {r : RelationRow} (h : r ∈ s.graph.relations) : Derives s r.sourceId r.id
  | target {r : RelationRevisionRow} (h : r ∈ s.graph.targets) : Derives s r.targetId r.assertionId
  | checkpointReference {r : CheckpointReferenceRow} (h : r ∈ s.checkpointing.references) :
    Derives s r.sourceId r.checkpointId
  | parent {c : CheckpointRow} {p : UUID} (h : c ∈ s.checkpointing.checkpoints)
    (hp : c.parentId = some p) : Derives s p c.id
  | effectReference {r : ToolEffectReferenceRow} (h : r ∈ s.ledger.references) :
    Derives s r.sourceId r.effectId
  | run {e : ToolEffectRow} {c : CheckpointRow} (he : e ∈ s.ledger.effects)
    (hc : c ∈ s.checkpointing.checkpoints) (hscope : c.scopeId = e.scopeId)
    (hrun : c.runId = e.runId) : Derives s e.id c.id

/-- **What the closure query sees is a derivation.** -/
theorem Derives.of_dependencies {v : View} {a b : UUID} (h : (a, b) ∈ v.dependencies) :
    Derives v.store a b := by
  simp only [View.dependencies, List.mem_append, List.mem_map, List.mem_filterMap,
    List.mem_flatMap, Prod.mk.injEq, Option.map_eq_some_iff] at h
  rcases h with (((((((((⟨r, hr, rfl, rfl⟩ | ⟨r, hr, rfl, rfl⟩) | ⟨j, hj, p, hp, rfl, rfl⟩)
    | ⟨j, hj, p, hp, rfl, rfl⟩) | ⟨r, hr, rfl, rfl⟩) | ⟨r, hr, rfl, rfl⟩) | ⟨r, hr, rfl, rfl⟩)
    | ⟨r, hr, rfl, rfl⟩) | ⟨c, hc, p, hp, rfl, rfl⟩) | ⟨r, hr, rfl, rfl⟩) | ⟨e, he, c, hc, rfl, rfl⟩
  · exact .evidence (List.mem_filter.mp hr).1
  · exact .input (List.mem_filter.mp hr).1
  · exact .result (List.mem_filter.mp hj).1 hp
  · exact .retry (List.mem_filter.mp hj).1 hp
  · exact .entityEvidence (List.mem_filter.mp hr).1
  · exact .source (List.mem_filter.mp hr).1
  · exact .target (List.mem_filter.mp hr).1
  · exact .checkpointReference (List.mem_filter.mp hr).1
  · exact .parent (List.mem_filter.mp hc).1 hp
  · exact .effectReference (List.mem_filter.mp hr).1
  · obtain ⟨hvisible, hsame⟩ := List.mem_filter.mp hc
    rw [Bool.and_eq_true, decide_eq_true_eq, decide_eq_true_eq] at hsame
    exact .run (List.mem_filter.mp he).1 (List.mem_filter.mp hvisible).1 hsame.1 hsame.2

/-- The closure query sees what it derives. -/
theorem View.visible_of_dependencies {v : View} {a b : UUID} (h : (a, b) ∈ v.dependencies) :
    v.visible b = true := by
  simp only [dependencies, List.mem_append, List.mem_map, List.mem_filterMap, List.mem_flatMap,
    Prod.mk.injEq, Option.map_eq_some_iff] at h
  rcases h with (((((((((⟨r, hr, -, rfl⟩ | ⟨r, hr, -, rfl⟩) | ⟨j, hj, p, -, -, rfl⟩)
    | ⟨j, hj, p, -, -, rfl⟩) | ⟨r, hr, -, rfl⟩) | ⟨r, hr, -, rfl⟩) | ⟨r, hr, -, rfl⟩)
    | ⟨r, hr, -, rfl⟩) | ⟨c, hc, p, -, -, rfl⟩) | ⟨r, hr, -, rfl⟩) | ⟨e, -, c, hc, -, rfl⟩
  · exact (Bool.and_eq_true_iff.mp (List.mem_filter.mp hr).2).1
  · exact (Bool.and_eq_true_iff.mp (List.mem_filter.mp hr).2).1
  · exact (List.mem_filter.mp hj).2
  · exact (List.mem_filter.mp hj).2
  · exact (Bool.and_eq_true_iff.mp (List.mem_filter.mp hr).2).1
  · exact (Bool.and_eq_true_iff.mp (List.mem_filter.mp hr).2).1
  · exact (Bool.and_eq_true_iff.mp (Bool.and_eq_true_iff.mp (List.mem_filter.mp hr).2).1).1
  · exact (Bool.and_eq_true_iff.mp (List.mem_filter.mp hr).2).1
  · exact (List.mem_filter.mp hc).2
  · exact (Bool.and_eq_true_iff.mp (List.mem_filter.mp hr).2).1
  · exact (List.mem_filter.mp (List.mem_filter.mp hc).1).2

/-! ## Live objects -/

/-- An object of a scope. -/
def Anchored (s : Store) (id scope : UUID) : Prop :=
  ∃ o ∈ s.anchor.objects, o.id = id ∧ o.scopeId = scope

/-- An object has one scope. -/
theorem Anchored.unique {s : Store} {id scope scope' : UUID} (h : Anchored s id scope)
    (h' : Anchored s id scope') : scope = scope' := by
  obtain ⟨o, ho, hid, rfl⟩ := h
  obtain ⟨o', ho', hid', rfl⟩ := h'
  rw [Table.eq_of_key_eq ho ho' (hid.trans hid'.symm)]

/-- An object of a scope that no tombstone marks. -/
structure Live (s : Store) (id scope : UUID) : Prop where
  anchored : Anchored s id scope
  free : Untombstoned s id

/-- The rows with content belong to objects that no tombstone marks. -/
structure Clean (s : Store) : Prop where
  episodes : ∀ r ∈ s.contents.episodes, Untombstoned s r.id
  assertions : ∀ r ∈ s.contents.assertions, Untombstoned s r.id
  entities : ∀ r ∈ s.graph.entities, Untombstoned s r.id
  checkpoints : ∀ r ∈ s.checkpointing.checkpoints, Untombstoned s r.id
  effects : ∀ r ∈ s.ledger.effects, Untombstoned s r.id
  jobs : ∀ r ∈ s.queue.jobs, Untombstoned s r.id

/-- The kinds that a reference of a checkpoint or an effect may have. -/
def referable (kind : ObjectKind) : Prop := kind = .episode ∨ kind = .assertion ∨ kind = .entity

/-- References name episodes, assertions and entities. -/
structure Sourced (s : Store) : Prop where
  checkpoint : ∀ r ∈ s.checkpointing.references, referable r.sourceKind
  effect : ∀ r ∈ s.ledger.references, referable r.sourceKind

/-- **A grounded store**: foreign keys hold, content is not deleted, references name content. -/
structure Grounded (s : Store) : Prop where
  foreign : ForeignKeys s
  clean : Clean s
  sourced : Sourced s

namespace Grounded

variable {s : Store}

theorem episode (h : Grounded s) {r : EpisodeRow} (hr : r ∈ s.contents.episodes) :
    Live s r.id r.scopeId := by
  obtain ⟨o, ho, hkey⟩ := h.foreign.content.episode_object.exists_parent hr rfl
  simp only [Prod.mk.injEq] at hkey
  exact ⟨⟨o, ho, hkey.1, hkey.2.1⟩, h.clean.episodes r hr⟩

theorem assertion (h : Grounded s) {r : AssertionRow} (hr : r ∈ s.contents.assertions) :
    Live s r.id r.scopeId := by
  obtain ⟨o, ho, hkey⟩ := h.foreign.content.assertion_object.exists_parent hr rfl
  simp only [Prod.mk.injEq] at hkey
  exact ⟨⟨o, ho, hkey.1, hkey.2.1⟩, h.clean.assertions r hr⟩

theorem entity (h : Grounded s) {r : EntityRow} (hr : r ∈ s.graph.entities) :
    Live s r.id r.scopeId := by
  obtain ⟨o, ho, hkey⟩ := h.foreign.graph.entity_object.exists_parent hr rfl
  simp only [Prod.mk.injEq] at hkey
  exact ⟨⟨o, ho, hkey.1, hkey.2.1⟩, h.clean.entities r hr⟩

theorem checkpoint (h : Grounded s) {r : CheckpointRow} (hr : r ∈ s.checkpointing.checkpoints) :
    Live s r.id r.scopeId := by
  obtain ⟨o, ho, hkey⟩ := h.foreign.checkpoint.checkpoint_object.exists_parent hr rfl
  simp only [Prod.mk.injEq] at hkey
  exact ⟨⟨o, ho, hkey.1, hkey.2.1⟩, h.clean.checkpoints r hr⟩

theorem effect (h : Grounded s) {r : ToolEffectRow} (hr : r ∈ s.ledger.effects) :
    Live s r.id r.scopeId := by
  obtain ⟨o, ho, hkey⟩ := h.foreign.ledger.effect_object.exists_parent hr rfl
  simp only [Prod.mk.injEq] at hkey
  exact ⟨⟨o, ho, hkey.1, hkey.2.1⟩, h.clean.effects r hr⟩

theorem job (h : Grounded s) {r : JobRow} (hr : r ∈ s.queue.jobs) : Live s r.id r.scopeId := by
  obtain ⟨o, ho, hkey⟩ := h.foreign.queue.job_object.exists_parent hr rfl
  simp only [Prod.mk.injEq] at hkey
  exact ⟨⟨o, ho, hkey.1, hkey.2.1⟩, h.clean.jobs r hr⟩

/-! ### Rows that refer to content -/

theorem revision (h : Grounded s) {r : AssertionRevisionRow} (hr : r ∈ s.contents.revisions) :
    Live s r.assertionId r.scopeId := by
  obtain ⟨a, ha, hkey⟩ := h.foreign.content.revision_assertion.exists_parent hr rfl
  obtain ⟨hid, hscope⟩ := Prod.mk.inj hkey
  exact hid ▸ hscope ▸ h.assertion ha

theorem edgeChild (h : Grounded s) {r : ProvenanceEdgeRow} (hr : r ∈ s.contents.edges) :
    Live s r.childId r.scopeId := by
  obtain ⟨a, ha, hkey⟩ := h.foreign.content.edge_child.exists_parent hr rfl
  obtain ⟨hid, hscope⟩ := Prod.mk.inj hkey
  exact hid ▸ hscope ▸ h.assertion ha

theorem edgeParent (h : Grounded s) {r : ProvenanceEdgeRow} (hr : r ∈ s.contents.edges) :
    Live s r.parentId r.scopeId := by
  obtain ⟨e, he, hkey⟩ := h.foreign.content.edge_parent.exists_parent hr rfl
  obtain ⟨hid, hscope⟩ := Prod.mk.inj hkey
  exact hid ▸ hscope ▸ h.episode he

theorem evidenceEntity (h : Grounded s) {r : EntityEvidenceRow} (hr : r ∈ s.graph.evidence) :
    Live s r.entityId r.scopeId := by
  obtain ⟨e, he, hkey⟩ := h.foreign.graph.evidence_entity.exists_parent hr rfl
  obtain ⟨hid, hscope⟩ := Prod.mk.inj hkey
  exact hid ▸ hscope ▸ h.entity he

theorem evidenceSource (h : Grounded s) {r : EntityEvidenceRow} (hr : r ∈ s.graph.evidence) :
    Live s r.sourceId r.scopeId := by
  obtain ⟨e, he, hkey⟩ := h.foreign.graph.evidence_source.exists_parent hr rfl
  obtain ⟨hid, hscope⟩ := Prod.mk.inj hkey
  exact hid ▸ hscope ▸ h.episode he

theorem relation (h : Grounded s) {r : RelationRow} (hr : r ∈ s.graph.relations) :
    Live s r.id r.scopeId := by
  obtain ⟨a, ha, hkey⟩ := h.foreign.graph.relation_assertion.exists_parent hr rfl
  obtain ⟨hid, hscope⟩ := Prod.mk.inj hkey
  exact hid ▸ hscope ▸ h.assertion ha

theorem relationSource (h : Grounded s) {r : RelationRow} (hr : r ∈ s.graph.relations) :
    Live s r.sourceId r.scopeId := by
  obtain ⟨e, he, hkey⟩ := h.foreign.graph.relation_source.exists_parent hr rfl
  obtain ⟨hid, hscope⟩ := Prod.mk.inj hkey
  exact hid ▸ hscope ▸ h.entity he

theorem targetRelation (h : Grounded s) {r : RelationRevisionRow} (hr : r ∈ s.graph.targets) :
    ∃ l ∈ s.graph.relations, l.id = r.assertionId ∧ l.scopeId = r.scopeId := by
  obtain ⟨l, hl, hkey⟩ := h.foreign.graph.target_relation.exists_parent hr rfl
  exact ⟨l, hl, (Prod.mk.inj hkey).1, (Prod.mk.inj hkey).2⟩

theorem target (h : Grounded s) {r : RelationRevisionRow} (hr : r ∈ s.graph.targets) :
    Live s r.assertionId r.scopeId := by
  obtain ⟨l, hl, hid, hscope⟩ := h.targetRelation hr
  exact hid ▸ hscope ▸ h.relation hl

theorem targetEntity (h : Grounded s) {r : RelationRevisionRow} (hr : r ∈ s.graph.targets) :
    Live s r.targetId r.scopeId := by
  obtain ⟨e, he, hkey⟩ := h.foreign.graph.target_entity.exists_parent hr rfl
  obtain ⟨hid, hscope⟩ := Prod.mk.inj hkey
  exact hid ▸ hscope ▸ h.entity he

theorem inputJob (h : Grounded s) {r : JobInputRow} (hr : r ∈ s.queue.inputs) :
    Live s r.jobId r.scopeId := by
  obtain ⟨j, hj, hkey⟩ := h.foreign.queue.input_job.exists_parent hr rfl
  obtain ⟨hid, hscope⟩ := Prod.mk.inj hkey
  exact hid ▸ hscope ▸ h.job hj

theorem inputSource (h : Grounded s) {r : JobInputRow} (hr : r ∈ s.queue.inputs) :
    Live s r.sourceId r.scopeId := by
  obtain ⟨e, he, hkey⟩ := h.foreign.queue.input_source.exists_parent hr rfl
  obtain ⟨hid, hscope⟩ := Prod.mk.inj hkey
  exact hid ▸ hscope ▸ h.episode he

theorem effectRevision (h : Grounded s) {r : ToolEffectRevisionRow} (hr : r ∈ s.ledger.revisions) :
    ∃ e ∈ s.ledger.effects, e.id = r.effectId :=
  h.foreign.ledger.revision_effect.exists_parent hr rfl

theorem anchored_head (h : Grounded s) {b : CheckpointBranchRow}
    (hb : b ∈ s.checkpointing.branches) {head : UUID} (hhead : b.headId = some head) :
    Anchored s head b.scopeId := by
  obtain ⟨o, ho, hkey⟩ := h.foreign.checkpoint.branch_head.exists_parent hb
    (by rw [hhead, Option.map_some])
  simp only [Prod.mk.injEq] at hkey
  exact ⟨o, ho, hkey.1, hkey.2.1⟩

theorem referenceCheckpoint (h : Grounded s) {r : CheckpointReferenceRow}
    (hr : r ∈ s.checkpointing.references) : Live s r.checkpointId r.scopeId := by
  obtain ⟨c, hc, hkey⟩ := h.foreign.checkpoint.reference_checkpoint.exists_parent hr rfl
  obtain ⟨hid, hscope⟩ := Prod.mk.inj hkey
  exact hid ▸ hscope ▸ h.checkpoint hc

theorem referenceEffect (h : Grounded s) {r : ToolEffectReferenceRow}
    (hr : r ∈ s.ledger.references) : Live s r.effectId r.scopeId := by
  obtain ⟨e, he, hkey⟩ := h.foreign.ledger.reference_effect.exists_parent hr rfl
  obtain ⟨hid, hscope⟩ := Prod.mk.inj hkey
  exact hid ▸ hscope ▸ h.effect he

/-- What a reference names is not deleted. -/
theorem untombstoned_of_source (h : Grounded s) {kind : ObjectKind} {id : UUID} (revision : Nat)
    (hkind : referable kind)
    (hepisode : ∀ k ∈ sourceOf .episode kind id, ∃ e ∈ s.contents.episodes.rows, e.id = k)
    (hrevision : ∀ k ∈ revisionOf kind id revision,
      ∃ v ∈ s.contents.revisions.rows, (v.assertionId, v.revision) = k)
    (hentity : ∀ k ∈ sourceOf .entity kind id, ∃ e ∈ s.graph.entities.rows, e.id = k) :
    Untombstoned s id := by
  rcases hkind with rfl | rfl | rfl
  · obtain ⟨e, he, rfl⟩ := hepisode id rfl
    exact h.clean.episodes e he
  · obtain ⟨v, hv, hkey⟩ := hrevision (id, revision) rfl
    exact (Prod.mk.inj hkey).1 ▸ (h.revision hv).free
  · obtain ⟨e, he, rfl⟩ := hentity id rfl
    exact h.clean.entities e he

theorem referenceSource (h : Grounded s) {r : CheckpointReferenceRow}
    (hr : r ∈ s.checkpointing.references) : Live s r.sourceId r.scopeId := by
  obtain ⟨o, ho, hkey⟩ := h.foreign.checkpoint.reference_source.exists_parent hr rfl
  simp only [Prod.mk.injEq] at hkey
  refine ⟨⟨o, ho, hkey.1, hkey.2.1⟩, h.untombstoned_of_source r.sourceRevision
    (h.sourced.checkpoint r hr) ?_ ?_ ?_⟩
  · exact h.foreign.checkpoint.reference_episode r hr
  · exact h.foreign.checkpoint.reference_revision r hr
  · exact h.foreign.checkpoint.reference_entity r hr

theorem effectReferenceSource (h : Grounded s) {r : ToolEffectReferenceRow}
    (hr : r ∈ s.ledger.references) : Live s r.sourceId r.scopeId := by
  obtain ⟨o, ho, hkey⟩ := h.foreign.ledger.reference_source.exists_parent hr rfl
  simp only [Prod.mk.injEq] at hkey
  refine ⟨⟨o, ho, hkey.1, hkey.2.1⟩, h.untombstoned_of_source r.sourceRevision
    (h.sourced.effect r hr) ?_ ?_ ?_⟩
  · exact h.foreign.ledger.reference_episode r hr
  · exact h.foreign.ledger.reference_revision r hr
  · exact h.foreign.ledger.reference_entity r hr

end Grounded

/-! ## Visibility of live objects -/

section Visible

variable {s : Store} {v : View} {id scope : UUID}

/-- Tombstones are judged by the anchors alone. -/
theorem Marked.of_anchor (h : Marked s) (hv : v.store.anchor = s.anchor) : Marked v.store := by
  unfold Marked at h ⊢
  rw [hv]
  exact h

theorem Untombstoned.of_anchor (h : Untombstoned s id) (hv : v.store.anchor = s.anchor) :
    Untombstoned v.store id := by
  unfold Untombstoned at h ⊢
  rw [hv]
  exact h

/-- **A live object is visible** exactly when its scope is readable. -/
theorem Live.visible (h : Live s id scope) (hmarked : Marked s) (hv : v.store.anchor = s.anchor) :
    v.visible id = true ↔ v.permitted scope .read = true := by
  obtain ⟨⟨o, ho, rfl, rfl⟩, hfree⟩ := h
  rw [← hv] at ho
  rw [View.visible_object (hmarked.of_anchor hv) ho]
  exact and_iff_left (hfree.of_anchor hv)

/-- **A live object is deletable** exactly when its scope can be read and deleted from. -/
theorem Live.deletable (h : Live s id scope) (hmarked : Marked s)
    (hv : v.store.anchor = s.anchor) :
    v.deletable id = true ↔ v.permitted scope .read = true ∧ v.permitted scope .delete = true := by
  obtain ⟨⟨o, ho, rfl, rfl⟩, hfree⟩ := h
  rw [← hv] at ho
  rw [View.deletable_object (hmarked.of_anchor hv) ho]
  exact and_congr_left fun _ => and_iff_left (hfree.of_anchor hv)

/-- A live object is writable exactly when its scope can be read and written. -/
theorem Live.writable (h : Live s id scope) (hmarked : Marked s) (hv : v.store.anchor = s.anchor) :
    v.writable id = true ↔ v.permitted scope .read = true ∧ v.permitted scope .write = true := by
  obtain ⟨⟨o, ho, rfl, rfl⟩, hfree⟩ := h
  rw [← hv] at ho
  rw [View.writable_object (hmarked.of_anchor hv) ho]
  exact and_congr_left fun _ => and_iff_left (hfree.of_anchor hv)

end Visible

/-! ## Derivations stay in their scope -/

/-- **A derivation stays in its scope**, and the closure query sees it when that scope is readable. -/
theorem Grounded.derives {s : Store} (h : Grounded s) {a b : UUID} (hab : Derives s a b) :
    ∃ scope, Anchored s a scope ∧ Live s b scope
      ∧ ∀ v : View, v.store = s → v.permitted scope .read = true → (a, b) ∈ v.dependencies := by
  have hmarked := h.foreign.marked
  -- Both ends of a live dependency are seen by whoever may read their scope.
  have hsee : ∀ {v : View} {id scope : UUID}, v.store = s → Live s id scope →
      v.permitted scope .read = true → v.visible id = true :=
    fun hv hlive hread => (hlive.visible hmarked (congrArg Store.anchor hv)).mpr hread
  -- One table for each kind of dependency; the summands of the closure stand in this order.
  cases hab with
  | evidence hr =>
    refine ⟨_, (h.edgeParent hr).anchored, h.edgeChild hr, fun v hv hread => ?_⟩
    subst hv
    simp only [View.dependencies, List.mem_append]
    refine Or.inl (Or.inl (Or.inl (Or.inl (Or.inl (Or.inl (Or.inl (Or.inl (Or.inl (Or.inl
      (List.mem_map_of_mem (List.mem_filter.mpr ⟨hr, ?_⟩)))))))))))
    rw [hsee rfl (h.edgeChild hr) hread, hsee rfl (h.edgeParent hr) hread, Bool.and_true]
  | input hr =>
    refine ⟨_, (h.inputSource hr).anchored, h.inputJob hr, fun v hv hread => ?_⟩
    subst hv
    simp only [View.dependencies, List.mem_append]
    refine Or.inl (Or.inl (Or.inl (Or.inl (Or.inl (Or.inl (Or.inl (Or.inl (Or.inl (Or.inr
      (List.mem_map_of_mem (List.mem_filter.mpr ⟨hr, ?_⟩)))))))))))
    rw [hsee rfl (h.inputJob hr) hread, hsee rfl (h.inputSource hr) hread, Bool.and_true]
  | @result j p hj hp =>
    obtain ⟨a', ha', hkey⟩ := h.foreign.queue.job_result.exists_parent hj
      (by rw [hp, Option.map_some])
    obtain ⟨hid, hscope⟩ := Prod.mk.inj hkey
    refine ⟨_, hid ▸ hscope ▸ (h.assertion ha').anchored, h.job hj, fun v hv hread => ?_⟩
    subst hv
    simp only [View.dependencies, List.mem_append]
    refine Or.inl (Or.inl (Or.inl (Or.inl (Or.inl (Or.inl (Or.inl (Or.inl (Or.inr
      (List.mem_filterMap.mpr ⟨j, List.mem_filter.mpr ⟨hj, hsee rfl (h.job hj) hread⟩, ?_⟩)))))))))
    rw [hp, Option.map_some]
  | @retry j p hj hp =>
    obtain ⟨o, ho, hkey⟩ := h.foreign.queue.job_retryOf.exists_parent hj
      (by rw [hp, Option.map_some])
    simp only [Prod.mk.injEq] at hkey
    refine ⟨_, ⟨o, ho, hkey.1, hkey.2.1⟩, h.job hj, fun v hv hread => ?_⟩
    subst hv
    simp only [View.dependencies, List.mem_append]
    refine Or.inl (Or.inl (Or.inl (Or.inl (Or.inl (Or.inl (Or.inl (Or.inr
      (List.mem_filterMap.mpr ⟨j, List.mem_filter.mpr ⟨hj, hsee rfl (h.job hj) hread⟩, ?_⟩))))))))
    rw [hp, Option.map_some]
  | entityEvidence hr =>
    refine ⟨_, (h.evidenceSource hr).anchored, h.evidenceEntity hr, fun v hv hread => ?_⟩
    subst hv
    simp only [View.dependencies, List.mem_append]
    refine Or.inl (Or.inl (Or.inl (Or.inl (Or.inl (Or.inl (Or.inr
      (List.mem_map_of_mem (List.mem_filter.mpr ⟨hr, ?_⟩))))))))
    rw [hsee rfl (h.evidenceEntity hr) hread, hsee rfl (h.evidenceSource hr) hread, Bool.and_true]
  | source hr =>
    refine ⟨_, (h.relationSource hr).anchored, h.relation hr, fun v hv hread => ?_⟩
    subst hv
    simp only [View.dependencies, List.mem_append]
    refine Or.inl (Or.inl (Or.inl (Or.inl (Or.inl (Or.inr
      (List.mem_map_of_mem (List.mem_filter.mpr ⟨hr, ?_⟩)))))))
    rw [hsee rfl (h.relation hr) hread, hsee rfl (h.relationSource hr) hread, Bool.and_true]
  | target hr =>
    refine ⟨_, (h.targetEntity hr).anchored, h.target hr, fun v hv hread => ?_⟩
    subst hv
    simp only [View.dependencies, List.mem_append]
    refine Or.inl (Or.inl (Or.inl (Or.inl (Or.inr
      (List.mem_map_of_mem (List.mem_filter.mpr ⟨hr, ?_⟩))))))
    obtain ⟨l, hl, hid, hscope⟩ := h.targetRelation hr
    have hrelation : v.relation? _ = some l := Option.filter_eq_some_iff.mpr
      ⟨Table.find?_eq_some_iff.mpr ⟨hl, hid⟩, by
        rw [hsee rfl (h.relation hl) (hscope ▸ hread),
          hsee rfl (h.relationSource hl) (hscope ▸ hread), Bool.and_true]⟩
    rw [View.targetReadable, hsee rfl (h.target hr) hread, hsee rfl (h.targetEntity hr) hread,
      hrelation]
    rfl
  | checkpointReference hr =>
    refine ⟨_, (h.referenceSource hr).anchored, h.referenceCheckpoint hr, fun v hv hread => ?_⟩
    subst hv
    simp only [View.dependencies, List.mem_append]
    refine Or.inl (Or.inl (Or.inl (Or.inr
      (List.mem_map_of_mem (List.mem_filter.mpr ⟨hr, ?_⟩)))))
    rw [hsee rfl (h.referenceCheckpoint hr) hread, hsee rfl (h.referenceSource hr) hread,
      Bool.and_true]
  | @parent c p hc hp =>
    obtain ⟨c', hc', hkey⟩ := h.foreign.checkpoint.checkpoint_parent.exists_parent hc
      (by rw [hp, Option.map_some])
    simp only [Prod.mk.injEq] at hkey
    refine ⟨_, hkey.1 ▸ hkey.2.1 ▸ (h.checkpoint hc').anchored, h.checkpoint hc,
      fun v hv hread => ?_⟩
    subst hv
    simp only [View.dependencies, List.mem_append]
    refine Or.inl (Or.inl (Or.inr (List.mem_filterMap.mpr
      ⟨c, List.mem_filter.mpr ⟨hc, hsee rfl (h.checkpoint hc) hread⟩, ?_⟩)))
    rw [hp, Option.map_some]
  | effectReference hr =>
    refine ⟨_, (h.effectReferenceSource hr).anchored, h.referenceEffect hr, fun v hv hread => ?_⟩
    subst hv
    simp only [View.dependencies, List.mem_append]
    refine Or.inl (Or.inr (List.mem_map_of_mem (List.mem_filter.mpr ⟨hr, ?_⟩)))
    rw [hsee rfl (h.referenceEffect hr) hread, hsee rfl (h.effectReferenceSource hr) hread,
      Bool.and_true]
  | @run e c he hc hscope hrun =>
    refine ⟨_, (h.effect he).anchored, hscope ▸ h.checkpoint hc, fun v hv hread => ?_⟩
    subst hv
    simp only [View.dependencies, List.mem_append]
    refine Or.inr (List.mem_flatMap.mpr ⟨e, List.mem_filter.mpr ⟨he, hsee rfl (h.effect he) hread⟩,
      List.mem_map_of_mem (List.mem_filter.mpr ⟨List.mem_filter.mpr ⟨hc, ?_⟩, ?_⟩)⟩)
    · exact hsee rfl (hscope ▸ h.checkpoint hc) hread
    · rw [hscope, hrun]
      simp

end PgAgmemory

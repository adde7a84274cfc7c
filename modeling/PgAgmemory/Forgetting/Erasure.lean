import PgAgmemory.Forgetting.Grounds

/-! # Erasure

What a purge leaves, said without its statements: `Store.erase gone` takes away, table by table, the
rows whose object is gone for the statement of that table. An erasure is coherent when it follows the
order of the statements and the derivations; then no foreign key is broken (`ForeignKeys.erase`), at
the end as after every single statement. -/

namespace PgAgmemory

open Keyed (HasKey Table key)
open Keyed.Table (References)

/-- The place of a statement in the order. -/
def PurgeStep.rank (purgeStep : PurgeStep) : Nat := PurgeStep.all.idxOf purgeStep

/-- The objects that are gone for each statement. -/
abbrev Gone := PurgeStep → UUID → Bool

/-- **The store without what is gone**: rows of gone objects are deleted, runs of gone effects and
branches of gone heads are invalidated. -/
def Store.erase (gone : Gone) (s : Store) : Store where
  access := s.access
  anchor := s.anchor
  contents := {
    episodes := s.contents.episodes.delete fun r => gone .episodes r.id
    assertions := s.contents.assertions.delete fun r => gone .assertions r.id
    revisions := s.contents.revisions.delete fun r => gone .revisions r.assertionId
    edges := s.contents.edges.delete fun r => gone .edges r.childId
    episodeLexical := s.contents.episodeLexical.delete fun r => gone .episodes r.episodeId
    assertionLexical := s.contents.assertionLexical.delete fun r => gone .revisions r.assertionId
    episodeEmbeddings := s.contents.episodeEmbeddings.delete fun r => gone .episodes r.episodeId
    assertionEmbeddings := s.contents.assertionEmbeddings.delete fun r =>
      gone .revisions r.assertionId }
  graph := {
    entities := s.graph.entities.delete fun r => gone .entities r.id
    evidence := s.graph.evidence.delete fun r => gone .entityEvidence r.entityId
    relations := s.graph.relations.delete fun r => gone .relations r.id
    targets := s.graph.targets.delete fun r => gone .targets r.assertionId }
  checkpointing := {
    runs := s.checkpointing.runs.update
      (fun r => s.ledger.effects.rows.any fun e =>
        decide (e.scopeId = r.scopeId) && decide (e.runId = r.runId) && gone .runs e.id)
      (fun r => { r with effectsInvalidated := true }) CheckpointRunRow.key_invalidated
    branches := s.checkpointing.branches.update
      (fun b => b.headId.any (gone .branches)) (fun b => { b with invalidated := true })
      CheckpointBranchRow.key_invalidated
    checkpoints := s.checkpointing.checkpoints.delete fun r => gone .checkpoints r.id
    references := s.checkpointing.references.delete fun r =>
      gone .checkpointReferences r.checkpointId
    nextOrdinal := s.checkpointing.nextOrdinal }
  ledger := {
    effects := s.ledger.effects.delete fun r => gone .effects r.id
    revisions := s.ledger.revisions.delete fun r => gone .effectRevisions r.effectId
    references := s.ledger.references.delete fun r => gone .effectReferences r.effectId
    identities := s.ledger.identities }
  queue := {
    jobs := s.queue.jobs.delete fun r => gone .jobs r.id
    inputs := s.queue.inputs.delete fun r => gone .jobInputs r.jobId
    identities := s.queue.identities }
  operations := s.operations

/-- Nothing is gone. -/
def nothingGone : Gone := fun _ _ => false

/-- When nothing is gone, nothing changes. -/
theorem Store.erase_nothing (s : Store) : s.erase nothingGone = s := by
  have hdelete : ∀ {α κ : Type} [HasKey α κ] (t : Table α), (t.delete fun _ => false) = t :=
    fun t => Table.delete_eq_self fun _ _ => rfl
  have hruns : ∀ {α κ : Type} [HasKey α κ] (t : Table α) (p : α → Bool) (f : α → α)
      (hf : ∀ r, key (f r) = key r), (∀ r, p r = false) → t.update p f hf = t :=
    fun t p f hf hp => Table.update_eq_self fun r _ => hp r
  unfold erase nothingGone
  simp only [hdelete]
  rw [hruns _ _ _ _ fun r => by simp, hruns _ _ _ _ fun b => by cases b.headId <;> rfl]

/-- The branches after an erasure. -/
theorem Store.mem_erase_branches {gone : Gone} {s : Store} {b : CheckpointBranchRow} :
    b ∈ (s.erase gone).checkpointing.branches ↔ ∃ b' ∈ s.checkpointing.branches,
      (if b'.headId.any (gone .branches) then { b' with invalidated := true } else b') = b := by
  apply Table.mem_update
  exact fun _ => rfl

/-- The runs after an erasure. -/
theorem Store.mem_erase_runs {gone : Gone} {s : Store} {r : CheckpointRunRow} :
    r ∈ (s.erase gone).checkpointing.runs ↔ ∃ r' ∈ s.checkpointing.runs,
      (if s.ledger.effects.rows.any fun e => decide (e.scopeId = r'.scopeId)
          && decide (e.runId = r'.runId) && gone .runs e.id
        then { r' with effectsInvalidated := true } else r') = r := by
  apply Table.mem_update
  exact fun _ => rfl

/-- **A coherent erasure**: what is gone for a statement was gone for those before, and what is
derived from it is gone as well. -/
structure Coherent (s : Store) (gone : Gone) : Prop where
  earlier : ∀ p q id, p.rank ≤ q.rank → gone q id = true → gone p id = true
  derived : ∀ p a b, Derives s a b → gone p a = true → gone p b = true

/-- An erasure stopped after some statements. -/
def Gone.upto (n : Nat) (gone : Gone) : Gone := fun p id => decide (p.rank < n) && gone p id

/-- Stopping an erasure keeps it coherent. -/
theorem Coherent.upto {s : Store} {gone : Gone} (h : Coherent s gone) (n : Nat) :
    Coherent s (gone.upto n) := by
  constructor
  · intro p q id hrank hq
    rw [Gone.upto, Bool.and_eq_true, decide_eq_true_eq] at hq ⊢
    exact ⟨Nat.lt_of_le_of_lt hrank hq.1, h.earlier p q id hrank hq.2⟩
  · intro p a b hab hp
    rw [Gone.upto, Bool.and_eq_true, decide_eq_true_eq] at hp ⊢
    exact ⟨hp.1, h.derived p a b hab hp.2⟩

namespace Coherent

variable {s : Store} {gone : Gone}

/-- What remains for a statement remains for the later ones. -/
theorem kept (h : Coherent s gone) {p q : PurgeStep} {id : UUID} (hkept : gone p id = false)
    (hrank : p.rank ≤ q.rank := by decide) : gone q id = false := by
  rw [← Bool.not_eq_true] at hkept ⊢
  exact fun hq => hkept (h.earlier p q id hrank hq)

/-- What something remaining is derived from remains. -/
theorem kept_source (h : Coherent s gone) {p q : PurgeStep} {a b : UUID} (hab : Derives s a b)
    (hkept : gone p b = false) (hrank : p.rank ≤ q.rank := by decide) : gone q a = false := by
  rw [← Bool.not_eq_true] at hkept ⊢
  exact fun hq => hkept (h.derived p a b hab (h.earlier p q a hrank hq))

end Coherent

/-! ## Constraints -/

section Keys

variable {s : Store} {gone : Gone}

theorem ContentKeys.erase (h : ContentKeys s) (hgone : Coherent s gone) :
    ContentKeys (s.erase gone) where
  tombstone_object := h.tombstone_object
  episode_object := h.episode_object.delete_child
  assertion_object := h.assertion_object.delete_child
  revision_assertion := h.revision_assertion.delete fun r _ hkept k hk a _ hak => by
    cases hk
    exact (Prod.mk.inj hak).1 ▸ hgone.kept hkept
  edge_child := h.edge_child.delete fun r _ hkept k hk a _ hak => by
    cases hk
    exact (Prod.mk.inj hak).1 ▸ hgone.kept hkept
  edge_parent := h.edge_parent.delete fun r hr hkept k hk e _ hek => by
    cases hk
    exact (Prod.mk.inj hek).1 ▸ hgone.kept_source (.evidence hr) hkept
  edge_revision := h.edge_revision.delete fun r _ hkept k hk v _ hvk => by
    cases hk
    exact (Prod.mk.inj hvk).1 ▸ hgone.kept hkept
  episodeLexical_episode := h.episodeLexical_episode.delete fun r _ hkept k hk e _ hek => by
    cases hk
    exact (Prod.mk.inj hek).1 ▸ hkept
  assertionLexical_revision := h.assertionLexical_revision.delete fun r _ hkept k hk v _ hvk => by
    cases hk
    exact (Prod.mk.inj hvk).1 ▸ hkept
  episodeEmbedding_episode := h.episodeEmbedding_episode.delete fun r _ hkept k hk e _ hek => by
    cases hk
    exact (Prod.mk.inj hek).1 ▸ hkept
  assertionEmbedding_revision :=
    h.assertionEmbedding_revision.delete fun r _ hkept k hk v _ hvk => by
      cases hk
      exact (Prod.mk.inj hvk).1 ▸ hkept

theorem GraphKeys.erase (h : GraphKeys s) (hgone : Coherent s gone) :
    GraphKeys (s.erase gone) where
  entity_object := h.entity_object.delete_child
  evidence_entity := h.evidence_entity.delete fun r _ hkept k hk e _ hek => by
    cases hk
    exact (Prod.mk.inj hek).1 ▸ hgone.kept hkept
  evidence_source := h.evidence_source.delete fun r hr hkept k hk e _ hek => by
    cases hk
    exact (Prod.mk.inj hek).1 ▸ hgone.kept_source (.entityEvidence hr) hkept
  relation_assertion := h.relation_assertion.delete fun r _ hkept k hk a _ hak => by
    cases hk
    exact (Prod.mk.inj hak).1 ▸ hgone.kept hkept
  relation_source := h.relation_source.delete fun r hr hkept k hk e _ hek => by
    cases hk
    exact (Prod.mk.inj hek).1 ▸ hgone.kept_source (.source hr) hkept
  target_relation := h.target_relation.delete fun r _ hkept k hk l _ hlk => by
    cases hk
    exact (Prod.mk.inj hlk).1 ▸ hgone.kept hkept
  target_revision := h.target_revision.delete fun r _ hkept k hk v _ hvk => by
    cases hk
    exact (Prod.mk.inj hvk).1 ▸ hgone.kept hkept
  target_entity := h.target_entity.delete fun r hr hkept k hk e _ hek => by
    cases hk
    exact (Prod.mk.inj hek).1 ▸ hgone.kept_source (.target hr) hkept

/-- The object that a generated column names is the source of the reference. -/
theorem sourceOf_eq {kind sourceKind : ObjectKind} {id k : UUID}
    (h : sourceOf kind sourceKind id = some k) : k = id := by
  unfold sourceOf at h
  split at h
  · exact (Option.some.inj h).symm
  · cases h

theorem revisionOf_eq {sourceKind : ObjectKind} {id : UUID} {revision : Nat} {k : UUID × Nat}
    (h : revisionOf sourceKind id revision = some k) : k = (id, revision) := by
  unfold revisionOf at h
  split at h
  · exact (Option.some.inj h).symm
  · cases h

theorem CheckpointKeys.erase (h : CheckpointKeys s) (hgone : Coherent s gone) :
    CheckpointKeys (s.erase gone) where
  branch_run := by
    apply References.update_parent
    · apply References.update h.branch_run
      all_goals exact fun _ => rfl
    all_goals exact fun _ => rfl
  branch_head := by
    apply References.update h.branch_head
    all_goals exact fun _ => rfl
  checkpoint_object := h.checkpoint_object.delete_child
  checkpoint_branch := by
    apply References.delete_child
    apply References.update_parent h.checkpoint_branch
    all_goals exact fun _ => rfl
  checkpoint_parent := h.checkpoint_parent.delete fun r hr hkept k hk c _ hck => by
    obtain ⟨p, hp, rfl⟩ := Option.map_eq_some_iff.mp hk
    exact (Prod.mk.inj hck).1 ▸ hgone.kept_source (.parent hr hp) hkept
  reference_checkpoint := h.reference_checkpoint.delete fun r _ hkept k hk c _ hck => by
    cases hk
    exact (Prod.mk.inj hck).1 ▸ hgone.kept hkept
  reference_source := h.reference_source.delete_child
  reference_episode := h.reference_episode.delete fun r hr hkept k hk e _ hek => by
    have hid := hek.trans (sourceOf_eq hk)
    exact hid ▸ hgone.kept_source (.checkpointReference hr) hkept
  reference_revision := h.reference_revision.delete fun r hr hkept k hk v _ hvk => by
    have hid := (Prod.mk.inj (hvk.trans (revisionOf_eq hk))).1
    exact hid ▸ hgone.kept_source (.checkpointReference hr) hkept
  reference_entity := h.reference_entity.delete fun r hr hkept k hk e _ hek => by
    have hid := hek.trans (sourceOf_eq hk)
    exact hid ▸ hgone.kept_source (.checkpointReference hr) hkept

theorem LedgerKeys.erase (h : LedgerKeys s) (hgone : Coherent s gone) :
    LedgerKeys (s.erase gone) where
  effect_object := h.effect_object.delete_child
  effect_run := by
    apply References.delete_child
    apply References.update_parent h.effect_run
    all_goals exact fun _ => rfl
  revision_effect := h.revision_effect.delete fun r _ hkept k hk e _ hek => by
    cases hk
    exact hek ▸ hgone.kept hkept
  reference_effect := h.reference_effect.delete fun r _ hkept k hk e _ hek => by
    cases hk
    exact (Prod.mk.inj hek).1 ▸ hgone.kept hkept
  reference_source := h.reference_source.delete_child
  reference_episode := h.reference_episode.delete fun r hr hkept k hk e _ hek => by
    have hid := hek.trans (sourceOf_eq hk)
    exact hid ▸ hgone.kept_source (.effectReference hr) hkept
  reference_revision := h.reference_revision.delete fun r hr hkept k hk v _ hvk => by
    have hid := (Prod.mk.inj (hvk.trans (revisionOf_eq hk))).1
    exact hid ▸ hgone.kept_source (.effectReference hr) hkept
  reference_entity := h.reference_entity.delete fun r hr hkept k hk e _ hek => by
    have hid := hek.trans (sourceOf_eq hk)
    exact hid ▸ hgone.kept_source (.effectReference hr) hkept
  identity_object := h.identity_object

theorem QueueKeys.erase (h : QueueKeys s) (hgone : Coherent s gone) :
    QueueKeys (s.erase gone) where
  job_object := h.job_object.delete_child
  job_retryOf := h.job_retryOf.delete_child
  job_result := h.job_result.delete fun r hr hkept k hk a _ hak => by
    obtain ⟨p, hp, rfl⟩ := Option.map_eq_some_iff.mp hk
    exact (Prod.mk.inj hak).1 ▸ hgone.kept_source (.result hr hp) hkept
  input_job := h.input_job.delete fun r _ hkept k hk j _ hjk => by
    cases hk
    exact (Prod.mk.inj hjk).1 ▸ hgone.kept hkept
  input_source := h.input_source.delete fun r hr hkept k hk e _ hek => by
    cases hk
    exact (Prod.mk.inj hek).1 ▸ hgone.kept_source (.input hr) hkept
  identity_object := h.identity_object
  sourceEvent_object := h.sourceEvent_object

/-- **A coherent erasure breaks no foreign key.** -/
theorem ForeignKeys.erase (h : ForeignKeys s) (hgone : Coherent s gone) :
    ForeignKeys (s.erase gone) :=
  ⟨h.content.erase hgone, h.graph.erase hgone, h.checkpoint.erase hgone, h.ledger.erase hgone,
    h.queue.erase hgone⟩

/-- Deleting rows keeps uniqueness. -/
theorem UniqueKeys.erase (h : UniqueKeys s) (gone : Gone) : UniqueKeys (s.erase gone) where
  revision_exclusion := h.revision_exclusion.sublist List.filter_sublist
  checkpoint_sequence := h.checkpoint_sequence.sublist (List.filter_sublist.map _)
  effect_operation := h.effect_operation.sublist (List.filter_sublist.map _)
  job_result := h.job_result.sublist (List.filter_sublist.filterMap _)

end Keys

end PgAgmemory

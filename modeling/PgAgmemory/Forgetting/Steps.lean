import PgAgmemory.Forgetting.Erasure

/-! # The statements of a purge erase

Every statement of a purge takes away the targets that are deletable at its own timestamp, and nothing
else (`PurgeStep.exec_erase`): in a grounded store the read policies of a row say no more than the
scope of its object does. -/

namespace PgAgmemory

open Keyed (HasKey Table key)
open Keyed.Table (References)

/-- The objects that a statement of a purge takes away. -/
def View.removes (v : View) (targets : List UUID) (id : UUID) : Bool :=
  decide (id ∈ targets) && v.deletable id

/-- **The targets of a purge**, for one of its statements: they were not deleted before, and where the
statement may read it may delete. -/
structure Purging (s : Store) (targets : List UUID) (v : View) : Prop where
  anchor : v.store.anchor = s.anchor
  live : ∀ id ∈ targets, Untombstoned s id
  deletes : ∀ id ∈ targets, ∀ scope, Anchored s id scope → v.permitted scope .read = true →
    v.permitted scope .delete = true

section Reach

variable {s : Store} {v : View} {targets : List UUID} {id scope : UUID}

/-- **What a statement reaches** among the rows of a live object: the object is named and
deletable. -/
theorem View.erases_eq (h : Grounded s) (hp : Purging s targets v) (hlive : Live s id scope)
    {shown : Bool} (hshown : v.permitted scope .read = true → shown = true) :
    v.erases targets id shown = v.removes targets id := by
  rw [erases, removes]
  by_cases hdel : v.deletable id = true
  · have hread := ((hlive.deletable h.foreign.marked hp.anchor).mp hdel).1
    rw [hshown hread, Bool.and_true]
  · rw [Bool.not_eq_true] at hdel
    rw [hdel, Bool.and_false, Bool.and_false]

/-- A live object is seen where its scope is readable. -/
theorem Live.seen (h : Grounded s) (hp : Purging s targets v) (hlive : Live s id scope)
    (hread : v.permitted scope .read = true) : v.visible id = true :=
  (hlive.visible h.foreign.marked hp.anchor).mpr hread

/-- **A target of a scope** is taken away exactly when the scope is readable. -/
theorem View.removes_eq (h : Grounded s) (hp : Purging s targets v) (ha : Anchored s id scope) :
    v.removes targets id = (decide (id ∈ targets) && v.permitted scope .read) := by
  rw [removes]
  by_cases hmem : id ∈ targets
  · have hlive : Live s id scope := ⟨ha, hp.live id hmem⟩
    have hiff := hlive.deletable h.foreign.marked hp.anchor
    have hread : v.deletable id = v.permitted scope .read := by
      rw [Bool.eq_iff_iff, hiff]
      exact and_iff_left_of_imp (hp.deletes id hmem scope ha)
    rw [hread]
  · rw [decide_eq_false hmem, Bool.false_and, Bool.false_and]

end Reach

section Cascade

variable {α β κ κ' : Type} [HasKey α κ] [HasKey β κ']

/-- **Deletion through a foreign key**: the rows whose parent is deleted are those of the parent's
object. -/
theorem any_parent_eq (same : β → α → Bool) (own : α → UUID) {child : Table α} {parent : Table β}
    {γ : Type} {column : α → γ} {target : β → γ}
    (h : References child (fun r => some (column r)) parent target) {erased : β → Bool}
    {gone : UUID → Bool} {own' : β → UUID} (herased : ∀ b ∈ parent, erased b = gone (own' b))
    (hsame : ∀ b a, target b = column a → same b a = true)
    (hown : ∀ b a, same b a = true → own' b = own a) {a : α} (ha : a ∈ child) :
    (parent.rows.any fun b => erased b && same b a) = gone (own a) := by
  rw [Bool.eq_iff_iff, List.any_eq_true]
  constructor
  · rintro ⟨b, hb, hboth⟩
    rw [Bool.and_eq_true] at hboth
    rw [← hown b a hboth.2, ← herased b hb]
    exact hboth.1
  · intro hgone
    obtain ⟨b, hb, hkey⟩ := h.exists_parent ha rfl
    have hba : same b a = true := hsame b a hkey
    refine ⟨b, hb, ?_⟩
    rw [hba, Bool.and_true, herased b hb, hown b a hba]
    exact hgone

end Cascade

/-- **One statement erases** what is deletable at its timestamp, when the later tables are still
whole. -/
theorem PurgeStep.exec_erase {s : Store} {v : View} {targets : List UUID} {gone : Gone}
    (h : Grounded s) (hp : Purging s targets v) (hv : v.store = s.erase gone)
    (purgeStep : PurgeStep)
    (hwhole : ∀ q id, purgeStep.rank ≤ q.rank → gone q id = false) :
    purgeStep.exec v targets = s.erase (Function.update gone purgeStep (v.removes targets)) := by
  have hnone : ∀ q id, purgeStep.rank ≤ q.rank → ¬ gone q id = true :=
    fun q id hq => by rw [hwhole q id hq]; exact Bool.false_ne_true
  have hseen : ∀ {id scope : UUID}, Live s id scope → v.permitted scope .read = true →
      v.visible id = true := fun hlive hread => hlive.seen h hp hread
  cases purgeStep with
  | jobInputs =>
    simp only [exec, hv]
    refine congrArg (fun t => ({ s.erase gone with queue.inputs := t } : Store))
      (Table.delete_delete (fun r _ => hwhole .jobInputs _ (by decide)) fun r hr => ?_)
    refine View.erases_eq h hp (h.inputJob hr) fun hread => ?_
    rw [hseen (h.inputJob hr) hread, hseen (h.inputSource hr) hread, Bool.and_true]
  | jobs =>
    simp only [exec, hv]
    refine congrArg (fun t => ({ s.erase gone with queue.jobs := t } : Store))
      (Table.delete_delete (fun r _ => hwhole .jobs _ (by decide)) fun r hr => ?_)
    exact View.erases_eq h hp (h.job hr) fun hread => hseen (h.job hr) hread
  | runs =>
    simp only [exec, hv]
    refine congrArg (fun t => ({ s.erase gone with checkpointing.runs := t } : Store))
      (Table.update_update (fun r _ => ?_) fun r hr => ?_)
    · refine List.any_eq_false.mpr fun e _ => ?_
      rw [Bool.and_eq_true]
      exact fun hboth => hnone .runs _ (by decide) hboth.2
    · have heffects : v.effects = s.ledger.effects.rows.filter fun e => v.visible e.id := by
        have htable : v.store.ledger.effects = s.ledger.effects := by
          rw [hv]
          exact Table.delete_eq_self fun e _ => hwhole .effects _ (by decide)
        rw [View.effects, htable]
      have hreach : (v.sealsRun targets r || r.effectsInvalidated)
          = ((s.ledger.effects.rows.any fun e => decide (e.scopeId = r.scopeId)
              && decide (e.runId = r.runId) && v.removes targets e.id) || r.effectsInvalidated) := by
        cases hinv : r.effectsInvalidated with
        | true => rw [Bool.or_true, Bool.or_true]
        | false =>
          rw [Bool.or_false, Bool.or_false, View.sealsRun, hinv, heffects, Bool.eq_iff_iff]
          simp only [Bool.not_false, Bool.true_and, Bool.and_eq_true, List.any_eq_true,
            List.mem_filter, decide_eq_true_eq, View.removes]
          constructor
          · rintro ⟨⟨hread, hdelete⟩, e, ⟨he, _⟩, ⟨hscope, hrun⟩, hmem⟩
            refine ⟨e, he, ⟨hscope, hrun⟩, hmem, ?_⟩
            rw [(h.effect he).deletable h.foreign.marked hp.anchor, hscope]
            exact ⟨hread, hdelete⟩
          · rintro ⟨e, he, ⟨hscope, hrun⟩, hmem, hdel⟩
            rw [(h.effect he).deletable h.foreign.marked hp.anchor, hscope] at hdel
            exact ⟨hdel, e, ⟨he, hseen (h.effect he) (hscope ▸ hdel.1)⟩, ⟨hscope, hrun⟩, hmem⟩
      cases hinv : r.effectsInvalidated with
      | true =>
        have hsame : { r with effectsInvalidated := true } = r := by
          cases r
          cases hinv
          rfl
        rw [hsame, ite_self, ite_self]
      | false =>
        rw [hinv, Bool.or_false, Bool.or_false] at hreach
        rw [hreach]
        rfl
  | branches =>
    simp only [exec, hv]
    refine congrArg (fun t => ({ s.erase gone with checkpointing.branches := t } : Store))
      (Table.update_update (fun b _ => ?_) fun b hb => ?_)
    · cases hhead : b.headId with
      | none => rfl
      | some head => exact hwhole .branches _ (by decide)
    · cases hinv : b.invalidated with
      | true =>
        have hsame : { b with invalidated := true } = b := by
          cases b
          cases hinv
          rfl
        rw [hsame, ite_self, ite_self]
      | false =>
        have hreach : v.sealsBranch targets b = b.headId.any (v.removes targets) := by
          rw [View.sealsBranch, hinv]
          cases hhead : b.headId with
          | none => simp
          | some head =>
            obtain ⟨o, ho, hkey⟩ := h.foreign.checkpoint.branch_head.exists_parent hb
              (by rw [hhead, Option.map_some])
            simp only [Prod.mk.injEq] at hkey
            have ha : Anchored s head b.scopeId := ⟨o, ho, hkey.1, hkey.2.1⟩
            rw [Option.any_some, Option.any_some, View.removes_eq h hp ha, View.branchUpdatable,
              Bool.eq_iff_iff]
            simp only [Bool.not_false, Bool.true_and, Bool.and_eq_true, Bool.or_eq_true,
              decide_eq_true_eq]
            constructor
            · rintro ⟨⟨hread, -⟩, hmem⟩
              exact ⟨hmem, hread⟩
            · rintro ⟨hmem, hread⟩
              exact ⟨⟨hread, Or.inr (hp.deletes head hmem _ ha hread)⟩, hmem⟩
        rw [hreach]
        rfl
  | checkpointReferences =>
    simp only [exec, hv]
    refine congrArg (fun t => ({ s.erase gone with checkpointing.references := t } : Store))
      (Table.delete_delete (fun r _ => hwhole .checkpointReferences _ (by decide)) fun r hr => ?_)
    refine View.erases_eq h hp (h.referenceCheckpoint hr) fun hread => ?_
    rw [hseen (h.referenceCheckpoint hr) hread, hseen (h.referenceSource hr) hread, Bool.and_true]
  | checkpoints =>
    simp only [exec, hv]
    refine congrArg (fun t => ({ s.erase gone with checkpointing.checkpoints := t } : Store))
      (Table.delete_delete (fun r _ => hwhole .checkpoints _ (by decide)) fun r hr => ?_)
    exact View.erases_eq h hp (h.checkpoint hr) fun hread => hseen (h.checkpoint hr) hread
  | effectReferences =>
    simp only [exec, hv]
    refine congrArg (fun t => ({ s.erase gone with ledger.references := t } : Store))
      (Table.delete_delete (fun r _ => hwhole .effectReferences _ (by decide)) fun r hr => ?_)
    refine View.erases_eq h hp (h.referenceEffect hr) fun hread => ?_
    rw [hseen (h.referenceEffect hr) hread, hseen (h.effectReferenceSource hr) hread,
      Bool.and_true]
  | effectRevisions =>
    simp only [exec, hv]
    refine congrArg (fun t => ({ s.erase gone with ledger.revisions := t } : Store))
      (Table.delete_delete (fun r _ => hwhole .effectRevisions _ (by decide)) fun r hr => ?_)
    obtain ⟨e, he, hid⟩ := h.effectRevision hr
    exact hid ▸ View.erases_eq h hp (h.effect he) fun hread => hseen (h.effect he) hread
  | effects =>
    simp only [exec, hv]
    refine congrArg (fun t => ({ s.erase gone with ledger.effects := t } : Store))
      (Table.delete_delete (fun r _ => hwhole .effects _ (by decide)) fun r hr => ?_)
    exact View.erases_eq h hp (h.effect hr) fun hread => hseen (h.effect hr) hread
  | edges =>
    simp only [exec, hv]
    refine congrArg (fun t => ({ s.erase gone with contents.edges := t } : Store))
      (Table.delete_delete (fun r _ => hwhole .edges _ (by decide)) fun r hr => ?_)
    refine View.erases_eq h hp (h.edgeChild hr) fun hread => ?_
    rw [hseen (h.edgeChild hr) hread, hseen (h.edgeParent hr) hread, Bool.and_true]
  | targets =>
    simp only [exec, hv]
    refine congrArg (fun t => ({ s.erase gone with graph.targets := t } : Store))
      (Table.delete_delete (fun r _ => hwhole .targets _ (by decide)) fun r hr => ?_)
    refine View.erases_eq h hp (h.target hr) fun hread => ?_
    obtain ⟨l, hl, hid, hscope⟩ := h.targetRelation hr
    -- the relation of the row is deleted by a later statement
    have htable : v.store.graph.relations = s.graph.relations := by
      rw [hv]
      exact Table.delete_eq_self fun l _ => hwhole .relations _ (by decide)
    have hrelation : v.relation? r.assertionId = some l := by
      refine Option.filter_eq_some_iff.mpr ⟨?_, ?_⟩
      · rw [htable]
        exact Table.find?_eq_some_iff.mpr ⟨hl, hid⟩
      · rw [hseen (h.relation hl) (hscope ▸ hread), hseen (h.relationSource hl) (hscope ▸ hread),
          Bool.and_true]
    rw [View.targetReadable, hseen (h.target hr) hread, hseen (h.targetEntity hr) hread, hrelation]
    rfl
  | relations =>
    simp only [exec, hv]
    refine congrArg (fun t => ({ s.erase gone with graph.relations := t } : Store))
      (Table.delete_delete (fun r _ => hwhole .relations _ (by decide)) fun r hr => ?_)
    refine View.erases_eq h hp (h.relation hr) fun hread => ?_
    rw [hseen (h.relation hr) hread, hseen (h.relationSource hr) hread, Bool.and_true]
  | revisions =>
    have htable : (s.erase gone).contents.revisions = s.contents.revisions :=
      Table.delete_eq_self fun r _ => hwhole .revisions _ (by decide)
    have herased : ∀ r ∈ s.contents.revisions,
        v.erasesRevision targets r = v.removes targets r.assertionId :=
      fun r hr => View.erases_eq h hp (h.revision hr) fun hread => hseen (h.revision hr) hread
    have hrevisions : (s.erase gone).contents.revisions.delete (v.erasesRevision targets)
        = s.contents.revisions.delete fun r => v.removes targets r.assertionId :=
      Table.delete_delete (fun r _ => hwhole .revisions _ (by decide)) herased
    have hlexical : ((s.erase gone).contents.assertionLexical.delete fun l =>
        s.contents.revisions.rows.any fun r => v.erasesRevision targets r
          && decide (r.assertionId = l.assertionId) && decide (r.revision = l.revision))
        = s.contents.assertionLexical.delete fun l => v.removes targets l.assertionId := by
      refine Table.delete_delete (fun l _ => hwhole .revisions _ (by decide)) fun l hl => ?_
      simp only [Bool.and_assoc]
      refine any_parent_eq (fun r l => decide (r.assertionId = l.assertionId)
        && decide (r.revision = l.revision)) (fun l => l.assertionId)
        h.foreign.content.assertionLexical_revision herased (fun r l hkey => ?_) (fun r l hsame => ?_) hl
      · simp only [Prod.mk.injEq] at hkey
        simp [hkey]
      · simp only [Bool.and_eq_true, decide_eq_true_eq] at hsame
        exact hsame.1
    have hembeddings : ((s.erase gone).contents.assertionEmbeddings.delete fun l =>
        s.contents.revisions.rows.any fun r => v.erasesRevision targets r
          && decide (r.assertionId = l.assertionId) && decide (r.revision = l.revision))
        = s.contents.assertionEmbeddings.delete fun l => v.removes targets l.assertionId := by
      refine Table.delete_delete (fun l _ => hwhole .revisions _ (by decide)) fun l hl => ?_
      simp only [Bool.and_assoc]
      refine any_parent_eq (fun r l => decide (r.assertionId = l.assertionId)
        && decide (r.revision = l.revision)) (fun l => l.assertionId)
        h.foreign.content.assertionEmbedding_revision herased (fun r l hkey => ?_) (fun r l hsame => ?_) hl
      · simp only [Prod.mk.injEq] at hkey
        simp [hkey]
      · simp only [Bool.and_eq_true, decide_eq_true_eq] at hsame
        exact hsame.1
    simp only [exec, hv]
    rw [hrevisions, htable, hlexical, hembeddings]
    rfl
  | assertions =>
    simp only [exec, hv]
    refine congrArg (fun t => ({ s.erase gone with contents.assertions := t } : Store))
      (Table.delete_delete (fun r _ => hwhole .assertions _ (by decide)) fun r hr => ?_)
    exact View.erases_eq h hp (h.assertion hr) fun hread => hseen (h.assertion hr) hread
  | entityEvidence =>
    simp only [exec, hv]
    refine congrArg (fun t => ({ s.erase gone with graph.evidence := t } : Store))
      (Table.delete_delete (fun r _ => hwhole .entityEvidence _ (by decide)) fun r hr => ?_)
    refine View.erases_eq h hp (h.evidenceEntity hr) fun hread => ?_
    rw [hseen (h.evidenceEntity hr) hread, hseen (h.evidenceSource hr) hread, Bool.and_true]
  | entities =>
    simp only [exec, hv]
    refine congrArg (fun t => ({ s.erase gone with graph.entities := t } : Store))
      (Table.delete_delete (fun r _ => hwhole .entities _ (by decide)) fun r hr => ?_)
    exact View.erases_eq h hp (h.entity hr) fun hread => hseen (h.entity hr) hread
  | episodes =>
    have htable : (s.erase gone).contents.episodes = s.contents.episodes :=
      Table.delete_eq_self fun r _ => hwhole .episodes _ (by decide)
    have herased : ∀ r ∈ s.contents.episodes,
        v.erasesEpisode targets r = v.removes targets r.id :=
      fun r hr => View.erases_eq h hp (h.episode hr) fun hread => hseen (h.episode hr) hread
    have hepisodes : (s.erase gone).contents.episodes.delete (v.erasesEpisode targets)
        = s.contents.episodes.delete fun r => v.removes targets r.id :=
      Table.delete_delete (fun r _ => hwhole .episodes _ (by decide)) herased
    have hlexical : ((s.erase gone).contents.episodeLexical.delete fun l =>
        s.contents.episodes.rows.any fun r => v.erasesEpisode targets r
          && decide (r.id = l.episodeId))
        = s.contents.episodeLexical.delete fun l => v.removes targets l.episodeId := by
      refine Table.delete_delete (fun l _ => hwhole .episodes _ (by decide)) fun l hl => ?_
      refine any_parent_eq (fun r l => decide (r.id = l.episodeId)) (fun l => l.episodeId)
        h.foreign.content.episodeLexical_episode herased
        (fun r l hkey => ?_) (fun r l hsame => of_decide_eq_true hsame) hl
      exact decide_eq_true (Prod.mk.inj hkey).1
    have hembeddings : ((s.erase gone).contents.episodeEmbeddings.delete fun l =>
        s.contents.episodes.rows.any fun r => v.erasesEpisode targets r
          && decide (r.id = l.episodeId))
        = s.contents.episodeEmbeddings.delete fun l => v.removes targets l.episodeId := by
      refine Table.delete_delete (fun l _ => hwhole .episodes _ (by decide)) fun l hl => ?_
      refine any_parent_eq (fun r l => decide (r.id = l.episodeId)) (fun l => l.episodeId)
        h.foreign.content.episodeEmbedding_episode herased
        (fun r l hkey => ?_) (fun r l hsame => of_decide_eq_true hsame) hl
      exact decide_eq_true (Prod.mk.inj hkey).1
    simp only [exec, hv]
    rw [hepisodes, htable, hlexical, hembeddings]
    rfl

end PgAgmemory

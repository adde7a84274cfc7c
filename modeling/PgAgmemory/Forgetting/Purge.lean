import PgAgmemory.Forgetting.Steps

/-! # The targets of a purge

From the targets that `forget` selects, the deletion statements of a purge always run to their end and
erase coherently (`run_erase`). What they defer to the commit is about a target or about a branch that
the purge sealed. -/

namespace PgAgmemory

open Keyed (HasKey Table key)
open Keyed.Table (References)
open Interactive (Program)

/-- What a statement at a moment of a timeline sees of a store. -/
def viewAt (timeline : Timeline) (principal : UUID) (s : Store) (n : Nat) : View :=
  ⟨s, principal, (timeline.moment n).timestamp⟩

section Run

variable {timeline : Timeline} {principal : UUID} {s : Store}

/-- Along a timeline, permissions can only be lost. -/
theorem permitted_viewAt_of_le {m n : Nat} (hmn : m ≤ n) {scope : UUID} {permission : Permission}
    (h : (viewAt timeline principal s n).permitted scope permission = true) :
    (viewAt timeline principal s m).permitted scope permission = true :=
  View.permitted_of_le (v := viewAt timeline principal s m) (w := viewAt timeline principal s n)
    rfl rfl (timeline.mono m n hmn) h

/-- **The targets of a purge** whose statements begin at a moment: they are live objects, a scope that
can be read can be deleted from, and what is derived from a target in a readable scope is a
target. -/
structure Targets (timeline : Timeline) (principal : UUID) (s : Store) (targets : List UUID)
    (n : Nat) : Prop where
  anchored : ∀ id ∈ targets, ∃ scope, Anchored s id scope
  live : ∀ id ∈ targets, Untombstoned s id
  deletes : ∀ id ∈ targets, ∀ scope, Anchored s id scope → ∀ k,
    (viewAt timeline principal s k).permitted scope .read = true →
      (viewAt timeline principal s k).permitted scope .delete = true
  closed : ∀ a ∈ targets, ∀ b, Derives s a b → ∀ scope, Anchored s a scope → ∀ k, n ≤ k →
    (viewAt timeline principal s k).permitted scope .read = true → b ∈ targets

/-- **What a purge takes away**, statement by statement. -/
def goneAt (timeline : Timeline) (principal : UUID) (s : Store) (targets : List UUID) (n : Nat) :
    Gone :=
  fun purgeStep id => (viewAt timeline principal s (n + purgeStep.rank)).removes targets id

variable {targets : List UUID} {n : Nat}

/-- The targets as one statement of the purge has them. -/
theorem Targets.purging (h : Targets timeline principal s targets n) (k : Nat) :
    Purging s targets (viewAt timeline principal s k) :=
  ⟨rfl, h.live, fun id hid scope ha hread => h.deletes id hid scope ha k hread⟩

/-- **A target is gone** for a statement exactly when its scope is readable there. -/
theorem goneAt_eq (hs : Grounded s) (h : Targets timeline principal s targets n) {id scope : UUID}
    (ha : Anchored s id scope) (purgeStep : PurgeStep) :
    goneAt timeline principal s targets n purgeStep id = (decide (id ∈ targets)
      && (viewAt timeline principal s (n + purgeStep.rank)).permitted scope .read) :=
  View.removes_eq hs (h.purging _) ha

/-- What is gone is a target in a scope. -/
theorem anchored_of_goneAt {purgeStep : PurgeStep} {id : UUID}
    (hgone : goneAt timeline principal s targets n purgeStep id = true) :
    ∃ scope, Anchored s id scope := by
  rw [goneAt, View.removes, Bool.and_eq_true] at hgone
  obtain ⟨o, ho, hid, -, -⟩ := View.deletable_eq_true.mp hgone.2
  exact ⟨o.scopeId, o, ho, hid, rfl⟩

/-- **A purge erases coherently.** -/
theorem coherent_goneAt (hs : Grounded s) (h : Targets timeline principal s targets n) :
    Coherent s (goneAt timeline principal s targets n) := by
  constructor
  · intro p q id hrank hq
    obtain ⟨scope, ha⟩ := anchored_of_goneAt hq
    rw [goneAt_eq hs h ha, Bool.and_eq_true] at hq ⊢
    exact ⟨hq.1, permitted_viewAt_of_le (Nat.add_le_add_left hrank n) hq.2⟩
  · intro p a b hab hgone
    obtain ⟨scope, ha, hb, -⟩ := hs.derives hab
    rw [goneAt_eq hs h ha, Bool.and_eq_true, decide_eq_true_eq] at hgone
    rw [goneAt_eq hs h hb.anchored, Bool.and_eq_true, decide_eq_true_eq]
    exact ⟨h.closed a hgone.1 b hab scope ha _ (Nat.le_add_right n _) hgone.2, hgone.2⟩

/-! ## Deferred checks -/

/-- The object that a deferred check is about, where it is about one. -/
def Deferred.subject : Deferred → Option UUID
  | .assertionHistory id | .relationShape id | .entityEvidence id | .checkpointReferences id
  | .toolEffect id | .jobInputs id => some id
  | .checkpointHead _ _ _ => none

/-- A deferred check of a purge is about a target, or about a branch that the purge sealed. -/
def OfPurge (s : Store) (targets : List UUID) (gone : Gone) (d : Deferred) : Prop :=
  (∃ id ∈ targets, d.subject = some id) ∨ ∃ b ∈ s.checkpointing.branches,
    d = .checkpointHead b.scopeId b.runId b.branchId ∧ b.headId.any (gone .branches) = true

/-- The checks that one statement of a purge defers. -/
theorem PurgeStep.deferred_ofPurge {v : View} {gone : Gone} (hs : Grounded s)
    (hp : Purging s targets v) (purgeStep : PurgeStep)
    (hbranches : purgeStep = .branches →
      v.store.checkpointing.branches = s.checkpointing.branches)
    (hgone : purgeStep = .branches → ∀ id, gone .branches id = v.removes targets id)
    {d : Deferred} (hd : d ∈ purgeStep.deferred v targets) :
    OfPurge s targets gone d := by
  have htarget : ∀ {id : UUID}, (decide (id ∈ targets) && v.deletable id) = true →
      d.subject = some id → OfPurge s targets gone d := by
    intro id hboth hsubject
    rw [Bool.and_eq_true, decide_eq_true_eq] at hboth
    exact Or.inl ⟨id, hboth.1, hsubject⟩
  -- Only the update of the branches defers a check about an object that it does not delete.
  cases purgeStep with
  | branches =>
    obtain ⟨b, hb, rfl⟩ := List.mem_map.mp hd
    obtain ⟨hmem, hseals⟩ := List.mem_filter.mp hb
    have hmem : b ∈ s.checkpointing.branches := hbranches rfl ▸ hmem
    refine Or.inr ⟨b, hmem, rfl, ?_⟩
    rw [View.sealsBranch, Bool.and_eq_true, Bool.and_eq_true] at hseals
    obtain ⟨⟨-, hupdatable⟩, hhead⟩ := hseals
    cases hsome : b.headId with
    | none =>
      rw [hsome] at hhead
      cases hhead
    | some head =>
      rw [View.branchUpdatable, Bool.and_eq_true] at hupdatable
      rw [hsome, Option.any_some] at hhead
      rw [Option.any_some, hgone rfl head, View.removes_eq hs hp (hs.anchored_head hmem hsome),
        Bool.and_eq_true]
      exact ⟨hhead, hupdatable.1⟩
  | jobInputs =>
    obtain ⟨r, hr, rfl⟩ := List.mem_map.mp hd
    exact htarget (List.mem_filter.mp hr).2 rfl
  | checkpointReferences =>
    obtain ⟨r, hr, rfl⟩ := List.mem_map.mp hd
    exact htarget (List.mem_filter.mp hr).2 rfl
  | effectReferences =>
    obtain ⟨r, hr, rfl⟩ := List.mem_map.mp hd
    exact htarget (List.mem_filter.mp hr).2 rfl
  | effectRevisions =>
    obtain ⟨r, hr, rfl⟩ := List.mem_map.mp hd
    exact htarget (List.mem_filter.mp hr).2 rfl
  | edges =>
    obtain ⟨r, hr, rfl⟩ := List.mem_map.mp hd
    exact htarget (List.mem_filter.mp hr).2 rfl
  | targets =>
    obtain ⟨r, hr, rfl⟩ := List.mem_map.mp hd
    exact htarget (List.mem_filter.mp hr).2 rfl
  | relations =>
    obtain ⟨r, hr, rfl⟩ := List.mem_map.mp hd
    exact htarget (List.mem_filter.mp hr).2 rfl
  | entityEvidence =>
    obtain ⟨r, hr, rfl⟩ := List.mem_map.mp hd
    exact htarget (List.mem_filter.mp hr).2 rfl
  | revisions =>
    obtain ⟨r, hr, hmem⟩ := List.mem_flatMap.mp hd
    have hboth := (List.mem_filter.mp hr).2
    rcases List.mem_cons.mp hmem with rfl | hmem
    · exact htarget hboth rfl
    · obtain rfl := List.mem_singleton.mp hmem
      exact htarget hboth rfl
  | jobs => cases hd
  | runs => cases hd
  | checkpoints => cases hd
  | effects => cases hd
  | assertions => cases hd
  | entities => cases hd
  | episodes => cases hd

/-- What cannot be seen at the commit is not checked. -/
theorem Deferred.check_of_hidden {w : View} {d : Deferred} {id : UUID} (hd : d.subject = some id)
    (hhidden : w.visible id = false) : d.check w = true := by
  have hnone : ∀ {α : Type} (own : α → UUID) {o : Option α}, (∀ r, o = some r → own r = id) →
      o.filter (fun r => w.visible (own r)) = none := by
    intro α own o hown
    refine Option.filter_eq_none_iff.mpr fun r hr => ?_
    rw [hown r hr, hhidden]
    exact Bool.false_ne_true
  cases d with
  | checkpointHead scope run branch => cases hd
  | assertionHistory id' =>
    cases hd
    rw [check, View.checkAssertionHistory, View.assertion?,
      hnone AssertionRow.id fun r hr => (Table.find?_eq_some_iff.mp hr).2]
    rfl
  | relationShape id' =>
    cases hd
    rw [check, View.checkRelation, View.assertion?,
      hnone AssertionRow.id fun r hr => (Table.find?_eq_some_iff.mp hr).2]
    rfl
  | entityEvidence id' =>
    cases hd
    rw [check, View.checkEntityEvidence, View.entity?,
      hnone EntityRow.id fun r hr => (Table.find?_eq_some_iff.mp hr).2]
    rfl
  | checkpointReferences id' =>
    cases hd
    rw [check, View.checkCheckpoint, View.checkpoint?,
      hnone CheckpointRow.id fun r hr => (Table.find?_eq_some_iff.mp hr).2]
    rfl
  | toolEffect id' =>
    cases hd
    rw [check, View.checkToolEffect, View.effect?,
      hnone ToolEffectRow.id fun r hr => (Table.find?_eq_some_iff.mp hr).2]
    rfl
  | jobInputs id' =>
    cases hd
    rw [check, View.checkJobInputs, View.job?,
      hnone JobRow.id fun r hr => (Table.find?_eq_some_iff.mp hr).2]
    rfl

/-! ## The deletion statements -/

theorem PurgeStep.mem_all (purgeStep : PurgeStep) : purgeStep ∈ PurgeStep.all := by
  cases purgeStep <;> decide

/-- The places of the statements. -/
theorem PurgeStep.rank_lt (purgeStep : PurgeStep) : purgeStep.rank < 17 :=
  List.idxOf_lt_length_of_mem purgeStep.mem_all

/-- The places of the statements tell them apart. -/
theorem PurgeStep.rank_inj {p q : PurgeStep} (h : p.rank = q.rank) : p = q :=
  (List.idxOf_inj p.mem_all).mp h

/-- The place of a statement that comes after others. -/
theorem PurgeStep.rank_eq {before after : List PurgeStep} {purgeStep : PurgeStep}
    (h : before ++ purgeStep :: after = PurgeStep.all) : purgeStep.rank = before.length := by
  have hnodup : (before ++ purgeStep :: after).Nodup := h ▸ (by decide : PurgeStep.all.Nodup)
  have hfresh : purgeStep ∉ before := fun hmem =>
    (List.disjoint_of_nodup_append hnodup) hmem List.mem_cons_self
  rw [rank, ← h, List.idxOf_append_of_notMem hfresh, List.idxOf_cons_self, Nat.add_zero]

/-- After one more statement, what it takes away is gone. -/
theorem Gone.update_upto {gone : Gone} {purgeStep : PurgeStep} {removed : UUID → Bool}
    (h : gone purgeStep = removed) :
    Function.update (gone.upto purgeStep.rank) purgeStep removed
      = gone.upto (purgeStep.rank + 1) := by
  funext q id
  by_cases hq : q = purgeStep
  · subst hq
    rw [Function.update_self, Gone.upto, ← h, decide_eq_true (Nat.lt_succ_self _), Bool.true_and]
  · have hne : q.rank ≠ purgeStep.rank := fun heq => hq (PurgeStep.rank_inj heq)
    have hiff : q.rank < purgeStep.rank + 1 ↔ q.rank < purgeStep.rank := by omega
    rw [Function.update_of_ne hq, Gone.upto, Gone.upto, decide_eq_decide.mpr hiff]

/-- Nothing is gone before the first statement. -/
theorem Gone.upto_zero (gone : Gone) : gone.upto 0 = nothingGone := by
  funext q id
  rw [Gone.upto, decide_eq_false (Nat.not_lt_zero _), Bool.false_and]
  rfl

/-- Everything is gone after the last statement. -/
theorem Gone.upto_all (gone : Gone) : gone.upto PurgeStep.all.length = gone := by
  funext q id
  rw [Gone.upto, PurgeStep.rank, decide_eq_true (List.idxOf_lt_length_of_mem q.mem_all),
    Bool.true_and]

section Erase

variable (platform : Platform)

/-- The remaining deletion statements run to their end. -/
theorem run_erase_from (hs : Grounded s) (hu : UniqueKeys s)
    (h : Targets timeline principal s targets n) (before after : List PurgeStep)
    (hall : before ++ after = PurgeStep.all) (D : List Deferred) :
    ∃ D', runFrom platform timeline
        (forEach after fun purgeStep => send (.purge purgeStep targets))
        (n + before.length)
        ⟨principal, s.erase ((goneAt timeline principal s targets n).upto before.length), D⟩
      = .ok ((), n + PurgeStep.all.length,
          ⟨principal, s.erase (goneAt timeline principal s targets n), D ++ D'⟩)
      ∧ ∀ d ∈ D', OfPurge s targets (goneAt timeline principal s targets n) d := by
  induction after generalizing before D with
  | nil =>
    rw [List.append_nil] at hall
    refine ⟨[], ?_, fun d hd => absurd hd List.not_mem_nil⟩
    rw [hall, Gone.upto_all, List.append_nil]
    rfl
  | cons purgeStep after ih =>
    have hrank := PurgeStep.rank_eq hall
    have hcoherent := coherent_goneAt hs h
    -- the view of this statement: the earlier tables are erased, the later ones whole
    let gone := (goneAt timeline principal s targets n).upto before.length
    let v : View := ⟨s.erase gone, principal,
      (timeline.moment (n + before.length)).timestamp⟩
    have hp : Purging s targets v :=
      ⟨rfl, h.live, fun id hid scope ha hread => h.deletes id hid scope ha _ hread⟩
    have hwhole : ∀ q id, purgeStep.rank ≤ q.rank → gone q id = false := by
      intro q id hq
      have hlate : ¬ q.rank < before.length := by omega
      show (decide (q.rank < before.length) && _) = false
      rw [decide_eq_false hlate, Bool.false_and]
    have hremoves : goneAt timeline principal s targets n purgeStep = v.removes targets := by
      funext id
      rw [goneAt, hrank]
      rfl
    have hlength : (before ++ [purgeStep]).length = before.length + 1 := List.length_append
    have hnext : Function.update gone purgeStep (v.removes targets)
        = (goneAt timeline principal s targets n).upto (before ++ [purgeStep]).length := by
      have hupdate := Gone.update_upto hremoves
      rw [hrank] at hupdate
      rw [hlength]
      exact hupdate
    have hexec := (PurgeStep.exec_erase hs hp rfl purgeStep hwhole).trans
      (congrArg s.erase hnext)
    have hkeys := hs.foreign.erase (hcoherent.upto (before ++ [purgeStep]).length)
    have hstep : step platform (.purge purgeStep targets)
        (timeline.moment (n + before.length)) ⟨principal, v.store, D⟩
        = .ok (.done, ⟨principal, s.erase ((goneAt timeline principal s targets n).upto
            (before ++ [purgeStep]).length), D ++ purgeStep.deferred v targets⟩) :=
      step_eq_ok.mpr ⟨rfl, by rw [← hexec]; rfl, ⟨hkeys, hu.erase _⟩, rfl, rfl⟩
    obtain ⟨D', hrun, hD'⟩ := ih (before ++ [purgeStep])
      (by rw [List.append_assoc, List.singleton_append]; exact hall)
      (D ++ purgeStep.deferred v targets)
    refine ⟨purgeStep.deferred v targets ++ D', ?_, ?_⟩
    · rw [hlength] at hrun hstep
      rw [List.append_assoc] at hrun
      rw [forEach, List.forM_eq_forM, List.forM_cons, send, Program.execute_bind, runFrom,
        Program.run_execute, hstep]
      exact hrun
    · intro d hd
      rcases List.mem_append.mp hd with hd | hd
      · refine PurgeStep.deferred_ofPurge hs hp purgeStep (fun hbranches => ?_)
          (fun hbranches id => ?_) hd
        · apply Table.update_eq_self
          · exact fun _ => rfl
          · intro b _
            cases b.headId with
            | none => rfl
            | some head => exact hwhole .branches head (hbranches ▸ Nat.le_refl _)
        · rw [← hbranches, hremoves]
      · exact hD' d hd

/-- **The deletion statements of a purge run to their end**, and what they leave is an erasure. -/
theorem run_erase (hs : Grounded s) (hu : UniqueKeys s) (h : Targets timeline principal s targets n)
    (D : List Deferred) :
    ∃ D', runFrom platform timeline (MemoryService.erase targets) n ⟨principal, s, D⟩
      = .ok ((), n + PurgeStep.all.length,
          ⟨principal, s.erase (goneAt timeline principal s targets n), D ++ D'⟩)
      ∧ ∀ d ∈ D', OfPurge s targets (goneAt timeline principal s targets n) d := by
  have hrun := run_erase_from platform hs hu h [] PurgeStep.all rfl D
  rw [List.length_nil, Gone.upto_zero, Store.erase_nothing] at hrun
  exact hrun

end Erase

end Run

end PgAgmemory

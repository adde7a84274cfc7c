import PgAgmemory.History.Whole
import PgAgmemory.System.Outcomes
import Mathlib.Data.Finset.Interval
import Mathlib.Order.Interval.Finset.Nat

/-! # Loads in an intact store

A load checks what it reads against the counts of the row. In an intact store nothing is missing, so
to a caller who holds the permission (`Holds`) a load fails for no reason of its own. -/

namespace PgAgmemory

open Keyed (HasKey Table key)
open Interactive (Program)
open MemoryService

/-- **A held permission**: every statement of the timeline has it. -/
def Holds (timeline : Timeline) (σ : Session) (scope : UUID) (permission : Permission) : Prop :=
  ∀ k, (σ.view (timeline.moment k)).permitted scope permission = true

/-- Whether a membership has a permission and no expiry. -/
def ScopeMemberRow.lasting (m : ScopeMemberRow) (permission : Permission) : Bool :=
  (m.permissions.contains permission || m.permissions.contains .admin) && m.expiresAt.isNone

/-- **A membership that does not expire is held.** -/
theorem holds_of_lasting {timeline : Timeline} {σ : Session} {scope : UUID}
    {permission : Permission} (h : (σ.store.access.members.find? (scope, σ.principal)).any
      (fun m => m.lasting permission) = true) : Holds timeline σ scope permission := by
  intro k
  obtain ⟨m, hm, hlasting⟩ := (Option.any_eq_true _ _).mp h
  obtain ⟨hgranted, hnone⟩ := Bool.and_eq_true_iff.mp hlasting
  refine (Option.any_eq_true _ _).mpr ⟨m, hm, ?_⟩
  rw [ScopeMemberRow.grants, hgranted, Option.isNone_iff_eq_none.mp hnone]
  rfl

/-! ## Rows in a readable scope -/

section Views

variable {v : View}

/-- The object of a row. -/
theorem View.exists_object? (hgrounded : Grounded v.store) {id scope : UUID} {kind : ObjectKind}
    (hobject : ∃ o ∈ v.store.anchor.objects, (o.id, o.scopeId, o.kind) = (id, scope, kind))
    (hfree : Untombstoned v.store id) (hread : v.permitted scope .read = true) :
    ∃ o, v.object? id = some o ∧ o.scopeId = scope ∧ o.kind = kind := by
  obtain ⟨o, ho, hkey⟩ := hobject
  obtain ⟨rfl, hrest⟩ := Prod.mk.inj hkey
  obtain ⟨rfl, rfl⟩ := Prod.mk.inj hrest
  exact ⟨o, View.object?_eq_some.mpr ⟨ho, rfl, (View.readable_iff hgrounded.foreign.marked ho).mpr
    ⟨hread, hfree⟩⟩, rfl, rfl⟩

/-- An effect in a readable scope. -/
theorem View.effect?_of_mem (hgrounded : Grounded v.store) {e : ToolEffectRow}
    (he : e ∈ v.store.ledger.effects) (hread : v.permitted e.scopeId .read = true) :
    v.effect? e.id = some e :=
  Option.filter_eq_some_iff.mpr ⟨Table.find?_eq_some_iff.mpr ⟨he, rfl⟩,
    ((hgrounded.effect he).visible hgrounded.foreign.marked rfl).mpr hread⟩

/-- The current revision of an effect in a readable scope. -/
theorem View.effectRevision?_of_current (hgrounded : Grounded v.store) {e : ToolEffectRow}
    (he : e ∈ v.store.ledger.effects) (hread : v.permitted e.scopeId .read = true)
    {r : ToolEffectRevisionRow} (hr : v.store.ledger.Current e r) :
    v.effectRevision? e.id e.currentRevision = some r := by
  obtain ⟨⟨hmem, hid⟩, hrevision⟩ := hr
  refine Option.filter_eq_some_iff.mpr ⟨Table.find?_eq_some_iff.mpr ⟨hmem, Prod.ext hid
    hrevision⟩, ?_⟩
  rw [hid]
  exact ((hgrounded.effect he).visible hgrounded.foreign.marked rfl).mpr hread

/-- The run of an effect. -/
theorem View.exists_run? (hgrounded : Grounded v.store) {e : ToolEffectRow}
    (he : e ∈ v.store.ledger.effects) (hread : v.permitted e.scopeId .read = true) :
    ∃ n ∈ v.store.checkpointing.runs, (n.scopeId, n.runId) = (e.scopeId, e.runId)
      ∧ v.run? e.scopeId e.runId = some n := by
  obtain ⟨n, hn, hkey⟩ := hgrounded.foreign.ledger.effect_run.exists_parent he rfl
  exact ⟨n, hn, hkey, View.run?_eq_some.mpr ⟨hn, hkey, hread⟩⟩

/-- The references of an effect in a readable scope: all of them. -/
theorem View.effectReferencesOf_eq (hgrounded : Grounded v.store) {e : ToolEffectRow}
    (he : e ∈ v.store.ledger.effects) (hread : v.permitted e.scopeId .read = true) :
    v.effectReferencesOf e.id = v.store.ledger.references.rows.filter (·.effectId = e.id) := by
  rw [View.effectReferencesOf, View.effectReferences, List.filter_filter]
  refine List.filter_congr fun r hr => ?_
  rw [Bool.eq_iff_iff, Bool.and_eq_true, Bool.and_eq_true, decide_eq_true_eq,
    and_iff_left_iff_imp]
  intro hid
  -- a reference lies in the scope of its effect, as does what it names
  have hscope : r.scopeId = e.scopeId :=
    (hgrounded.referenceEffect hr).anchored.unique (hid ▸ (hgrounded.effect he).anchored)
  have hmarked := hgrounded.foreign.marked
  exact ⟨((hgrounded.referenceEffect hr).visible hmarked rfl).mpr (hscope ▸ hread),
    ((hgrounded.effectReferenceSource hr).visible hmarked rfl).mpr (hscope ▸ hread)⟩

/-- **An effect shows as many references as it counts** exactly when it has them. -/
theorem View.length_effectReferencesOf_iff (hgrounded : Grounded v.store) {e : ToolEffectRow}
    (he : e ∈ v.store.ledger.effects) (hread : v.permitted e.scopeId .read = true) :
    (v.effectReferencesOf e.id).length = e.referenceCount ↔ v.store.ledger.Complete e.id := by
  rw [View.effectReferencesOf_eq hgrounded he hread, ← List.countP_eq_length_filter]
  constructor
  · intro hcount e' he' hid
    obtain rfl : e' = e := Table.eq_of_key_eq he' he hid
    exact hcount
  · exact fun hcomplete => hcomplete e he rfl

/-- The revisions of an effect in a readable scope. -/
theorem View.mem_effectRevisionsOf (hgrounded : Grounded v.store) {e : ToolEffectRow}
    (he : e ∈ v.store.ledger.effects) (hread : v.permitted e.scopeId .read = true)
    {r : ToolEffectRevisionRow} :
    r ∈ v.effectRevisionsOf e.id ↔ r ∈ v.store.ledger.revisionsOf e.id := by
  rw [View.effectRevisionsOf, List.mem_filter, View.effectRevisions, List.mem_filter,
    Table.mem_rows,
    decide_eq_true_eq]
  constructor
  · rintro ⟨⟨hr, -⟩, hid⟩
    exact ⟨hr, hid⟩
  · rintro ⟨hr, hid⟩
    refine ⟨⟨hr, ?_⟩, hid⟩
    rw [hid]
    exact ((hgrounded.effect he).visible hgrounded.foreign.marked rfl).mpr hread

/-- **An effect has as many revisions as its head says.** -/
theorem View.length_effectRevisionsOf (hgrounded : Grounded v.store) {e : ToolEffectRow}
    (he : e ∈ v.store.ledger.effects) (hread : v.permitted e.scopeId .read = true)
    (hrecorded : v.store.ledger.Recorded e) (hcurrent : ∃ r, v.store.ledger.Current e r) :
    (v.effectRevisionsOf e.id).length = e.currentRevision := by
  have hmem : ∀ {r}, r ∈ v.effectRevisionsOf e.id ↔ r ∈ v.store.ledger.revisionsOf e.id :=
    View.mem_effectRevisionsOf hgrounded he hread
  have hnodup : ((v.effectRevisionsOf e.id).map ToolEffectRevisionRow.revision).Nodup := by
    refine List.Nodup.map_on (fun r hr r' hr' hnumber => ?_) ?_
    · exact Ledger.Recorded.unique (hmem.mp hr) (hmem.mp hr') hnumber
    · exact ((Table.nodup_rows _).filter _).filter _
  have hset : ((v.effectRevisionsOf e.id).map ToolEffectRevisionRow.revision).toFinset
      = Finset.Icc 1 e.currentRevision := by
    ext k
    rw [List.mem_toFinset, List.mem_map, Finset.mem_Icc]
    constructor
    · rintro ⟨r, hr, rfl⟩
      exact ⟨hrecorded.positive r (hmem.mp hr), hrecorded.bounded r (hmem.mp hr)⟩
    · rintro ⟨hone, hle⟩
      obtain ⟨r, hr, hnumber⟩ := hcurrent
      obtain ⟨p, hp, hk⟩ := hrecorded.exists_revision hr hone (hle.trans_eq hnumber.symm)
      exact ⟨p, hmem.mpr hp, hk⟩
  have hcard := congrArg Finset.card hset
  rw [List.toFinset_card_of_nodup hnodup, List.length_map, Nat.card_Icc] at hcard
  omega

/-- **The deferred check of an effect** passes where nothing is missing. -/
theorem View.checkToolEffect_eq_true (hgrounded : Grounded v.store) {id : UUID}
    (hcomplete : v.store.ledger.Complete id) (hsequenced : v.store.ledger.Sequenced)
    (hcurrent : DeferredKeys v.store) : v.checkToolEffect id = true := by
  rw [View.checkToolEffect, Option.all_eq_true]
  intro e he
  obtain ⟨hfind, hvisible⟩ := Option.filter_eq_some_iff.mp he
  obtain ⟨hmem, rfl⟩ := Table.find?_eq_some_iff.mp hfind
  have hread := View.permitted_of_visible hvisible (hgrounded.effect hmem).anchored
  have hrecorded := hsequenced.recorded e hmem
  rw [Bool.and_eq_true, Bool.and_eq_true, decide_eq_true_eq, decide_eq_true_eq, List.all_eq_true]
  refine ⟨⟨View.length_effectRevisionsOf hgrounded hmem hread hrecorded
    (hcurrent.exists_current hmem), fun r hr => ?_⟩,
    (View.length_effectReferencesOf_iff hgrounded hmem hread).mpr hcomplete⟩
  exact decide_eq_true (hrecorded.bounded r ((View.mem_effectRevisionsOf hgrounded hmem hread).mp
    hr))

end Views

/-! ## Loads -/

section Loads

variable {platform : Platform} {timeline : Timeline} {n : Nat} {σ : Session}

/-- A held permission is found. -/
theorem outcome_scope_holds {scopeId : UUID} {permission : Permission}
    (hread : Holds timeline σ scopeId .read) (hholds : Holds timeline σ scopeId permission) :
    Outcome platform timeline (scope scopeId permission) (fun _ _ σ' => σ' = σ) (fun _ => False)
      n σ := by
  have hallowed : ((σ.view (timeline.moment n)).permitted scopeId .read
      && (σ.view (timeline.moment n)).permitted scopeId permission) = true :=
    Bool.and_eq_true_iff.mpr ⟨hread n, hholds n⟩
  refine outcome_read ?_
  rw [hallowed]
  exact rfl

/-- **A live object in a held scope** is found. -/
theorem outcome_object_holds (hgrounded : Grounded σ.store) {id scopeId : UUID} {kind : ObjectKind}
    (hobject : ∃ o ∈ σ.store.anchor.objects, (o.id, o.scopeId, o.kind) = (id, scopeId, kind))
    (hfree : Untombstoned σ.store id) {permission : Permission}
    (hread : Holds timeline σ scopeId .read) (hholds : Holds timeline σ scopeId permission) :
    Outcome platform timeline (object id permission)
      (fun o _ σ' => σ' = σ ∧ o.scopeId = scopeId ∧ o.kind = kind) (fun _ => False) n σ := by
  obtain ⟨o, ho, rfl, rfl⟩ := View.exists_object? (v := σ.view (timeline.moment n)) hgrounded
    hobject
    hfree (hread n)
  refine outcome_read (outcome_found (fun o' ho' => ?_) fun hnone => ?_)
  · obtain rfl : o = o' := Option.some.inj (ho.symm.trans ho')
    refine outcome_bind (outcome_scope_holds hread hholds) ?_
    rintro - m σ' - rfl
    exact outcome_pure ⟨rfl, rfl, rfl⟩
  · rw [ho] at hnone
    cases hnone

/-- **Loading an effect** in a held scope: it fails where references are missing. -/
theorem outcome_effectLoad_iff (hgrounded : Grounded σ.store) {e : ToolEffectRow}
    (he : e ∈ σ.store.ledger.effects) {r : ToolEffectRevisionRow} (hr : σ.store.ledger.Current e r)
    {permission : Permission} (hread : Holds timeline σ e.scopeId .read)
    (hholds : Holds timeline σ e.scopeId permission) :
    Outcome platform timeline (ToolEffects.load e.id permission)
      (fun loaded _ σ' => σ' = σ ∧ σ.store.ledger.Complete e.id ∧ loaded.row = e
        ∧ loaded.status = r.status
        ∧ ∃ row ∈ σ.store.checkpointing.runs, (row.scopeId, row.runId) = (e.scopeId, e.runId)
          ∧ loaded.runInvalidated = row.effectsInvalidated)
      (fun fault => ¬ σ.store.ledger.Complete e.id ∧ fault = .memory .effectInvalidated) n σ := by
  refine outcome_bind ((outcome_object_holds hgrounded
    (hgrounded.foreign.ledger.effect_object.exists_parent he rfl) (hgrounded.effect he).free hread
    hholds).mono (fun _ _ _ _ h => h) fun _ h => h.elim) ?_
  rintro o m σ' - ⟨rfl, -, hkind⟩
  refine outcome_demand (fun _ => outcome_read ?_) fun hfail => by simp [hkind] at hfail
  obtain ⟨row, hrow, hkey, hrun⟩ :=
    View.exists_run? (v := σ'.view (timeline.moment m)) hgrounded he (hread m)
  have hloaded : (σ'.view (timeline.moment m)).loadedEffect? e.id
      = some ⟨e, r.status, row.effectsInvalidated, []⟩ := by
    rw [View.loadedEffect?, View.effect?_of_mem hgrounded he (hread m), Option.bind_some,
      View.effectRevision?_of_current hgrounded he (hread m) hr, Option.bind_some, hrun,
        Option.map_some]
  refine outcome_found (fun loaded hsome => ?_) fun hnone => ?_
  swap
  · rw [hloaded] at hnone
    cases hnone
  obtain rfl := Option.some.inj (hloaded.symm.trans hsome)
  have hcount := View.length_effectReferencesOf_iff (v := σ'.view (timeline.moment (m + 1)))
    hgrounded he (hread (m + 1))
  refine outcome_read (outcome_demand (fun hall => ?_) fun hfail => ?_)
  · rw [List.length_insertionSort, List.length_map, decide_eq_true_eq] at hall
    exact outcome_pure ⟨rfl, hcount.mp hall, rfl, rfl, row, hrow, hkey, rfl⟩
  · rw [List.length_insertionSort, List.length_map, decide_eq_false_iff_not] at hfail
    exact ⟨fun hcomplete => hfail (hcount.mpr hcomplete), rfl⟩

/-- Loading an effect with all of its references. -/
theorem outcome_effectLoad (hgrounded : Grounded σ.store) {e : ToolEffectRow}
    (he : e ∈ σ.store.ledger.effects) (hcomplete : σ.store.ledger.Complete e.id)
    {r : ToolEffectRevisionRow} (hr : σ.store.ledger.Current e r) {permission : Permission}
    (hread : Holds timeline σ e.scopeId .read) (hholds : Holds timeline σ e.scopeId permission) :
    Outcome platform timeline (ToolEffects.load e.id permission)
      (fun loaded _ σ' => σ' = σ ∧ loaded.row = e ∧ loaded.status = r.status)
      (fun _ => False) n σ :=
  (outcome_effectLoad_iff hgrounded he hr hread hholds).mono
    (fun _ _ _ _ h => ⟨h.1, h.2.2.1, h.2.2.2.1⟩) fun _ h => h.1 hcomplete

/-- **Reading an effect** with its history. -/
theorem outcome_effectGet (hgrounded : Grounded σ.store) {e : ToolEffectRow}
    (he : e ∈ σ.store.ledger.effects) (hcomplete : σ.store.ledger.Complete e.id)
    (hrecorded : σ.store.ledger.Recorded e) {r : ToolEffectRevisionRow}
    (hr : σ.store.ledger.Current e r) (hread : Holds timeline σ e.scopeId .read) :
    Outcome platform timeline (ToolEffects.get e.id)
      (fun detail _ σ' => σ' = σ ∧ detail.effect.row = e ∧ detail.effect.status = r.status)
      (fun _ => False) n σ := by
  refine outcome_bind (outcome_effectLoad hgrounded he hcomplete hr hread hread) ?_
  rintro loaded m σ' - ⟨rfl, rfl, hstatus⟩
  refine outcome_read (outcome_demand (fun _ => outcome_pure ⟨rfl, rfl, hstatus⟩) fun hfail => ?_)
  have hcount := View.length_effectRevisionsOf (v := σ'.view (timeline.moment m)) hgrounded he
    (hread m) hrecorded ⟨r, hr⟩
  rw [List.length_insertionSort, hcount, decide_eq_false_iff_not] at hfail
  exact absurd rfl hfail

end Loads

end PgAgmemory

import PgAgmemory.History.Effects
import PgAgmemory.System.Outcomes

/-! # The fence of a restore

A restore lists the ledger of its run and gives every dispatched effect one more revision
(`Ledger.Fenced`). The listing is complete: the statements that come after it need the same membership,
so it had not expired by then. -/

namespace PgAgmemory

open Keyed (HasKey Table key)
open Interactive (Program)
open Interactive.Program (ReadOnly Sends)
open MemoryService

/-! ## Fenced ledgers -/

/-- **A fenced ledger**: each of some effects has one more revision, which is unknown, and all other
effects are as they were. -/
structure Ledger.Fenced (l l' : Ledger) (ids : List UUID) : Prop where
  fenced : ∀ e ∈ l.effects, e.id ∈ ids →
    { e with currentRevision := e.currentRevision + 1 } ∈ l'.effects
      ∧ ∃ r : ToolEffectRevisionRow, (r.effectId = e.id ∧ r.revision = e.currentRevision + 1
          ∧ r.status = .unknown) ∧ r ∉ l.revisions
        ∧ ∀ r', r' ∈ l'.revisionsOf e.id ↔ r' = r ∨ r' ∈ l.revisionsOf e.id
  others : ∀ e ∈ l.effects, e.id ∉ ids →
    e ∈ l'.effects ∧ l'.revisionsOf e.id = l.revisionsOf e.id
  known : ∀ e ∈ l'.effects, ∃ n, { e with currentRevision := n } ∈ l.effects
  references : l'.references = l.references
  identities : l'.identities = l.identities

namespace Ledger.Fenced

variable {l l' l'' : Ledger}

/-- A ledger is fenced against no effects. -/
theorem nil (l : Ledger) : l.Fenced l [] where
  fenced _ _ h := absurd h List.not_mem_nil
  others _ he _ := ⟨he, rfl⟩
  known e he := ⟨e.currentRevision, he⟩
  references := rfl
  identities := rfl

/-- **One fence after another.** -/
theorem cons {id : UUID} {ids : List UUID} (h : l.Fenced l' [id]) (h' : l'.Fenced l'' ids)
    (hnot : id ∉ ids) : l.Fenced l'' (id :: ids) where
  fenced e he hid := by
    by_cases heq : e.id = id
    · obtain ⟨hmoved, r, hr, hfresh, hmem⟩ := h.fenced e he (List.mem_singleton.mpr heq)
      obtain ⟨hkept, hsame⟩ := h'.others _ hmoved fun hin => hnot (heq ▸ hin)
      exact ⟨hkept, r, hr, hfresh, fun r' => (Set.ext_iff.mp hsame r').trans (hmem r')⟩
    · obtain ⟨hkept, hsame⟩ := h.others e he fun hin => heq (List.mem_singleton.mp hin)
      obtain ⟨hmoved, r, hr, hfresh, hmem⟩ :=
        h'.fenced e hkept ((List.mem_cons.mp hid).resolve_left heq)
      refine ⟨hmoved, r, hr, fun hold => hfresh ?_, fun r' => ?_⟩
      · exact ((Set.ext_iff.mp hsame r).mpr ⟨hold, hr.1⟩).1
      · rw [hmem r', hsame]
  others e he hid := by
    obtain ⟨hne, hnot'⟩ := not_or.mp (mt List.mem_cons.mpr hid)
    obtain ⟨hkept, hsame⟩ := h.others e he fun hin => hne (List.mem_singleton.mp hin)
    obtain ⟨hkept', hsame'⟩ := h'.others e hkept hnot'
    exact ⟨hkept', hsame'.trans hsame⟩
  known e he := by
    obtain ⟨n', hn'⟩ := h'.known e he
    obtain ⟨n, hn⟩ := h.known _ hn'
    exact ⟨n, hn⟩
  references := h'.references.trans h.references
  identities := h'.identities.trans h.identities

end Ledger.Fenced

/-- The revision that a fence appends to an effect. -/
def fenceRevision (entry : EffectEntry) : NewEffectRevision :=
  ⟨entry.memoryId, entry.revision + 1, .unknown, ToolEffects.restoreReason, .checkpointRestore, none,
    none⟩

/-- **A revision of a fence** fences its effect. -/
theorem LedgerStatement.Accepted.fenced {v : View} {m : Moment} {l : Ledger} {entry : EffectEntry}
    (h : (LedgerStatement.insertRevision (fenceRevision entry)).Accepted v m l) :
    v.store.ledger.Fenced l [entry.memoryId] := by
  obtain ⟨-, t, effects, ⟨hadopts, ht⟩, rfl⟩ := h
  cases hadopts with
  | first _ _ _ _ horigin => cases horigin
  | next heffect _ hprevious hadoptable _ =>
    obtain ⟨hmem, hkey⟩ := Table.find?_eq_some_iff.mp (Option.filter_eq_some_iff.mp heffect).1
    have hid : ToolEffectRow.id _ = (fenceRevision entry).effectId := hkey
    simp only [transitionAdoptable, Bool.and_eq_true, decide_eq_true_eq] at hadoptable
    have hnext := hadoptable.1.1
    constructor
    · intro e he hin
      have heq := List.mem_singleton.mp hin
      obtain rfl := Table.eq_of_key_eq hmem he (hid.trans heq.symm)
      refine ⟨mem_moveEffectHead_iff.mpr ⟨_, he, ?_⟩, (fenceRevision entry).row v m,
        ⟨heq.symm, hnext, rfl⟩, ?_, fun r' => ?_⟩
      · rw [if_pos hid, hnext]
      · exact fun hold => (Table.insert?_eq_some_iff.mp ht).1 _ hold rfl
      · exact (mem_effectRevisionsOf_insert ht).trans (or_congr_left (and_iff_left heq.symm))
    · intro e he hnot
      have hne : e.id ≠ entry.memoryId := fun heq => hnot (List.mem_singleton.mpr heq)
      refine ⟨mem_moveEffectHead_iff.mpr ⟨e, he, if_neg hne⟩, ?_⟩
      ext r'
      exact (mem_effectRevisionsOf_insert ht).trans (or_iff_right fun hnew => hne hnew.2.symm)
    · intro e he
      obtain ⟨e', he', rfl⟩ := mem_moveEffectHead_iff.mp he
      refine ⟨e'.currentRevision, ?_⟩
      split <;> exact he'
    · rfl
    · rfl

/-! ## Statements that leave the ledger alone -/

/-- A statement outside a purge on other tables. -/
def Statement.sparesLedger : Statement → Bool
  | .ledger _ | .purge _ _ | .insertTombstones _ | .bumpDeletionEpoch => false
  | _ => true

/-- Statements on other tables leave the ledger alone. -/
theorem step_sparesLedger {platform : Platform} {st : Statement} {m : Moment} {σ σ' : Session}
    {r : Returned} (hspares : st.sparesLedger = true) (hstep : step platform st m σ = .ok (r, σ')) :
    σ'.store.ledger = σ.store.ledger := by
  have hquiet : st.quiet = true := by
    cases st <;> first | rfl | cases hspares
  rcases (st.accepted (step_eq_ok.mp hstep).2.1).ledger_cases hquiet with hsame | ⟨st', rfl, -⟩
  · exact hsame
  · cases hspares

/-- Programs that send no statement on effects leave the ledger alone. -/
theorem outcome_sparesLedger {platform : Platform} {timeline : Timeline} {α : Type} {p : Tx α}
    {n : Nat} {σ : Session} (hp : Sends (fun st => st.sparesLedger = true) p) :
    Outcome platform timeline p (fun _ _ σ' => σ'.store.ledger = σ.store.ledger) (fun _ => True) n σ :=
  hp.yields rfl fun _ _ _ _ _ hkind hI hstep => (step_sparesLedger hkind hstep).trans hI

section Operations

variable {c : Setting} {n : Nat} {σ : Session}

/-- Appending the revision of a fence. -/
theorem does_append_fence (entry : EffectEntry) :
    Does c (ToolEffects.append (fenceRevision entry))
      (fun _ σ' => σ.store.ledger.Fenced σ'.store.ledger [entry.memoryId]) n σ := by
  refine does_send trivial fun r σ₁ hstep _ => ?_
  have hfenced : σ.store.ledger.Fenced σ₁.store.ledger [entry.memoryId] := by
    obtain ⟨l, haccepted, hstore⟩ := Statement.accepted (step_eq_ok.mp hstep).2.1
    rw [hstore]
    exact haccepted.fenced
  refine does_send trivial fun r σ₂ hstep₂ _ => does_pure ?_
  rw [step_sparesLedger rfl hstep₂]
  exact hfenced

/-- The effects that a fence finds dispatched. -/
def dispatchedIn (entries : List EffectEntry) : List UUID :=
  (entries.filter fun e => e.status = .dispatched).map EffectEntry.memoryId

/-- **The loop of a fence.** -/
theorem does_fenceAll {entries : List EffectEntry}
    (hnodup : (entries.map EffectEntry.memoryId).Nodup) :
    Does c (forEach entries fun effect =>
        if effect.status = .dispatched then do
          let _ ← ToolEffects.append (fenceRevision effect)
          pure ()
        else pure ())
      (fun _ σ' => σ.store.ledger.Fenced σ'.store.ledger (dispatchedIn entries)) n σ := by
  unfold forEach
  rw [List.forM_eq_forM]
  induction entries generalizing n σ with
  | nil => exact does_pure (.nil _)
  | cons entry entries ih =>
    rw [List.map_cons, List.nodup_cons] at hnodup
    have hnot : entry.memoryId ∉ dispatchedIn entries := fun hin =>
      hnodup.1 (List.map_subset _ (List.filter_subset_self _) hin)
    rw [List.forM_cons]
    by_cases hstatus : entry.status = .dispatched
    · rw [if_pos hstatus]
      have hone : Does c (ToolEffects.append (fenceRevision entry) >>= fun _ => pure ())
          (fun _ σ' => σ.store.ledger.Fenced σ'.store.ledger [entry.memoryId]) n σ :=
        does_bind (does_append_fence entry) fun _ _ _ _ hfenced => does_pure hfenced
      refine does_bind hone fun _ n' σ' _ hfenced => (ih hnodup.2).mono fun _ σ'' _ hrest => ?_
      rw [dispatchedIn, List.filter_cons_of_pos (by simpa using hstatus), List.map_cons]
      exact hfenced.cons hrest hnot
    · rw [if_neg hstatus]
      refine does_bind (does_pure (Q := fun _ σ' => σ' = σ) rfl) ?_
      rintro - n' σ' - rfl
      refine (ih hnodup.2).mono fun _ σ'' _ hrest => ?_
      rw [dispatchedIn, List.filter_cons_of_neg (by simpa using hstatus)]
      exact hrest

end Operations

end PgAgmemory

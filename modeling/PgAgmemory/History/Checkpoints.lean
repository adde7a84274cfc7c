import PgAgmemory.History.Orderly
import PgAgmemory.Operations.Signatures

/-! # Checkpoints over time

An id that has been used for a checkpoint never stands for another one (`StandsFor`), a run whose effects
are invalidated has no checkpoint left (`Reachable.sealed_of_invalidated`), and what has been signed in an
orderly run stays signed until it is purged (`Orderly.signed_or_gone`). -/

namespace PgAgmemory

open Keyed (HasKey Table key)
open Interactive (Program)
open MemoryService

/-! ## Ids of checkpoints -/

/-- **What an id stands for**: it is in use, and whatever checkpoint has it satisfies a condition. -/
structure StandsFor (P : CheckpointRow → Prop) (s : Store) (id : UUID) : Prop where
  used : ∃ o ∈ s.anchor.objects, o.id = id
  row : ∀ k ∈ s.checkpointing.checkpoints, k.id = id → P k

/-- A checkpoint of a run. -/
def CheckpointRow.Of (k : CheckpointRow) (scope run : UUID) : Prop :=
  (k.scopeId, k.runId) = (scope, run)

section Ids

variable {platform : Platform} {P : CheckpointRow → Prop} {s s' : Store} {id : UUID}

/-- The id of a checkpoint is in use. -/
theorem used_of_mem (hkeys : ForeignKeys s) {k : CheckpointRow}
    (hk : k ∈ s.checkpointing.checkpoints) : ∃ o ∈ s.anchor.objects, o.id = k.id := by
  obtain ⟨o, ho, hkey⟩ := hkeys.checkpoint.checkpoint_object.exists_parent hk rfl
  exact ⟨o, ho, (Prod.mk.inj hkey).1⟩

/-- A checkpoint is what its id stands for. -/
theorem standsFor_of_mem (hkeys : ForeignKeys s) {k : CheckpointRow}
    (hk : k ∈ s.checkpointing.checkpoints) (hP : P k) : StandsFor P s k.id := by
  refine ⟨used_of_mem hkeys hk, fun k' hk' hid => ?_⟩
  rw [Table.eq_of_key_eq hk' hk hid]
  exact hP

/-- A statement under the discipline inserts checkpoints under new ids only. -/
theorem StandsFor.step {c : Setting} {σ σ' : Session} {st : Statement} {m : Moment} {r : Returned}
    (hstart : StandsFor P c.start id) (h : StandsFor P σ.store id) (hallow : Writes c σ st)
    (hstep : step c.platform st m σ = .ok (r, σ')) : StandsFor P σ'.store id := by
  obtain ⟨o, ho, hid⟩ := h.used
  refine ⟨⟨o, (hallow.follows hstep).grown.objects o ho, hid⟩, ?_⟩
  by_cases hnone : InsertsNoCheckpoint st
  · rw [hallow.checkpoints_eq hnone hstep]
    exact h.row
  · obtain ⟨new, rfl⟩ : ∃ new, st = .checkpoint (.insertCheckpoint new) := by
      simpa [InsertsNoCheckpoint] using hnone
    obtain ⟨_, checkpointing, hcheckpoint, hstore⟩ := Statement.accepted (step_eq_ok.mp hstep).2.1
    obtain ⟨-, t, branch, ⟨-, ht⟩, rfl⟩ := hcheckpoint
    intro k hk hkid
    rw [hstore] at hk
    rcases (Table.mem_insert? ht).mp hk with rfl | hold
    · -- the new id was not in use when the transaction started
      obtain ⟨o', ho', hid'⟩ := hstart.used
      have hfresh : Fresh c.start new.id := hallow
      exact absurd (hid'.trans hkid.symm) (hfresh o' ho')
    · exact h.row k hold hkid

/-- **An event keeps what an id stands for.** -/
theorem StandsFor.event (h : StandsFor P s id) (hs : Sound s) (e : Event) :
    StandsFor P (e.exec platform s) id := by
  refine Sound.transition (T := fun s s' => StandsFor P s id → StandsFor P s' id)
    (R := fun s s' => StandsFor P s id → StandsFor P s' id)
    (fun _ h => h) ?_ (fun _ _ h => h) ?_ (fun s _ h => ⟨h.used, h.row⟩) hs e h
  · intro c st m σ r σ' hplatform _ _ _ hkept hallow hstep hstart
    subst hplatform
    exact hstart.step (hkept hstart) hallow hstep
  · intro s s' gone _ hp h
    refine ⟨hp.objects ▸ h.used, fun k hk => h.row k ?_⟩
    rw [hp.checkpointing] at hk
    exact (Table.mem_delete.mp hk).1

/-- **A run keeps what an id stands for.** -/
theorem StandsFor.events (h : StandsFor P s id) (hs : Reachable platform s) (events : List Event) :
    StandsFor P (runEvents platform events s) id := by
  induction events generalizing s with
  | nil => exact h
  | cons e events ih => exact ih (h.event hs.sound e) (.event e hs)

end Ids

/-! ## Invalidated runs -/

/-- **Invalidated runs are sealed.** -/
def AllSealed (s : Store) : Prop :=
  ∀ run ∈ s.checkpointing.runs, run.effectsInvalidated = true → Sealed s run.scopeId run.runId

section Sealing

variable {platform : Platform} {s s' : Store}

/-- No statement invalidates a run. -/
theorem runs_invalidated_of_step {st : Statement} {m : Moment} {r : Returned} {σ σ' : Session}
    (hquiet : st.quiet = true) (hstep : step platform st m σ = .ok (r, σ')) {run : CheckpointRunRow}
    (hrun : run ∈ σ'.store.checkpointing.runs) (hinvalidated : run.effectsInvalidated = true) :
    run ∈ σ.store.checkpointing.runs := by
  rcases (Statement.accepted (step_eq_ok.mp hstep).2.1).checkpointing_cases hquiet with
    hsame | ⟨st', inserted, -, haccepted⟩
  · exact hsame ▸ hrun
  generalize σ'.store.checkpointing = k at haccepted hrun
  cases st' with
  | insertRun scope run' harnessId harnessVersion =>
    obtain ⟨-, ⟨-, rfl⟩ | ⟨-, t, ht, rfl⟩⟩ := haccepted
    · exact hrun
    · rcases (Table.mem_insert? ht).mp hrun with rfl | hold
      · cases hinvalidated
      · exact hold
  | insertBranch scope run' branch returning =>
    obtain ⟨-, ⟨-, rfl⟩ | ⟨-, t, -, rfl⟩⟩ := haccepted <;> exact hrun
  | insertCheckpoint new =>
    obtain ⟨-, t, branch, -, rfl⟩ := haccepted
    exact hrun
  | insertReference row =>
    obtain ⟨-, t, -, rfl⟩ := haccepted
    exact hrun

/-- A wholesale purge seals every run that it invalidates. -/
theorem Wholesale.allSealed {erased : UUID → Bool} (h : Wholesale s s' erased) (hs : Sound s)
    (hsealed : AllSealed s) : AllSealed s' := by
  intro run hrun hinvalidated
  rw [h.purged.checkpointing] at hrun
  obtain ⟨old, hold, heq⟩ := Store.mem_erase_runs.mp hrun
  split at heq
  next hany =>
    subst heq
    obtain ⟨e, he, hgone⟩ := List.any_eq_true.mp hany
    simp only [Bool.and_eq_true, decide_eq_true_eq] at hgone
    obtain ⟨⟨hscope, hrun'⟩, herased⟩ := hgone
    have hseals : Sealed s' e.scopeId e.runId :=
      h.purged.seals hs.integrity.foreign.ledger (Table.mem_rows.mp he) herased
    rw [hscope, hrun'] at hseals
    exact hseals
  next =>
    subst heq
    exact h.purged.sealed (hsealed old hold hinvalidated)

/-- **In an orderly run** every invalidated run is sealed. -/
theorem Orderly.allSealed (hs : Orderly platform s) : AllSealed s := by
  induction hs with
  | provisioned access => exact fun run hrun => absurd hrun (Table.not_mem_empty run)
  | event e horderly hlasting ih =>
    refine Sound.lasting_transition (T := fun s s' => AllSealed s → AllSealed s')
      (R := fun s s' => AllSealed s → AllSealed s') (fun _ h => h) ?_ (fun _ _ h => h)
      (fun s s' erased hs hwholesale => hwholesale.allSealed hs) ?_ horderly.reachable.sound e hlasting ih
    · intro c st m σ r σ' hplatform _ hσ hgrounded hT hallow hstep hstart run hrun hinvalidated
      subst hplatform
      have hold := runs_invalidated_of_step hallow.quiet hstep hrun hinvalidated
      exact (hT hstart run hold hinvalidated).statement hallow.quiet
        (st.accepted (step_eq_ok.mp hstep).2.1) (hallow.grounded hσ hstep hgrounded)
    · intro s access hsealed run hrun hinvalidated
      have hold := hsealed run hrun hinvalidated
      exact ⟨hold.invalidated, hold.noCheckpoint⟩

end Sealing

/-! ## What stays signed -/

section Signed

variable {platform : Platform} {s s' : Store} {p : CheckpointPayload} {sum : Digest}

/-- A statement under the discipline keeps what was signed when its transaction started. -/
theorem Store.Signed.step {c : Setting} {σ σ' : Session} {st : Statement} {m : Moment} {r : Returned}
    (hkeys : ForeignKeys c.start) (hstart : c.start.Signed p sum) (h : σ.store.Signed p sum)
    (hallow : Writes c σ st) (hstep : PgAgmemory.step c.platform st m σ = .ok (r, σ')) :
    σ'.store.Signed p sum := by
  obtain ⟨k, hk, run, hrun, hkey, hsum, hcount, hpayload⟩ := h
  rcases (Statement.accepted (step_eq_ok.mp hstep).2.1).checkpointing_cases hallow.quiet with
    hsame | ⟨st', inserted, rfl, haccepted⟩
  · exact ⟨k, hsame ▸ hk, run, hsame ▸ hrun, hkey, hsum, hsame ▸ hcount, hsame ▸ hpayload⟩
  have hkept : ∀ {k' : Checkpointing}, σ'.store.checkpointing = k' → k ∈ k'.checkpoints →
      run ∈ k'.runs → k'.references = σ.store.checkpointing.references → σ'.store.Signed p sum := by
    intro k' hsame hk' hrun' hreferences
    have hrefs : k'.refsOf k.id = σ.store.checkpointing.refsOf k.id := by
      rw [Checkpointing.refsOf, Checkpointing.refsOf, hreferences]
    exact ⟨k, hsame ▸ hk', run, hsame ▸ hrun', hkey, hsum, hsame ▸ hrefs ▸ hcount,
      hsame ▸ hrefs ▸ hpayload⟩
  generalize hk' : σ'.store.checkpointing = k' at haccepted
  cases st' with
  | insertRun scope run' harnessId harnessVersion =>
    obtain ⟨-, ⟨-, rfl⟩ | ⟨-, t, ht, rfl⟩⟩ := haccepted
    · exact hkept hk' hk hrun rfl
    · exact hkept hk' hk ((Table.mem_insert? ht).mpr (Or.inr hrun)) rfl
  | insertBranch scope run' branch returning =>
    obtain ⟨-, ⟨-, rfl⟩ | ⟨-, t, -, rfl⟩⟩ := haccepted <;> exact hkept hk' hk hrun rfl
  | insertCheckpoint new =>
    obtain ⟨-, t, branch, ⟨-, ht⟩, rfl⟩ := haccepted
    exact hkept hk' ((Table.mem_insert? ht).mpr (Or.inr hk)) hrun rfl
  | insertReference row =>
    obtain ⟨-, t, ht, rfl⟩ := haccepted
    -- the references of a new checkpoint are others
    have hother : ¬ row.checkpointId = k.id := by
      obtain ⟨k₀, hk₀, hid₀, -⟩ := hstart.row
      obtain ⟨o, ho, hid⟩ := used_of_mem hkeys hk₀
      have hfresh : Fresh c.start row.checkpointId := hallow
      intro heq
      have hpid : p.checkpointId = k.id := by
        rw [← hpayload]
        rfl
      exact hfresh o ho (hid.trans (hid₀.trans (hpid.trans heq.symm)))
    have hrefs : Checkpointing.refsOf { σ.store.checkpointing with references := t } k.id
        = σ.store.checkpointing.refsOf k.id := by
      have hrows : t.rows.filter (·.checkpointId = k.id)
          = σ.store.checkpointing.references.rows.filter (·.checkpointId = k.id) := by
        rw [(Table.insert?_eq_some_iff.mp ht).2]
        exact List.filter_cons_of_neg (by simpa using hother)
      rw [Checkpointing.refsOf, Checkpointing.refsOf, hrows]
    exact ⟨k, hk' ▸ hk, run, hk' ▸ hrun, hkey, hsum, hk' ▸ hrefs.symm ▸ hcount,
      hk' ▸ hrefs.symm ▸ hpayload⟩

/-- **A wholesale purge** leaves what was signed, or takes its checkpoint away. -/
theorem Wholesale.signed {erased : UUID → Bool} (h : Wholesale s s' erased) (hsigned : s.Signed p sum) :
    s'.Signed p sum ∨ ∀ k ∈ s'.checkpointing.checkpoints, k.id ≠ p.checkpointId := by
  obtain ⟨k, hk, run, hrun, hkey, hsum, hcount, rfl⟩ := hsigned
  cases herased : erased k.id with
  | true =>
    refine Or.inr fun k' hk' hid => ?_
    rw [h.purged.checkpointing] at hk'
    have hkept : erased k'.id = false := (Table.mem_delete.mp hk').2
    have hid : k'.id = k.id := hid
    rw [hid, herased] at hkept
    cases hkept
  | false =>
    have hrefs := h.refsOf herased
    refine Or.inl ⟨k, ?_, _, h.purged.checkpointing ▸ Store.mem_erase_runs.mpr ⟨run, hrun, rfl⟩, ?_,
      hsum, hrefs.symm ▸ hcount, ?_⟩
    · rw [h.purged.checkpointing]
      exact Table.mem_delete.mpr ⟨hk, herased⟩
    · split <;> exact hkey
    · rw [hrefs]
      split <;> rfl

/-- **A lasting event** leaves what was signed, or takes its checkpoint away. -/
theorem Store.Signed.event (h : s.Signed p sum) (hs : Sound s) (e : Event)
    (hlasting : e.Lasting platform s) : (e.exec platform s).Signed p sum
      ∨ ∀ k ∈ (e.exec platform s).checkpointing.checkpoints, k.id ≠ p.checkpointId := by
  refine Sound.lasting_transition (T := fun s s' => s.Signed p sum → s'.Signed p sum)
    (R := fun s s' => s.Signed p sum → s'.Signed p sum
      ∨ ∀ k ∈ s'.checkpointing.checkpoints, k.id ≠ p.checkpointId)
    (fun _ h => h) ?_ (fun _ _ h hsigned => Or.inl (h hsigned))
    (fun _ _ _ _ hwholesale => hwholesale.signed) (fun _ _ h => Or.inl h) hs e hlasting h
  intro c st m σ r σ' hplatform hstart _ _ hT hallow hstep hsigned
  subst hplatform
  exact hsigned.step hstart.integrity.foreign (hT hsigned) hallow hstep

/-- **An orderly run** leaves what was signed, or has taken its checkpoint away. -/
theorem Orderly.signed_or_gone (hs : Orderly platform s) (h : s.Signed p sum) {events : List Event}
    (hlasting : LastingRun platform events s) : (runEvents platform events s).Signed p sum
      ∨ ∀ k ∈ (runEvents platform events s).checkpointing.checkpoints, k.id ≠ p.checkpointId := by
  induction events generalizing s with
  | nil => exact Or.inl h
  | cons e events ih =>
    have hnext : Orderly platform (e.exec platform s) := .event e hs hlasting.1
    rcases h.event hs.reachable.sound e hlasting.1 with hsigned | hgone
    · exact ih hnext hsigned hlasting.2
    · obtain ⟨k, hk, hid, -⟩ := h.row
      have hused : StandsFor (fun _ => True) s p.checkpointId :=
        hid ▸ standsFor_of_mem hs.reachable.integrity.foreign hk trivial
      have hnone : StandsFor (fun _ => False) (e.exec platform s) p.checkpointId :=
        ⟨(hused.event hs.reachable.sound e).used, fun k hk hid => hgone k hk hid⟩
      exact Or.inr fun k hk hid => (hnone.events hnext.reachable events).row k hk hid

end Signed

end PgAgmemory

import PgAgmemory.Guarantees.Restores
import PgAgmemory.History.Machine
import PgAgmemory.History.Transitions

/-! # The effect ledger

Every effect of a reachable store has a history of the documented machine. What the service admits, the
trigger accepts as long as the database's clock has moved past the last revision (`LedgerHolds`): on a
clock that stands still the trigger's guard gives up, with an error that asks to retry
(`not_triggerAccepts_stalled`). Whatever transitions and restores are based on one revision, at most one
of them is committed. -/

namespace PgAgmemory

open Keyed (HasKey Table key)

/-! ## Acceptance -/

/-- **What the service admits, the trigger accepts**, at timely moments: a transition that expects the
head and follows the transitions is inserted, for a caller who may read and write there and with texts
that can be stored. -/
def TriggerAccepts (platform : Platform) (s : Store) (timely : ToolEffectRevisionRow → Moment → Prop) :
    Prop :=
  ∀ principal m, ∀ e ∈ s.ledger.effects, ∀ r, s.ledger.Current e r → ∀ data : TransitionToolEffect,
    data.Admitted s e r → data.Storable →
    ((Session.start principal s).view m).permitted e.scopeId .read = true →
    ((Session.start principal s).view m).permitted e.scopeId .write = true → timely r m →
    ∃ σ, step platform (.ledger (.insertRevision (data.revision e.id))) m (.start principal s)
      = .ok (.done, σ)

/-- The clock has moved past a revision. -/
def ToolEffectRevisionRow.Past (r : ToolEffectRevisionRow) (m : Moment) : Prop :=
  r.recordedAt < m.clock 0

/-! ## Advances of calls -/

section Calls

variable {platform : Platform} {s : Store}

/-- **A revision is inserted on its head**, whatever its caller has read before, and moves it. -/
theorem step_swaps {σ σ' : Session} {m : Moment} {new : NewEffectRevision} {returned : Returned}
    (hlater : new.revision ≠ 1)
    (hstep : step platform (.ledger (.insertRevision new)) m σ = .ok (returned, σ')) :
    ∃ e ∈ σ.store.ledger.effects, e.id = new.effectId ∧ new.revision = e.currentRevision + 1
      ∧ { e with currentRevision := e.currentRevision + 1 } ∈ σ'.store.ledger.effects := by
  obtain ⟨l, ⟨-, t, effects, ⟨hadopts, -⟩, rfl⟩, hstore⟩ :=
    Statement.accepted (step_eq_ok.mp hstep).2.1
  cases hadopts with
  | first _ hfirst _ _ _ => exact absurd hfirst hlater
  | @next effect _ heffect _ _ hadoptable _ =>
    obtain ⟨he, hid⟩ := Table.find?_eq_some_iff.mp (Option.filter_eq_some_iff.mp heffect).1
    have hid : effect.id = new.effectId := hid
    simp only [transitionAdoptable, Bool.and_eq_true, decide_eq_true_eq] at hadoptable
    obtain ⟨⟨hnext, -⟩, -⟩ := hadoptable
    refine ⟨effect, he, hid, hnext, ?_⟩
    rw [hstore, ← hnext]
    exact mem_moveEffectHead_iff.mpr ⟨effect, he, if_pos hid⟩

/-- An accepted revision is new. -/
theorem step_insertRevision {σ σ' : Session} {m : Moment} {new : NewEffectRevision}
    {returned : Returned}
    (hstep : step platform (.ledger (.insertRevision new)) m σ = .ok (returned, σ')) :
    ¬ σ.store.HasEffectRevision new.effectId new.revision
      ∧ σ'.store.HasEffectRevision new.effectId new.revision := by
  obtain ⟨l, ⟨-, t, effects, ⟨-, ht⟩, rfl⟩, hstore⟩ := Statement.accepted (step_eq_ok.mp hstep).2.1
  refine ⟨?_, ?_⟩
  · rintro ⟨r, hr, hid, hnumber⟩
    exact (Table.insert?_eq_some_iff.mp ht).1 r hr (Prod.ext hid hnumber)
  · rw [hstore]
    exact ⟨_, Table.mem_insert?_self ht, rfl, rfl⟩

/-- **A transition with a fresh key** adds the revision after the one it expects. -/
theorem outcome_transition_advances {timeline : Timeline} {n : Nat} {σ : Session} {id : UUID}
    {data : TransitionToolEffect} {key : String}
    (hfresh : ∀ row, ¬ σ.Stored platform .transitionToolEffect key row) :
    Outcome platform timeline (ToolEffects.transition platform id data key)
      (fun _ _ σ' => ¬ σ.store.HasEffectRevision id (data.expectedRevision + 1)
        ∧ σ'.store.HasEffectRevision id (data.expectedRevision + 1)) (fun _ => True) n σ := by
  refine outcome_bind (outcome_readOnly (readOnly_effectLoad _ _) fun _ => trivial) ?_
  rintro loaded m σ' - rfl
  refine outcome_once (fun row _ _ hstored _ => absurd hstored (hfresh row)) fun m _ _ => ?_
  refine outcome_demand (fun _ => ?_) fun _ => trivial
  refine outcome_demand (fun _ => ?_) fun _ => trivial
  refine outcome_demand (fun _ => ?_) fun _ => trivial
  refine outcome_bind (P := fun _ _ σ'' =>
    ¬ σ'.store.HasEffectRevision id (data.expectedRevision + 1)
      ∧ σ''.store.HasEffectRevision id (data.expectedRevision + 1)) ?_ ?_
  · refine outcome_send (fun r σ₁ hstep => ?_) fun _ _ => trivial
    refine outcome_send (fun r' σ₂ haudited => outcome_pure ?_) fun _ _ => trivial
    obtain ⟨hnone, hhas⟩ := step_insertRevision hstep
    refine ⟨hnone, ?_⟩
    rw [Store.HasEffectRevision, step_sparesLedger rfl haudited]
    exact hhas
  · rintro receipt m' σ₂ - ⟨hnone, hhas⟩
    refine outcome_send (fun r σ₃ hsaved => outcome_pure ⟨hnone, ?_⟩) fun _ _ => trivial
    rw [Store.HasEffectRevision, step_sparesLedger rfl hsaved]
    exact hhas

/-- **An answered transition advances its effect** from the revision it expects, unless its key has a
stored receipt. -/
theorem transition_advances {principal : UUID} {timeline : Timeline} {id : UUID}
    {data : TransitionToolEffect} {key : String} {response : Response}
    (h : (Call.exec platform ⟨principal, timeline, .transition id data key⟩ s).1 = .ok response)
    (hfresh : ∀ row, ¬ (Session.start principal s).Stored platform .transitionToolEffect key row) :
    Event.Advances platform s (.call ⟨principal, timeline, .transition id data key⟩) id
      data.expectedRevision := by
  let call : Call := ⟨principal, timeline, .transition id data key⟩
  have houtcome : Outcome platform timeline (call.request.program platform)
      (fun _ _ σ' => ¬ s.HasEffectRevision id (data.expectedRevision + 1)
        ∧ σ'.store.HasEffectRevision id (data.expectedRevision + 1)) (fun _ => True) 0
      (.start principal s) := by
    refine outcome_bind (outcome_readOnly readOnly_bindIdentity fun _ => trivial) ?_
    rintro - m σ' - rfl
    refine (outcome_respond (outcome_transition_advances hfresh)).mono ?_ fun _ h => h
    rintro _ _ σ' - ⟨_, -, hadvances⟩
    exact hadvances
  change _ ∧ (call.exec platform s).2.HasEffectRevision _ _
  rcases call.exec_cases platform s with ⟨fault, hexec⟩ | ⟨response', s', hok, hexec⟩
  · rw [hexec] at h
    cases h
  rw [hexec]
  obtain ⟨n, σ, hrun, hcommit⟩ := attempt_eq_ok.mp hok
  obtain ⟨hnone, hhas⟩ := houtcome.of_run hrun
  exact ⟨hnone, (commit_eq_ok.mp hcommit).2 ▸ hhas⟩

/-- **A restore advances every dispatched effect of its run**, unless its key has a stored receipt. -/
theorem Reachable.restore_advances (hs : Reachable platform s) {principal : UUID}
    {timeline : Timeline} {data : RestoreCheckpoint} {key : String} {envelope : Envelope}
    (h : (Call.exec platform ⟨principal, timeline, .restoreCheckpoint data key⟩ s).1
      = .ok (.envelope envelope))
    (hfresh : ∀ row, ¬ (Session.start principal s).Stored platform .restoreCheckpoint key row) :
    ∃ k ∈ s.checkpointing.checkpoints, k.id = data.checkpointId
      ∧ ∀ e ∈ s.ledger.effects, e.Of k.scopeId k.runId → ∀ r, s.ledger.Current e r →
        r.status = .dispatched →
        Event.Advances platform s (.call ⟨principal, timeline, .restoreCheckpoint data key⟩) e.id
          e.currentRevision := by
  obtain ⟨k, hk, hid, hfenced⟩ := hs.sound.restore_fenced h hfresh
  refine ⟨k, hk, hid, fun e he hof r hr hdispatched => ⟨?_, ?_⟩⟩
  · rintro ⟨q, hq, hqid, hnumber⟩
    have hbound := (hs.sequenced.recorded e he).bounded q ⟨hq, hqid⟩
    omega
  · obtain ⟨-, r', -, hnumber, -, hmem⟩ := hfenced.fenced e he hof r hr hdispatched
    obtain ⟨hr', hrid⟩ := (hmem r').mpr (Or.inl rfl)
    exact ⟨r', hr', hrid, hnumber⟩

/-! ## The guarantee -/

/-- **What the ledger of effects guarantees** in a store, where the trigger accepts at timely moments. -/
structure LedgerHolds (platform : Platform) (s : Store)
    (timely : ToolEffectRevisionRow → Moment → Prop) : Prop where
  /-- Histories are those of the machine. -/
  machine : ∀ e ∈ s.ledger.effects, s.ledger.Machine e
  /-- What the service admits, the trigger accepts. -/
  accepts : TriggerAccepts platform s timely
  /-- A transition that the service does not refuse is committed, whatever the deferred checks. -/
  answers : ∀ timeline principal, ∀ e ∈ s.ledger.effects, ∀ r, s.ledger.Current e r →
    (s.access.principals.find? principal).isSome = true →
    Holds timeline (.start principal s) e.scopeId .read →
    Holds timeline (.start principal s) e.scopeId .write → (∀ k, timely r (timeline.moment k)) →
    ∀ (data : TransitionToolEffect) (key : String), data.Storable →
    (∀ row, ¬ (Session.start principal s).Stored platform .transitionToolEffect key row) →
    (data.Admitted s e r
        ∧ (Call.exec platform ⟨principal, timeline, .transition e.id data key⟩ s).1
          = .ok (.receipt (.effect e.id (e.currentRevision + 1) data.status)))
      ∨ ∃ code, (Call.exec platform ⟨principal, timeline, .transition e.id data key⟩ s).1
          = .error (.memory code) ∧ data.Refused s e r code
  /-- A statement moves a head that is where it expects it, whatever its caller has read before. -/
  swaps : ∀ principal m new returned σ, new.revision ≠ 1 →
    step platform (.ledger (.insertRevision new)) m (.start principal s) = .ok (returned, σ) →
    ∃ e ∈ s.ledger.effects, e.id = new.effectId ∧ new.revision = e.currentRevision + 1
      ∧ { e with currentRevision := e.currentRevision + 1 } ∈ σ.store.ledger.effects
  /-- Calls that move effects advance them from the revision they are based on. -/
  transitions : ∀ principal timeline id data key response,
    (Call.exec platform ⟨principal, timeline, .transition id data key⟩ s).1 = .ok response →
    (∀ row, ¬ (Session.start principal s).Stored platform .transitionToolEffect key row) →
    Event.Advances platform s (.call ⟨principal, timeline, .transition id data key⟩) id
      data.expectedRevision
  restores : ∀ principal timeline data key envelope,
    (Call.exec platform ⟨principal, timeline, .restoreCheckpoint data key⟩ s).1
      = .ok (.envelope envelope) →
    (∀ row, ¬ (Session.start principal s).Stored platform .restoreCheckpoint key row) →
    ∃ k ∈ s.checkpointing.checkpoints, k.id = data.checkpointId
      ∧ ∀ e ∈ s.ledger.effects, e.Of k.scopeId k.runId → ∀ r, s.ledger.Current e r →
        r.status = .dispatched →
        Event.Advances platform s (.call ⟨principal, timeline, .restoreCheckpoint data key⟩) e.id
          e.currentRevision
  /-- Of the events of a run, at most one advances an effect from a revision. -/
  once : ∀ id n (e : Event) (between : List Event) (e' : Event), e.Advances platform s id n →
    ¬ e'.Advances platform (runEvents platform between (e.exec platform s)) id n

/-- **The ledger of a reachable store** holds what it guarantees, on a clock that moves on. -/
theorem Reachable.ledgerHolds (hs : Reachable platform s) :
    LedgerHolds platform s ToolEffectRevisionRow.Past where
  machine e he := hs.machine he
  accepts principal m e he r hr data hdata hstorable hread hwrite hpast := by
    obtain ⟨t, -, hstep⟩ := step_admitted platform (σ := .start principal s) hs.sound hs.sequenced he
      hr hread hwrite hpast hdata hstorable
    exact ⟨_, hstep⟩
  answers timeline principal e he r hr hknown hread hwrite hpast data key hstorable hfresh := by
    rcases attempt_transition hs.sound hs.sequenced he hr ⟨hknown, hread, hwrite, hpast⟩
      hstorable hfresh with ⟨s', hok, hdata, -⟩ | ⟨code, herror, hrefused⟩
    · refine Or.inl ⟨hdata, ?_⟩
      rw [Call.exec, transact, hok]
    · refine Or.inr ⟨code, ?_, hrefused⟩
      rw [Call.exec, transact, herror]
  swaps _ _ _ _ _ hlater hstep := step_swaps hlater hstep
  transitions _ _ _ _ _ _ h hfresh := transition_advances h hfresh
  restores _ _ _ _ _ h hfresh := hs.restore_advances h hfresh
  once _ _ _ between _ h := hs.sound.advances_once h between

end Calls

/-! ## A small tenant -/

/-- The ledger of the small tenant with a dispatched effect. -/
theorem ledgerHolds_dispatched :
    LedgerHolds .blind (.dispatched none) ToolEffectRevisionRow.Past :=
  (reachable_dispatched none).ledgerHolds

/-- A transition of the dispatched effect to unknown. -/
def TransitionToolEffect.abandon : TransitionToolEffect where
  expectedRevision := 2
  status := .unknown
  reason := .brief

/-- Where the dispatched effect could be abandoned, but for a clock that stands still. -/
def Stalled (s : Store) (m : Moment) (e : ToolEffectRow) (r : ToolEffectRevisionRow) : Bool :=
  decide (r.effectId = e.id) && decide (r.revision = e.currentRevision)
    && decide (e.currentRevision = 2) && decide (r.status = .dispatched)
    && ((Session.start 1 s).view m).permitted e.scopeId .read
    && ((Session.start 1 s).view m).permitted e.scopeId .write
    && (step .blind (.ledger (.insertRevision (TransitionToolEffect.abandon.revision e.id))) m
      (.start 1 s)).toOption.isNone

/-- The dispatched effect of the small tenant, at a moment before its dispatch. -/
theorem stalled_dispatched : ((Store.dispatched none).ledger.effects.rows.any fun e =>
    (Store.dispatched none).ledger.revisions.rows.any
      (Stalled (.dispatched none) ((Timeline.ticking 0 0).moment 0) e)) = true := by
  decide +kernel

/-- **On a clock that stands still the trigger gives up** where the service goes on. -/
theorem not_triggerAccepts_stalled :
    ¬ ∀ s, Reachable .blind s → LedgerHolds .blind s fun _ _ => True := by
  intro hall
  obtain ⟨e, he, hrow⟩ := List.any_eq_true.mp stalled_dispatched
  obtain ⟨r, hr, hstalled⟩ := List.any_eq_true.mp hrow
  simp only [Stalled, Bool.and_eq_true, decide_eq_true_eq] at hstalled
  obtain ⟨⟨⟨⟨⟨⟨hid, hcurrent⟩, hhead⟩, hdispatched⟩, hread⟩, hwrite⟩, hrefused⟩ := hstalled
  obtain ⟨σ, hstep⟩ := (hall _ (reachable_dispatched none)).accepts 1 _ e he r ⟨⟨hr, hid⟩, hcurrent⟩
    .abandon ⟨hhead.symm, by rw [hdispatched]; decide, fun h => by cases h⟩
    ⟨by decide +kernel, fun _ h => by cases h⟩ hread hwrite trivial
  rw [hstep] at hrefused
  cases hrefused

end PgAgmemory

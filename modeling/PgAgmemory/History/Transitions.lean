import PgAgmemory.History.Acceptance
import PgAgmemory.History.Kept
import PgAgmemory.History.Loads
import PgAgmemory.System.Calls

/-! # Moving an effect

A caller who holds read and write access to an effect, with a fresh key and a clock past the last
revision, moves it wherever the transitions allow, but not back to dispatched in a sealed run
(`attempt_transition`). What the service lets through, the trigger and the commit let through. -/

namespace PgAgmemory

open Keyed (HasKey Table key)
open Interactive (Program)
open MemoryService

/-- **A caller who may move an effect** from a revision: an authenticated principal who holds read and
write access to its scope, at moments past the revision. -/
structure Mover (timeline : Timeline) (principal : UUID) (s : Store) (e : ToolEffectRow)
    (r : ToolEffectRevisionRow) : Prop where
  authenticated : (s.access.principals.find? principal).isSome = true
  reads : Holds timeline (.start principal s) e.scopeId .read
  writes : Holds timeline (.start principal s) e.scopeId .write
  later : ∀ k, r.recordedAt < (timeline.moment k).clock 0

/-- The effects of a run are invalidated. -/
def Checkpointing.Invalidated (k : Checkpointing) (scope run : UUID) : Prop :=
  ∃ n ∈ k.runs, (n.scopeId, n.runId) = (scope, run) ∧ n.effectsInvalidated = true

namespace TransitionToolEffect

/-- The texts of a transition can be stored. -/
structure Storable (data : TransitionToolEffect) : Prop where
  reason : storable data.reason.str = true
  receipt : ∀ reference ∈ data.receiptReference, storable reference.str = true

/-- **A transition that the service admits** from a revision: it expects the head, goes on from its
status, and does not dispatch in an invalidated run. -/
structure Admitted (data : TransitionToolEffect) (s : Store) (e : ToolEffectRow)
    (r : ToolEffectRevisionRow) : Prop where
  expected : data.expectedRevision = e.currentRevision
  follows : data.status ∈ transitions r.status
  active : data.status = .dispatched → ¬ s.checkpointing.Invalidated e.scopeId e.runId

/-- **Why the service refuses** a transition from a revision. -/
inductive Refused (data : TransitionToolEffect) (s : Store) (e : ToolEffectRow)
    (r : ToolEffectRevisionRow) : ErrorCode → Prop
  | incomplete (h : ¬ s.ledger.Complete e.id) : Refused data s e r .effectInvalidated
  | stale (h : data.expectedRevision ≠ e.currentRevision) : Refused data s e r .revisionConflict
  | forbidden (h : data.status ∉ transitions r.status) :
    Refused data s e r .effectTransitionConflict
  | invalidated (hstatus : data.status = .dispatched)
    (h : s.checkpointing.Invalidated e.scopeId e.runId) : Refused data s e r .effectRunInvalidated

/-- A transition of an effect with its references is not refused when it is admitted. -/
theorem Admitted.not_refused {data : TransitionToolEffect} {s : Store} {e : ToolEffectRow}
    {r : ToolEffectRevisionRow} (h : data.Admitted s e r) (hcomplete : s.ledger.Complete e.id)
    (code : ErrorCode) : ¬ data.Refused s e r code := by
  intro hrefused
  cases hrefused with
  | incomplete hmissing => exact hmissing hcomplete
  | stale hstale => exact hstale h.expected
  | forbidden hforbidden => exact hforbidden h.follows
  | invalidated hstatus hinvalidated => exact h.active hstatus hinvalidated

/-- The revision that a transition appends. -/
def revision (data : TransitionToolEffect) (id : UUID) : NewEffectRevision :=
  ⟨id, data.expectedRevision + 1, data.status, data.reason, .api, data.receiptReference,
    data.receiptSource⟩

end TransitionToolEffect

section Transition

variable {platform : Platform} {timeline : Timeline} {n : Nat} {σ : Session} {e : ToolEffectRow}
  {r : ToolEffectRevisionRow} {data : TransitionToolEffect} {s : Store}

/-- A key without a receipt. -/
theorem outcome_once_fresh {α : Type} {operation : Operation} {key payload : String}
    {replayed : Receipt → Tx α} {fresh : Digest → Digest → Tx α} {Q : α → Nat → Session → Prop}
    {F : Fault → Prop} (hkey : ∀ row, ¬ σ.Stored platform operation key row)
    (hfresh : ∀ m, Outcome platform timeline (fresh (σ.store.digest platform key)
      (σ.store.digest platform payload)) Q F m σ) :
    Outcome platform timeline (once platform operation key payload replayed fresh) Q F n σ := by
  have hnone : (σ.view (timeline.moment (n + 2))).receipt? operation (σ.store.digest platform key)
      = none := Table.find?_eq_none_iff.mpr fun row hrow hsame => hkey row ⟨hrow, hsame⟩
  refine outcome_bind (P := fun a _ σ' => σ' = σ ∧ a = (σ.store.digest platform key,
    σ.store.digest platform payload, none)) ?_ ?_
  · refine outcome_digest (outcome_digest (outcome_read ?_))
    rw [hnone]
    exact ⟨rfl, rfl⟩
  · rintro _ m σ' - ⟨rfl, rfl⟩
    exact hfresh m

/-- The checks of the revision that a transition appends. -/
theorem TransitionToolEffect.Admitted.checks (h : data.Admitted s e r)
    (hrecorded : s.ledger.Recorded e) (hr : s.ledger.Current e r) :
    (data.revision e.id).checks = true := by
  have hstage := hrecorded.revision_le hr.1
  have hnext := stage_lt_of_follows (mem_transitions.mp h.follows)
  have hlast := data.status.stage_le
  have hpositive := hrecorded.positive r hr.1
  have hnumber : r.revision = e.currentRevision := hr.2
  have hexpected := h.expected
  rw [NewEffectRevision.checks, Bool.and_eq_true, Bool.and_eq_true, decide_eq_true_eq,
    decide_eq_true_eq]
  refine ⟨⟨Nat.le_add_left 1 _, ?_⟩, ?_⟩
  · change data.expectedRevision + 1 ≤ 4
    omega
  · have hreceipt := data.terminalReceipt
    change (if data.status = .confirmed ∨ data.status = .failed then
      data.receiptReference.isSome && data.receiptSource.isSome
      else data.receiptReference.isNone && data.receiptSource.isNone) = true
    split at hreceipt
    next hterminal => rw [if_pos hterminal, hreceipt.1, hreceipt.2]; rfl
    next hopen => rw [if_neg hopen, hreceipt.1, hreceipt.2]; rfl

/-- The texts of the revision that a transition appends. -/
theorem TransitionToolEffect.Storable.texts (h : data.Storable) {id : UUID} :
    (LedgerStatement.insertRevision (data.revision id)).texts.all storable = true := by
  rw [LedgerStatement.texts, List.all_cons, Bool.and_eq_true]
  refine ⟨h.reason, List.all_eq_true.mpr fun text htext => ?_⟩
  obtain ⟨reference, hreference, rfl⟩ := Option.map_eq_some_iff.mp (Option.mem_toList.mp htext)
  exact h.receipt reference hreference

/-- The run of a visible effect, as the trigger looks it up. -/
theorem View.runInvalidated_eq {v : View} (hgrounded : Grounded v.store)
    (he : e ∈ v.store.ledger.effects) (hread : v.permitted e.scopeId .read = true) :
    runInvalidated v e.id = true ↔ v.store.checkpointing.Invalidated e.scopeId e.runId := by
  obtain ⟨row, hrow, hkey, hrun⟩ := View.exists_run? hgrounded he hread
  rw [runInvalidated, View.effect?_of_mem hgrounded he hread, Option.any_some, hrun, Option.any_some]
  constructor
  · exact fun h => ⟨row, hrow, hkey, h⟩
  · rintro ⟨row', hrow', hkey', h⟩
    obtain rfl : row = row' := Table.eq_of_key_eq hrow hrow' (hkey.trans hkey'.symm)
    exact h

/-- **What the service admits, the trigger accepts**: where the caller still reads and writes, the texts
can be stored and the clock has moved past the last revision. -/
theorem step_admitted (platform : Platform) (hs : Sound σ.store)
    (hsequenced : σ.store.ledger.Sequenced) (he : e ∈ σ.store.ledger.effects)
    (hr : σ.store.ledger.Current e r) {m : Moment}
    (hread : (σ.view m).permitted e.scopeId .read = true)
    (hwrite : (σ.view m).permitted e.scopeId .write = true) (hlater : r.recordedAt < m.clock 0)
    (hdata : data.Admitted σ.store e r) (hstorable : data.Storable) :
    ∃ t, σ.store.ledger.revisions.insert? ((data.revision e.id).row (σ.view m) m) = some t
      ∧ step platform (.ledger (.insertRevision (data.revision e.id))) m σ
        = .ok (.done, { σ with
            store.ledger := σ.store.ledger.extended e.id (data.expectedRevision + 1) t
            deferred := σ.deferred ++ [.toolEffect e.id] }) := by
  have hwritable := ((hs.grounded.effect he).writable (v := σ.view m)
    hs.integrity.foreign.marked rfl).mpr ⟨hread, hwrite⟩
  refine step_nextRevision platform (data.revision e.id) hs.integrity.foreign hs.integrity.unique
    (View.effect?_of_mem hs.grounded he hread)
    (View.effectRevision?_of_current hs.grounded he hread hr) hwritable
    (hsequenced.recorded _ he) rfl (congrArg (· + 1) hdata.expected)
    (mem_transitions.mp hdata.follows) rfl ?_ (hdata.checks (hsequenced.recorded _ he) hr)
    hstorable.texts hlater
  rw [Bool.and_eq_false_iff, decide_eq_false_iff_not, ← Bool.not_eq_true,
    View.runInvalidated_eq hs.grounded he hread]
  exact not_or_of_imp hdata.active

/-- **A transition**: the service refuses it, or it runs to its end. -/
theorem outcome_transition (hs : Sound σ.store) (hsequenced : σ.store.ledger.Sequenced)
    (he : e ∈ σ.store.ledger.effects) (hr : σ.store.ledger.Current e r)
    (hread : Holds timeline σ e.scopeId .read) (hwrite : Holds timeline σ e.scopeId .write)
    (hlater : ∀ k, r.recordedAt < (timeline.moment k).clock 0) (hstorable : data.Storable)
    {key : String} (hkey : ∀ row, ¬ σ.Stored platform .transitionToolEffect key row) :
    Outcome platform timeline (ToolEffects.transition platform e.id data key)
      (fun receipt _ σ' => σ.store.ledger.Complete e.id ∧ data.Admitted σ.store e r
        ∧ receipt = .effect e.id (e.currentRevision + 1) data.status
        ∧ ∃ v m t o, σ.store.ledger.revisions.insert? ((data.revision e.id).row v m) = some t
          ∧ σ' = ⟨σ.principal, { σ.store with
              ledger := σ.store.ledger.extended e.id (data.expectedRevision + 1) t
              operations := o }, σ.deferred ++ [.toolEffect e.id]⟩)
      (fun fault => ∃ code, fault = .memory code ∧ data.Refused σ.store e r code) n σ := by
  refine outcome_bind ((outcome_effectLoad_iff hs.grounded he hr hread hwrite).mono
    (fun _ _ _ _ h => h) fun _ h => ⟨_, h.2, .incomplete h.1⟩) ?_
  rintro loaded m σ' - ⟨rfl, hcomplete, rfl, hstatus, row, hrow, hrun, hinvalidated⟩
  refine outcome_once_fresh hkey fun m => ?_
  -- The guards in their order: the expected revision, the table, the sealed run.
  refine outcome_demand (fun hexpected => ?_) fun hfail =>
    ⟨_, rfl, .stale (of_decide_eq_false hfail)⟩
  refine outcome_demand (fun hfollows => ?_) fun hfail => ?_
  swap
  · rw [hstatus] at hfail
    exact ⟨_, rfl, .forbidden (of_decide_eq_false hfail)⟩
  rw [hstatus] at hfollows
  refine outcome_demand (fun hactive => ?_) fun hfail => ?_
  swap
  · rw [Bool.not_eq_false', Bool.and_eq_true, decide_eq_true_eq, hinvalidated] at hfail
    exact ⟨_, rfl, .invalidated hfail.1 ⟨row, hrow, hrun, hfail.2⟩⟩
  have hdata : data.Admitted σ'.store loaded.row r := by
    refine ⟨of_decide_eq_true hexpected, of_decide_eq_true hfollows, fun hdispatched => ?_⟩
    rintro ⟨row', hrow', hrun', hsealed⟩
    obtain rfl : row = row' := Table.eq_of_key_eq hrow hrow' (hrun.trans hrun'.symm)
    rw [hinvalidated, hsealed, decide_eq_true hdispatched] at hactive
    cases hactive
  -- Past the guards no statement can fail: the revision, the audit entry, the receipt.
  obtain ⟨t, ht, hstep⟩ := step_admitted platform hs hsequenced he hr (hread m) (hwrite m) (hlater m)
    hdata hstorable
  obtain ⟨hforeign, hunique⟩ := (step_eq_ok.mp hstep).2.2.1
  obtain ⟨entry, t', -, -, haudited⟩ := step_audit platform hforeign hunique hs.auditFresh
    ("tool_effect_" ++ data.status.str) loaded.row.id (timeline.moment (m + 1))
  obtain ⟨hforeign', hunique'⟩ := (step_eq_ok.mp haudited).2.2.1
  obtain ⟨t'', -, hsaved⟩ := step_saveResult platform hforeign' hunique'
    (fun row hrow hsame => hkey row ⟨hrow, hsame⟩)
    (σ'.store.digest platform (objectPayload "memory_id" loaded.row.id data.dump))
    (.effect loaded.row.id (data.expectedRevision + 1) data.status) (timeline.moment (m + 2))
  refine outcome_bind (P := fun receipt m' σ'' =>
    receipt = .effect loaded.row.id (data.expectedRevision + 1) data.status
      ∧ m' = m + 2 ∧ σ'' = _)
    (outcome_sent hstep (outcome_sent haudited (outcome_pure ⟨rfl, rfl, rfl⟩))) ?_
  rintro receipt m' σ'' - ⟨rfl, rfl, rfl⟩
  refine outcome_sent hsaved (outcome_pure ⟨hcomplete, hdata, ?_, _, _, t, _, ht, rfl⟩)
  rw [hdata.expected]

/-- Moving a head to the number of a new revision keeps heads on revisions. -/
theorem DeferredKeys.extended {s : Store} (h : DeferredKeys s) {id : UUID}
    {row : ToolEffectRevisionRow} {t : Table ToolEffectRevisionRow}
    (ht : s.ledger.revisions.insert? row = some t) (hid : row.effectId = id) (o : Operations) :
    DeferredKeys { s with ledger := s.ledger.extended id row.revision t, operations := o } where
  assertion_current := h.assertion_current
  effect_current := by
    intro e he k hk
    cases hk
    obtain ⟨e', he', rfl⟩ := mem_moveEffectHead_iff.mp he
    by_cases hmoved : e'.id = id
    · rw [if_pos hmoved]
      exact ⟨row, Table.mem_insert?_self ht, Prod.ext (hid.trans hmoved.symm) rfl⟩
    · rw [if_neg hmoved]
      obtain ⟨p, hp, hkey⟩ := h.effect_current.exists_parent he' rfl
      exact ⟨p, (Table.mem_insert? ht).mpr (Or.inr hp), hkey⟩

/-- Moving heads keeps references. -/
theorem Ledger.Complete.extended {l : Ledger} {id : UUID} (h : l.Complete id) (moved : UUID)
    (number : Nat) (t : Table ToolEffectRevisionRow) : (l.extended moved number t).Complete id := by
  intro e he hid
  obtain ⟨e', he', rfl⟩ := mem_moveEffectHead_iff.mp he
  by_cases hmoved : e'.id = moved
  · rw [if_pos hmoved] at hid ⊢
    exact h e' he' hid
  · rw [if_neg hmoved] at hid ⊢
    exact h e' he' hid

/-- **A transition that its caller may make**: it is committed, and the new revision is the current one,
or the service refuses it. -/
theorem attempt_transition {principal : UUID} (hs : Sound s) (hsequenced : s.ledger.Sequenced)
    (he : e ∈ s.ledger.effects) (hr : s.ledger.Current e r) (hmover : Mover timeline principal s e r)
    (hstorable : data.Storable) {key : String}
    (hkey : ∀ row, ¬ (Session.start principal s).Stored platform .transitionToolEffect key row) :
    (∃ s', attempt platform timeline principal ((Request.transition e.id data key).program platform) s
        = .ok (.receipt (.effect e.id (e.currentRevision + 1) data.status), s')
      ∧ data.Admitted s e r ∧ s.ledger.Complete e.id
      ∧ { e with currentRevision := e.currentRevision + 1 } ∈ s'.ledger.effects
      ∧ ∃ q, s'.ledger.Current { e with currentRevision := e.currentRevision + 1 } q
        ∧ q.status = data.status)
      ∨ ∃ code, attempt platform timeline principal
          ((Request.transition e.id data key).program platform) s = .error (.memory code)
        ∧ data.Refused s e r code := by
  have hprogram : Outcome platform timeline ((Request.transition e.id data key).program platform)
      (fun response _ σ' => s.ledger.Complete e.id ∧ data.Admitted s e r
        ∧ response = .receipt (.effect e.id (e.currentRevision + 1) data.status)
        ∧ ∃ v m t o, s.ledger.revisions.insert? ((data.revision e.id).row v m) = some t
          ∧ σ' = ⟨principal, { s with
              ledger := s.ledger.extended e.id (data.expectedRevision + 1) t
              operations := o }, [.toolEffect e.id]⟩)
      (fun fault => ∃ code, fault = .memory code ∧ data.Refused s e r code)
      0 (.start principal s) := by
    refine outcome_bind (P := fun _ _ σ' => σ' = .start principal s) ?_ ?_
    · exact (outcome_bindIdentity_known hmover.authenticated).mono (fun _ _ _ _ h => h.2)
        fun _ h => h.elim
    · rintro _ m σ' - rfl
      refine outcome_bind (outcome_transition hs hsequenced he hr hmover.reads hmover.writes
        hmover.later hstorable hkey) ?_
      rintro receipt m' σ'' - ⟨hcomplete, hdata, rfl, v, m, t, o, ht, rfl⟩
      exact outcome_pure ⟨hcomplete, hdata, rfl, v, m, t, o, ht, rfl⟩
  rcases hprogram.cases_run with ⟨response, n, σ', hrun, hcomplete, hdata, rfl, v, m, t, o, ht, hσ'⟩
    | ⟨fault, hrun, code, rfl, hrefused⟩
  swap
  · refine Or.inr ⟨code, ?_, hrefused⟩
    rw [attempt, show runFrom platform timeline _ 0 ⟨principal, s, []⟩ = _ from hrun]
    rfl
  refine Or.inl ?_
  -- what the statements of the run have kept
  have hdeletes : (Request.transition e.id data key).deletes = false := rfl
  obtain ⟨-, hgrounded, hsequenced'⟩ := Request.run_invariant
    (c := ⟨platform, .transition e.id data key, Set.univ, timeline, s⟩)
    (I := fun σ => Grounded σ.store ∧ σ.store.ledger.Sequenced) hs.integrity.foreign hdeletes rfl
    ⟨hs.grounded, hsequenced⟩ (fun st m σ r σ' hσ hI hallow hstep => by
      refine ⟨hallow.grounded hσ hstep hI.1, ?_⟩
      have haccepted := st.accepted (step_eq_ok.mp hstep).2.1
      rcases haccepted.ledger_cases hallow.quiet with hsame | ⟨st', -, hledger⟩
      · rw [hsame]
        exact hI.2
      · exact hledger.sequenced hI.1.foreign hI.2) hrun
  subst hσ'
  have hdeferred : DeferredKeys { s with
      ledger := s.ledger.extended e.id (data.expectedRevision + 1) t, operations := o } :=
    hs.integrity.deferred.extended ht rfl o
  have hcheck := View.checkToolEffect_eq_true (v := Session.view ⟨principal, _, [.toolEffect e.id]⟩
    (timeline.moment n)) hgrounded (hcomplete.extended e.id _ t) hsequenced' hdeferred
  refine ⟨_, attempt_eq_ok.mpr ⟨n, _, hrun, commit_eq_ok.mpr ⟨⟨?_, hdeferred⟩, rfl⟩⟩, hdata,
    hcomplete, ?_, (data.revision e.id).row v m, ?_, rfl⟩
  · rw [List.all_cons, List.all_nil, Bool.and_true]
    exact hcheck
  · rw [← hdata.expected]
    exact mem_moveEffectHead_iff.mpr ⟨e, he, if_pos rfl⟩
  · exact ⟨⟨Table.mem_insert?_self ht, rfl⟩, congrArg (· + 1) hdata.expected⟩

end Transition

end PgAgmemory

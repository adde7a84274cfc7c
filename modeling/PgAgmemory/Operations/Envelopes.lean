import PgAgmemory.Operations.Fences
import PgAgmemory.System.Outcomes

/-! # Envelopes and restores

What a checkpoint that could be loaded is (`Loaded`), what an envelope is made of (`Enveloped`: a loaded
checkpoint and the ledger of its run as the last statement saw it), and what a restore without a stored
receipt has fenced (`Restored`). -/

namespace PgAgmemory

open Keyed (HasKey Table key)
open Interactive (Program)
open Interactive.Program (ReadOnly Sends)
open MemoryService

/-- **A loaded checkpoint**: a row of an active run, with the payload and the state that were saved. -/
def Loaded (s : Store) (id : UUID) (saved : SavedCheckpoint) : Prop :=
  ∃ c ∈ s.checkpointing.checkpoints, ∃ run ∈ s.checkpointing.runs, ∃ refs,
    c.id = id ∧ (run.scopeId, run.runId) = (c.scopeId, c.runId) ∧ run.effectsInvalidated = false
      ∧ saved.payload = c.payload run refs ∧ CheckpointState.validate c.state = some saved.state

/-- **An envelope** at the moment after its last statement: a loaded checkpoint and the ledger of its
run as that statement saw it. -/
def Enveloped (timeline : Timeline) (e : Envelope) (n : Nat) (σ : Session) : Prop :=
  ∃ k id epochs, n = k + 1 ∧ Loaded σ.store id e.saved
    ∧ e = .of e.saved epochs ((σ.view (timeline.moment k)).runLedger e.saved.payload.scopeId
      e.saved.payload.runId)

section Outcomes

variable {platform : Platform} {timeline : Timeline} {n : Nat} {σ : Session}

/-- **Loading a checkpoint**, with a permission on its scope at some statement before. -/
theorem outcome_checkpointLoad (id : UUID) (permission : Permission) :
    Outcome platform timeline (Checkpoints.load platform id permission)
      (fun saved m σ' => σ' = σ ∧ Loaded σ.store id saved
        ∧ (ForeignKeys σ.store → ∃ k, n ≤ k ∧ k < m
          ∧ (σ.view (timeline.moment k)).permitted saved.payload.scopeId .read = true
          ∧ (σ.view (timeline.moment k)).permitted saved.payload.scopeId permission = true))
      (fun _ => True) n σ := by
  refine outcome_bind ((outcome_object id permission).mono (fun _ _ _ _ h => h) fun _ _ => trivial) ?_
  rintro o m σ' - ⟨rfl, rfl, hobject, hread, hpermission⟩
  refine outcome_demand (fun _ => outcome_read (outcome_found ?_ fun _ => trivial)) fun _ => trivial
  rintro ⟨c, run⟩ hrow
  refine outcome_read (outcome_demand (fun _ => outcome_digest ?_) fun _ => trivial)
  refine outcome_demand (fun _ => outcome_found (fun state hstate => ?_) fun _ => trivial)
    fun _ => trivial
  obtain ⟨hjoined, hactive⟩ := Option.filter_eq_some_iff.mp hrow
  obtain ⟨c', hc, hrun⟩ := Option.bind_eq_some_iff.mp hjoined
  obtain ⟨run', hrun, hpair⟩ := Option.map_eq_some_iff.mp hrun
  cases hpair
  obtain ⟨hfind, -⟩ := Option.filter_eq_some_iff.mp hc
  obtain ⟨hmem, hid⟩ := Table.find?_eq_some_iff.mp hfind
  obtain ⟨hmem', hkey, -⟩ := View.run?_eq_some.mp hrun
  refine outcome_pure ⟨rfl, ⟨c, hmem, run, hmem', _, hid, hkey, ?_, rfl, hstate⟩, fun hkeys =>
    ⟨n + 1, by omega, by omega, ?_⟩⟩
  · simpa using hactive
  · -- the object of the checkpoint has its scope
    obtain ⟨hobject, hoid, -⟩ := View.object?_eq_some.mp hobject
    obtain ⟨o', ho', hokey⟩ := hkeys.checkpoint.checkpoint_object.exists_parent hmem rfl
    obtain ⟨hoid', hrest⟩ := Prod.mk.inj hokey
    have hsame : o' = o := Table.eq_of_key_eq ho' hobject ((hoid'.trans hid).trans hoid.symm)
    have hscope : o.scopeId = c.scopeId := hsame ▸ (Prod.mk.inj hrest).1
    rw [hscope] at hread hpermission
    exact ⟨hread, hpermission⟩

/-- **The envelope of a checkpoint.** -/
theorem outcome_envelope (id : UUID) :
    Outcome platform timeline (Checkpoints.envelope platform id)
      (fun e m σ' => σ' = σ ∧ Enveloped timeline e m σ') (fun _ => True) n σ := by
  refine outcome_bind (outcome_checkpointLoad id .read) ?_
  rintro saved m σ' - ⟨rfl, hloaded, -⟩
  exact outcome_read (outcome_read (outcome_pure ⟨rfl, m + 1, id, _, rfl, hloaded, rfl⟩))

/-- **The fork of a restore** ends with an envelope. -/
theorem outcome_forkOnce (data : RestoreCheckpoint) (saved : SavedCheckpoint)
    (keyDigest requestDigest : Digest) :
    Outcome platform timeline (Checkpoints.forkOnce platform data saved keyDigest requestDigest)
      (fun e m σ' => Enveloped timeline e m σ') (fun _ => True) n σ := by
  refine outcome_any_bind fun _ _ _ => outcome_any_bind fun _ _ _ => outcome_any_bind fun _ _ _ =>
    outcome_any_bind fun _ _ _ => ?_
  split
  next => exact outcome_raise trivial
  next fork _ =>
    refine outcome_any_bind fun _ _ _ => outcome_any_bind fun _ _ _ => outcome_any_bind fun _ _ _ =>
      outcome_any_bind fun _ _ _ => ?_
    exact (outcome_envelope _).mono (fun _ _ _ _ h => h.2) fun _ h => h

/-- **A restore** answers with an envelope as the store has it, new or stored. -/
theorem outcome_restore (data : RestoreCheckpoint) (key : String) :
    Outcome platform timeline (Checkpoints.restore platform data key)
      (fun e m σ' => Enveloped timeline e m σ') (fun _ => True) n σ := by
  refine outcome_any_bind fun saved _ _ => outcome_once (fun row m _ _ _ => ?_) fun m _ _ => ?_
  · unfold Checkpoints.receiptEnvelope
    split
    next => exact (outcome_envelope _).mono (fun _ _ _ _ h => h.2) fun _ h => h
    next => exact outcome_raise trivial
  · exact outcome_forkOnce data saved _ _

/-- **A head** is answered with an envelope as the store has it. -/
theorem outcome_head (data : CheckpointBranch) :
    Outcome platform timeline (Checkpoints.head platform data)
      (fun e m σ' => Enveloped timeline e m σ') (fun _ => True) n σ := by
  refine outcome_any_bind fun _ _ _ => outcome_any_bind fun _ _ _ => outcome_any_bind fun _ _ _ =>
    outcome_any_bind fun _ _ _ => outcome_any_bind fun _ _ _ => ?_
  refine outcome_bind (outcome_envelope _) ?_
  rintro e m σ' - ⟨-, henveloped⟩
  exact outcome_demand (fun _ => outcome_pure henveloped) fun _ => trivial

/-- A response wraps what its program returns. -/
theorem outcome_respond {α : Type} {wrap : α → Response} {p : Tx α} {Q : α → Nat → Session → Prop}
    (h : Outcome platform timeline p Q (fun _ => True) n σ) :
    Outcome platform timeline (respond wrap p) (fun r m σ' => ∃ a, r = wrap a ∧ Q a m σ')
      (fun _ => True) n σ :=
  outcome_bind h fun a _ _ _ hQ => outcome_pure ⟨a, rfl, hQ⟩

/-- **The requests that return an envelope**: restores, and reads of a checkpoint or of a head. -/
theorem outcome_returning {P : Envelope → Nat → Session → Prop} (request : Request)
    (hrestore : ∀ data key m, Outcome platform timeline (Checkpoints.restore platform data key) P
      (fun _ => True) m σ)
    (hget : ∀ id m, Outcome platform timeline (Checkpoints.envelope platform id) P (fun _ => True) m σ)
    (hhead : ∀ data m, Outcome platform timeline (Checkpoints.head platform data) P
      (fun _ => True) m σ) :
    Outcome platform timeline (request.program platform)
      (fun r m σ' => ∀ e, r = .envelope e → request.deletes = false ∧ P e m σ') (fun _ => True) n σ := by
  refine outcome_bind (outcome_readOnly readOnly_bindIdentity fun _ => trivial) ?_
  rintro - m σ' - rfl
  have hwrap : ∀ {p : Tx Envelope}, Outcome platform timeline p P (fun _ => True) m σ' →
      Outcome platform timeline (respond .envelope p) (fun r m σ' => ∀ e, r = .envelope e → P e m σ')
        (fun _ => True) m σ' := by
    refine fun hp => (outcome_respond hp).mono ?_ fun _ h => h
    rintro _ _ _ - ⟨a, rfl, hP⟩ e he
    cases he
    exact hP
  have hother : ∀ {α : Type} {wrap : α → Response} {p : Tx α} {R : Envelope → Nat → Session → Prop},
      (∀ a e, wrap a ≠ .envelope e) → Outcome platform timeline (respond wrap p)
        (fun r m σ' => ∀ e, r = .envelope e → R e m σ') (fun _ => True) m σ' := by
    refine fun hwrap => (outcome_respond (Program.yields_any _ m σ')).mono ?_ fun _ h => h
    rintro _ _ _ - ⟨a, rfl, -⟩ e he
    exact absurd he (hwrap a e)
  cases request with
  | restoreCheckpoint data key =>
    exact (hwrap (hrestore data key m)).mono (fun _ _ _ _ h e he => ⟨rfl, h e he⟩) fun _ h => h
  | checkpoint id =>
    exact (hwrap (hget id m)).mono (fun _ _ _ _ h e he => ⟨rfl, h e he⟩) fun _ h => h
  | checkpointHead data =>
    exact (hwrap (hhead data m)).mono (fun _ _ _ _ h e he => ⟨rfl, h e he⟩) fun _ h => h
  | _ => exact hother fun _ _ h => Response.noConfusion h

/-! ## What a restore fences -/

/-- A new object needs the write permission of its scope. -/
theorem outcome_newObject_write (scopeId : UUID) (kind : ObjectKind) :
    Outcome platform timeline (newObject scopeId kind)
      (fun _ _ _ => (σ.view (timeline.moment (n + 1))).permitted scopeId .write = true)
      (fun _ => True) n σ := by
  refine outcome_drawUUID (outcome_send (fun r σ' hstep => outcome_pure ?_) fun _ _ => trivial)
  obtain ⟨hpermitted, -⟩ := Statement.accepted (step_eq_ok.mp hstep).2.1
  exact hpermitted

/-- Inserting a checkpoint needs the write permission of its scope. -/
theorem outcome_insertCheckpoint_write (data : CreateCheckpoint) (sequence : Nat)
    (parentId : Option UUID) :
    Outcome platform timeline (Checkpoints.insert platform data sequence parentId)
      (fun _ _ _ => ∃ k, n ≤ k ∧ (σ.view (timeline.moment k)).permitted data.scopeId .write = true)
      (fun _ => True) n σ := by
  refine outcome_bind (outcome_readOnly (readOnly_validateRefs _ _ _) fun _ => trivial) ?_
  rintro refs m σ' hle rfl
  refine outcome_read (outcome_bind (outcome_newObject_write _ _) fun id m' σ'' hle' hwrite => ?_)
  exact (Program.yields_any _ m' σ'').mono (fun _ _ _ _ _ => ⟨m + 1 + 1, by omega, hwrite⟩)
    fun _ h => h

/-- The entries of a run ledger name different effects. -/
theorem View.nodup_runLedger (v : View) (scope run : UUID) :
    ((v.runLedger scope run).map EffectEntry.memoryId).Nodup := by
  have hrows : (v.effectsOf scope run).Sublist v.store.ledger.effects.rows :=
    List.filter_sublist.trans List.filter_sublist
  have hsub : (((v.effectsOf scope run).filterMap v.effectEntry?).map EffectEntry.memoryId).Sublist
      (v.store.ledger.effects.rows.map key) := by
    refine List.Sublist.trans ?_ (hrows.map key)
    generalize v.effectsOf scope run = effects
    induction effects with
    | nil => exact List.Sublist.refl _
    | cons e effects ih =>
      rw [List.filterMap_cons]
      cases hentry : v.effectEntry? e with
      | none => exact ih.cons _
      | some entry =>
        obtain ⟨r, -, rfl⟩ := Option.map_eq_some_iff.mp hentry
        exact ih.cons_cons e.id
  have hperm := (List.perm_insertionSort EffectEntry.before
    ((v.effectsOf scope run).filterMap v.effectEntry?)).map EffectEntry.memoryId
  exact hperm.nodup_iff.mpr (hsub.nodup v.store.ledger.effects.nodup)

/-- **After its fence** a fork leaves the ledger alone, and needs the write permission of its scope. -/
theorem outcome_forkRest (fork : CreateCheckpoint) (parentId : UUID)
    (keyDigest requestDigest : Digest) :
    Outcome platform timeline (do
        let result ← Checkpoints.insert platform fork 1 (some parentId)
        saveResult .restoreCheckpoint keyDigest requestDigest result
        let id ← found (Checkpoints.checkpointId result) .notFound
        audit "restore_checkpoint" id
        Checkpoints.envelope platform id)
      (fun _ _ σ' => (∃ k, n ≤ k
          ∧ (σ.view (timeline.moment k)).permitted fork.scopeId .write = true)
        ∧ σ'.store.ledger = σ.store.ledger) (fun _ => True) n σ := by
  refine Program.Yields.and ?_ (outcome_sparesLedger ?_)
  · refine outcome_bind (outcome_insertCheckpoint_write fork 1 (some parentId)) ?_
    exact fun result m σ' _ hwrite => (Program.yields_any _ m σ').mono (fun _ _ _ _ _ => hwrite)
      fun _ h => h
  · refine (sends_forkRest platform fork parentId keyDigest requestDigest).mono fun st hst => ?_
    cases st <;> first | rfl | exact hst.elim

/-- **A fork fences its run**, as one of its statements lists it, and its scope could still be written
after that. -/
theorem outcome_forkOnce_fenced (data : RestoreCheckpoint) (saved : SavedCheckpoint)
    (keyDigest requestDigest : Digest) :
    Outcome platform timeline (Checkpoints.forkOnce platform data saved keyDigest requestDigest)
      (fun _ _ σ' => ∃ k l, n ≤ k ∧ k ≤ l
        ∧ (σ.view (timeline.moment l)).permitted saved.payload.scopeId .write = true
        ∧ σ.store.ledger.Fenced σ'.store.ledger (dispatchedIn
          ((σ.view (timeline.moment k)).runLedger saved.payload.scopeId saved.payload.runId)))
      (fun _ => True) n σ := by
  refine outcome_demand (fun _ => ?_) fun _ => trivial
  refine outcome_sendReturning (fun inserted σ₁ hstep => ?_) fun _ _ => trivial
  refine outcome_demand (fun _ => ?_) fun _ => trivial
  obtain ⟨_, hexec, -, hprincipal, -⟩ := step_eq_ok.mp hstep
  obtain ⟨_, checkpointing, -, hstore⟩ := Statement.accepted hexec
  -- The branch is inserted first, which leaves the ledger and the grants as they are.
  have hledger : σ₁.store.ledger = σ.store.ledger := by
    rw [hstore]
    rfl
  have hlisted : (σ₁.view (timeline.moment (n + 1))).runLedger saved.payload.scopeId
      saved.payload.runId = (σ.view (timeline.moment (n + 1))).runLedger saved.payload.scopeId
        saved.payload.runId := by
    unfold Session.view
    rw [hstore, hprincipal]
    rfl
  -- The run is listed once, by the statement after it, and every effect of the list is fenced.
  have hfence : Outcome platform timeline
      (ToolEffects.fenceRestore saved.payload.scopeId saved.payload.runId)
      (fun _ m σ₂ => (σ₂.principal = σ.principal ∧ σ₂.store.access = σ.store.access) ∧ n + 1 ≤ m
        ∧ σ.store.ledger.Fenced σ₂.store.ledger (dispatchedIn
          ((σ.view (timeline.moment (n + 1))).runLedger saved.payload.scopeId saved.payload.runId)))
      (fun _ => True) (n + 1) σ₁ := by
    refine outcome_read ?_
    have hloop := does_fenceAll (n := n + 1 + 1)
      (c := ⟨platform, .checkpoint data.checkpointId, Set.univ, timeline, σ.store⟩)
      (σ := σ₁) (View.nodup_runLedger (σ₁.view (timeline.moment (n + 1))) saved.payload.scopeId
        saved.payload.runId)
    refine hloop.yields.mono ?_ fun _ h => h
    rintro - m σ₂ hle ⟨hfollows, hfenced⟩
    rw [hledger, hlisted] at hfenced
    refine ⟨⟨hfollows.principal.trans hprincipal, hfollows.grown.access.trans ?_⟩, by omega, hfenced⟩
    rw [hstore]
    rfl
  -- The rest of the restore leaves the ledger alone and checks the permission to write.
  refine outcome_bind hfence ?_
  rintro - m σ₂ - ⟨⟨hprincipal₂, haccess⟩, hm, hfenced⟩
  split
  next => exact outcome_raise trivial
  next fork hfork =>
    refine (outcome_forkRest fork data.checkpointId keyDigest requestDigest).mono ?_ fun _ h => h
    rintro _ _ σ₃ - ⟨⟨l, hl, hpermitted⟩, hsame⟩
    refine ⟨n + 1, l, Nat.le_succ n, by omega, ?_, hsame ▸ hfenced⟩
    have hscope : fork.scopeId = saved.payload.scopeId :=
      (Prod.mk.inj (RestoreCheckpoint.fork_branch hfork)).1
    have hsame : (σ₂.view (timeline.moment l)).permitted fork.scopeId .write
        = (σ.view (timeline.moment l)).permitted fork.scopeId .write :=
      View.permitted_congr (v := σ.view (timeline.moment l)) (w := σ₂.view (timeline.moment l))
        (congrArg Access.members haccess) hprincipal₂ rfl _ _
    rw [← hscope, ← hsame]
    exact hpermitted

/-- **A restore fences the run of its checkpoint**, listed by a statement that could read the scope,
unless its key has a stored receipt: then it changes nothing. -/
theorem outcome_restore_fenced (hkeys : ForeignKeys σ.store) (data : RestoreCheckpoint) (key : String) :
    Outcome platform timeline (Checkpoints.restore platform data key)
      (fun _ _ σ' => ((∃ row, σ.Stored platform .restoreCheckpoint key row) ∧ σ' = σ)
        ∨ ∃ c ∈ σ.store.checkpointing.checkpoints, c.id = data.checkpointId
          ∧ ∃ k, (σ.view (timeline.moment k)).permitted c.scopeId .read = true
          ∧ σ.store.ledger.Fenced σ'.store.ledger (dispatchedIn
            ((σ.view (timeline.moment k)).runLedger c.scopeId c.runId)))
      (fun _ => True) n σ := by
  refine outcome_bind (outcome_checkpointLoad data.checkpointId .write) ?_
  rintro saved m σ' - ⟨rfl, hloaded, hpermitted⟩
  obtain ⟨c, hc, run, -, refs, hid, -, -, hpayload, -⟩ := hloaded
  obtain ⟨j, -, hj, hread, hwrite⟩ := hpermitted hkeys
  refine outcome_once (fun row m' _ hstored _ => ?_) fun m' hm' _ => ?_
  · refine (outcome_readOnly (readOnly_receiptEnvelope platform _) fun _ => trivial).mono ?_
      fun _ h => h
    exact fun _ _ _ _ hsame => Or.inl ⟨⟨row, hstored⟩, hsame⟩
  · refine (outcome_forkOnce_fenced data saved _ _).mono ?_ fun _ h => h
    rintro _ _ σ'' - ⟨k, l, hk, hl, hlater, hfenced⟩
    rw [hpayload] at hread hwrite hlater hfenced
    -- the membership that could write after the listing could read before it
    have hafter : (σ'.view (timeline.moment l)).permitted c.scopeId .read = true :=
      (View.permitted_iff_permitted (v := σ'.view (timeline.moment j))
        (w := σ'.view (timeline.moment l)) rfl rfl hwrite hread).mp hlater
    refine Or.inr ⟨c, hc, hid, k, ?_, hfenced⟩
    exact View.permitted_of_le (v := σ'.view (timeline.moment k)) (w := σ'.view (timeline.moment l)) rfl
      rfl (timeline.mono k l hl) hafter

/-- A session that has fenced one run, or is as it was. -/
def FencedOne (timeline : Timeline) (σ σ' : Session) : Prop :=
  σ' = σ ∨ ∃ c ∈ σ.store.checkpointing.checkpoints, ∃ k,
    (σ.view (timeline.moment k)).permitted c.scopeId .read = true
      ∧ σ.store.ledger.Fenced σ'.store.ledger
        (dispatchedIn ((σ.view (timeline.moment k)).runLedger c.scopeId c.runId))

/-- **Every request that returns an envelope** ends by listing the ledger of its run; it has fenced one
run, or changed nothing. -/
theorem outcome_enveloped (hkeys : ForeignKeys σ.store) (request : Request) :
    Outcome platform timeline (request.program platform)
      (fun r m σ' => ∀ e, r = .envelope e → request.deletes = false ∧ Enveloped timeline e m σ'
        ∧ FencedOne timeline σ σ') (fun _ => True) n σ := by
  refine outcome_returning request (fun data key m => ?_) (fun id m => ?_) fun data m => ?_
  · refine ((outcome_restore data key).and (outcome_restore_fenced hkeys data key)).mono ?_ fun _ h => h
    rintro e _ σ' - ⟨henveloped, ⟨-, hsame⟩ | ⟨c, hc, -, k, hfenced⟩⟩
    · exact ⟨henveloped, Or.inl hsame⟩
    · exact ⟨henveloped, Or.inr ⟨c, hc, k, hfenced⟩⟩
  · exact (outcome_envelope id).mono (fun _ _ _ _ h => ⟨h.2, Or.inl h.1⟩) fun _ h => h
  · refine ((outcome_head data).reading (readOnly_head platform data)).mono ?_ fun _ h => h
    exact fun _ _ _ _ h => ⟨h.2, Or.inl h.1⟩

end Outcomes

end PgAgmemory

import PgAgmemory.History.Building

/-! # Signed checkpoints

What `insert` signs (`CreateCheckpoint.payload`), and what the store holds of it afterwards
(`Store.Signed`): a checkpoint whose row, run and references make up the payload, under the checksum that
was given out. -/

namespace PgAgmemory

open Keyed (HasKey Table key)
open Interactive (Program)
open Interactive.Program (ReadOnly Sends)
open MemoryService

/-- **The payload that `insert` signs** for a request, with the references in their order. -/
def CreateCheckpoint.payload (data : CreateCheckpoint) (id : UUID) (sequence : Nat)
    (parentId : Option UUID) (epochs : Nat × Nat) : CheckpointPayload where
  checkpointId := id
  scopeId := data.scopeId
  runId := data.runId
  branchId := data.branchId
  sequence := sequence
  parentCheckpoint := parentId
  harnessId := data.harnessId
  harnessVersion := data.harnessVersion
  eventWatermark := data.eventWatermark
  state := data.state.dump
  memoryRefs := (data.memoryRefs.insertionSort MemoryReference.before).map fun ref =>
    (ref.memoryId, ref.revision.val)
  savedAccessEpoch := epochs.1
  savedDeletionEpoch := epochs.2

/-- **A signed payload**: some checkpoint, its run and all of its references make up the payload, and
the checkpoint carries the checksum. -/
def Store.Signed (s : Store) (p : CheckpointPayload) (sum : Digest) : Prop :=
  ∃ c ∈ s.checkpointing.checkpoints, ∃ run ∈ s.checkpointing.runs,
    (run.scopeId, run.runId) = (c.scopeId, c.runId) ∧ c.checksum = sum
      ∧ c.referenceCount = (s.checkpointing.refsOf c.id).length
      ∧ c.payload run (s.checkpointing.refsOf c.id) = p

/-- The epochs that a checkpoint saves. -/
def Store.epochs (s : Store) : Nat × Nat := (s.access.accessEpoch, s.access.deletionEpoch)

section Rows

variable {s s' : Store} {p q : CheckpointPayload} {sum sum' : Digest}

/-- Only the checkpointing matters. -/
theorem Store.Signed.congr (h : s.Signed p sum) (hsame : s'.checkpointing = s.checkpointing) :
    s'.Signed p sum := by
  unfold Store.Signed
  rw [hsame]
  exact h

/-- The row of a signed payload. -/
theorem Store.Signed.row (h : s.Signed p sum) :
    ∃ c ∈ s.checkpointing.checkpoints, c.id = p.checkpointId ∧ c.checksum = sum := by
  obtain ⟨c, hc, run, -, -, hsum, -, rfl⟩ := h
  exact ⟨c, hc, rfl, hsum⟩

/-- **An id has one signed payload.** -/
theorem Store.Signed.unique (h : s.Signed p sum) (h' : s.Signed q sum')
    (hid : p.checkpointId = q.checkpointId) : p = q ∧ sum = sum' := by
  obtain ⟨c, hc, run, hrun, hkey, rfl, -, rfl⟩ := h
  obtain ⟨c', hc', run', hrun', hkey', rfl, -, rfl⟩ := h'
  obtain rfl : c = c' := Table.eq_of_key_eq hc hc' hid
  obtain rfl : run = run' := Table.eq_of_key_eq hrun hrun' (hkey.trans hkey'.symm)
  exact ⟨rfl, rfl⟩

end Rows

/-! ## Inserting -/

section Insert

variable {platform : Platform} {timeline : Timeline} {n : Nat} {σ : Session}

/-- **Validated references** are those of the request, in order. -/
theorem outcome_validateRefs_pairs (scopeId : UUID) (refs : List MemoryReference)
    (errorCode : ErrorCode) :
    Outcome platform timeline (validateRefs scopeId refs errorCode)
      (fun found _ σ' => σ' = σ ∧ found.map ValidatedReference.pair
        = (refs.insertionSort MemoryReference.before).map fun ref => (ref.memoryId, ref.revision.val))
      (fun _ => True) n σ := by
  refine outcome_forCollect_map (fun ref m => ?_) _
  refine outcome_bind (outcome_readOnly (readOnly_object _ _) fun _ => trivial) ?_
  rintro obj m' σ' - rfl
  refine outcome_demand (fun _ => ?_) fun _ => trivial
  split
  · exact outcome_read (outcome_demand (fun _ => outcome_pure ⟨rfl, rfl⟩) fun _ => trivial)
  · exact outcome_demand (fun _ => outcome_pure ⟨rfl, rfl⟩) fun _ => trivial

/-- The references of a request are in the order of a payload. -/
theorem CreateCheckpoint.pairwise_payload (data : CreateCheckpoint) (id : UUID) (sequence : Nat)
    (parentId : Option UUID) (epochs : Nat × Nat) :
    (data.payload id sequence parentId epochs).memoryRefs.Pairwise refBefore :=
  List.pairwise_map.mpr (List.pairwise_insertionSort MemoryReference.before _)

/-- A free id has no references. -/
theorem Fresh.references {s : Store} (hkeys : ForeignKeys s) {id : UUID} (h : Fresh s id) :
    s.checkpointing.references.rows.filter (·.checkpointId = id) = [] := by
  refine List.filter_eq_nil_iff.mpr fun ref href hid => ?_
  obtain ⟨c, hc, hkey⟩ :=
    hkeys.checkpoint.reference_checkpoint.exists_parent (Table.mem_rows.mp href) rfl
  obtain ⟨o, ho, hokey⟩ := hkeys.checkpoint.checkpoint_object.exists_parent hc rfl
  exact h o ho ((Prod.mk.inj hokey).1.trans ((Prod.mk.inj hkey).1.trans (of_decide_eq_true hid)))

/-- **Inserting the references** of a checkpoint whose row is stored. -/
theorem outcome_insertReferences {refs : List ValidatedReference} {c : CheckpointRow}
    {run : CheckpointRunRow} (hc : c ∈ σ.store.checkpointing.checkpoints)
    (hrun : run ∈ σ.store.checkpointing.runs)
    (hnone : σ.store.checkpointing.references.rows.filter (·.checkpointId = c.id) = [])
    (hsorted : (refs.map ValidatedReference.pair).Pairwise refBefore) :
    Outcome platform timeline (forEach refs fun ref => send (.checkpoint (.insertReference
        ⟨c.id, c.scopeId, ref.memoryId, ref.revision, ref.kind⟩)))
      (fun _ _ σ' => (c ∈ σ'.store.checkpointing.checkpoints ∧ run ∈ σ'.store.checkpointing.runs)
        ∧ σ'.store.checkpointing.refsOf c.id = refs.map ValidatedReference.pair)
      (fun _ => True) n σ := by
  refine (outcome_children (fun s => s.checkpointing.references.rows.filter (·.checkpointId = c.id))
    (g := fun ref : ValidatedReference =>
      (⟨c.id, c.scopeId, ref.memoryId, ref.revision, ref.kind⟩ : CheckpointReferenceRow))
    (I := fun σ => c ∈ σ.store.checkpointing.checkpoints ∧ run ∈ σ.store.checkpointing.runs)
    ?_ ⟨hc, hrun⟩).mono ?_ fun _ h => h
  · rintro ref - m σ r σ' hframe hstep
    obtain ⟨inserted, k, ⟨-, t, ht, rfl⟩, hstore⟩ := Statement.accepted (step_eq_ok.mp hstep).2.1
    refine ⟨?_, ?_⟩
    · rw [hstore]
      exact hframe
    · rw [hstore]
      change t.rows.filter _ = _
      rw [(Table.insert?_eq_some_iff.mp ht).2]
      exact List.filter_cons_of_pos (decide_eq_true rfl)
  · rintro - m σ' - ⟨hframe, hlisted⟩
    rw [hnone, List.append_nil] at hlisted
    refine ⟨hframe, refsOf_eq hsorted ?_⟩
    rw [hlisted, ← List.map_reverse, List.map_map]
    exact (List.reverse_perm refs).map _

/-- **The row of a checkpoint and its references**, once its run is stored. -/
theorem outcome_insertRow {new : NewCheckpoint} {refs : List ValidatedReference}
    {run : CheckpointRunRow} (hrun : run ∈ σ.store.checkpointing.runs)
    (hkey : (run.scopeId, run.runId) = (new.scopeId, new.runId))
    (hnone : σ.store.checkpointing.references.rows.filter (·.checkpointId = new.id) = [])
    (hsorted : (refs.map ValidatedReference.pair).Pairwise refBefore)
    (hcount : new.referenceCount = refs.length) (result : Receipt) :
    Outcome platform timeline (do
        send (.checkpoint (.insertCheckpoint new))
        forEach refs fun ref => send (.checkpoint (.insertReference
          ⟨new.id, new.scopeId, ref.memoryId, ref.revision, ref.kind⟩))
        audit "checkpoint" new.id
        pure result)
      (fun r _ σ' => r = result ∧ σ'.store.Signed
        ((new.row 0).payload run (refs.map ValidatedReference.pair)) new.checksum)
      (fun _ => True) n σ := by
  refine outcome_send (fun r σ₁ hstep => ?_) fun _ _ => trivial
  obtain ⟨inserted, k, ⟨-, t, branch, ⟨-, ht⟩, rfl⟩, hstore⟩ :=
    Statement.accepted (step_eq_ok.mp hstep).2.1
  have hrow := Table.mem_insert?_self ht
  generalize hordinal : (σ.view (timeline.moment n)).store.checkpointing.nextOrdinal = ordinal at hrow
  have hstored : new.row ordinal ∈ σ₁.store.checkpointing.checkpoints := by
    rw [hstore]
    exact hrow
  have hrun₁ : run ∈ σ₁.store.checkpointing.runs := by
    rw [hstore]
    exact hrun
  have hnone₁ : σ₁.store.checkpointing.references.rows.filter (·.checkpointId = (new.row ordinal).id)
      = [] := by
    rw [hstore]
    exact hnone
  refine outcome_bind (outcome_insertReferences hstored hrun₁ hnone₁ hsorted) ?_
  rintro - m σ₂ - ⟨⟨hc, hr⟩, hrefs⟩
  refine outcome_send (fun entry σ₃ haudit => outcome_pure ⟨rfl, ?_⟩) fun _ _ => trivial
  obtain ⟨o, -, hstore₃⟩ := Statement.accepted (step_eq_ok.mp haudit).2.1
  have hsigned : σ₂.store.Signed ((new.row ordinal).payload run (refs.map ValidatedReference.pair))
      new.checksum := by
    refine ⟨_, hc, run, hr, hkey, rfl, ?_, by rw [hrefs]⟩
    rw [hrefs, List.length_map]
    exact hcount
  exact hsigned.congr (by rw [hstore₃]; rfl)

/-- A new object has a free id, and nothing else is new. -/
theorem outcome_newObject_store (scopeId : UUID) (kind : ObjectKind) :
    Outcome platform timeline (newObject scopeId kind)
      (fun id _ σ' => Fresh σ.store id ∧ ∃ t, σ'.store = { σ.store with anchor.objects := t })
      (fun _ => True) n σ := by
  refine outcome_drawUUID (outcome_send (fun r σ' hstep => outcome_pure ?_) fun _ _ => trivial)
  obtain ⟨-, t, ht, hstore⟩ := Statement.accepted (step_eq_ok.mp hstep).2.1
  exact ⟨(Table.insert?_eq_some_iff.mp ht).1, t, hstore⟩

/-- **Inserting a checkpoint** under a new id signs the payload of the request, and gives out its
checksum. -/
theorem outcome_insertCheckpoint_signed (hkeys : ForeignKeys σ.store) {data : CreateCheckpoint}
    (hrun : OfHarness σ.store data) (sequence : Nat) (parentId : Option UUID) :
    Outcome platform timeline (Checkpoints.insert platform data sequence parentId)
      (fun r _ σ' => ∃ id p sum, Fresh σ.store id
        ∧ p = data.payload id sequence parentId σ.store.epochs ∧ sum = σ.store.digest platform p.text
        ∧ r = .checkpoint id data.runId data.branchId sequence parentId sum ∧ σ'.store.Signed p sum)
      (fun _ => True) n σ := by
  refine outcome_bind (outcome_validateRefs_pairs _ _ _) ?_
  rintro refs m σ' - ⟨rfl, hpairs⟩
  refine outcome_read (outcome_bind (outcome_newObject_store _ _) ?_)
  rintro id m' σ₁ - ⟨hfresh, objects, hstore₁⟩
  -- the text that is signed is not looked into
  generalize hpayload : CheckpointPayload.mk id _ _ _ _ _ _ _ _ _ _ _ _ = payload
  have hsame : payload = data.payload id sequence parentId σ'.store.epochs := by
    rw [← hpayload]
    exact congrArg (fun refs => CheckpointPayload.mk id data.scopeId data.runId data.branchId sequence
      parentId data.harnessId data.harnessVersion data.eventWatermark data.state.dump refs
      σ'.store.access.accessEpoch σ'.store.access.deletionEpoch) hpairs
  refine outcome_digest ?_
  have hdigest : σ₁.store.digest platform payload.text = σ'.store.digest platform payload.text := by
    rw [hstore₁]
    rfl
  generalize σ₁.store.digest platform payload.text = sum at hdigest
  obtain ⟨run, hmem, hkey, hharness, hversion⟩ := hrun
  have hmem₁ : run ∈ σ₁.store.checkpointing.runs := by
    rw [hstore₁]
    exact hmem
  have hnone : σ₁.store.checkpointing.references.rows.filter (·.checkpointId = id) = [] := by
    rw [hstore₁]
    exact hfresh.references hkeys
  have hsorted : (refs.map ValidatedReference.pair).Pairwise refBefore := by
    rw [hpairs]
    exact data.pairwise_payload id sequence parentId σ'.store.epochs
  refine (outcome_insertRow hmem₁ hkey hnone hsorted rfl _).mono ?_ fun _ h => h
  rintro r m'' σ'' - ⟨rfl, hsigned⟩
  refine ⟨id, payload, sum, hfresh, hsame, hdigest, rfl, ?_⟩
  have hrow : ∀ c : CheckpointRow, c = (NewCheckpoint.mk id data.scopeId data.runId data.branchId sequence
      parentId data.state.dump data.eventWatermark refs.length σ'.store.access.accessEpoch
      σ'.store.access.deletionEpoch sum).row 0 →
      c.payload run (refs.map ValidatedReference.pair) = payload := by
    rintro c rfl
    rw [← hpayload, ← hharness, ← hversion]
    rfl
  rw [← hrow _ rfl]
  exact hsigned

/-! ## Loading -/

/-- A listing of references that is not short is complete. -/
theorem View.refsOf_eq {v : View} {id : UUID}
    (hlength : (v.refsOf id).length = (v.store.checkpointing.refsOf id).length) :
    v.refsOf id = v.store.checkpointing.refsOf id := by
  have hsub : (v.referencesOf id).Sublist
      (v.store.checkpointing.references.rows.filter (·.checkpointId = id)) := by
    rw [View.referencesOf]
    exact List.Sublist.filter _ List.filter_sublist
  rw [View.refsOf, Checkpointing.refsOf, List.length_insertionSort, List.length_insertionSort,
    List.length_map, List.length_map] at hlength
  rw [View.refsOf, Checkpointing.refsOf, hsub.eq_of_length hlength]

/-- **What a load gives back is what was signed**, under the checksum that was given out. -/
theorem outcome_checkpointLoad_signed {p : CheckpointPayload} {sum : Digest}
    (h : σ.store.Signed p sum) (permission : Permission) :
    Outcome platform timeline (Checkpoints.load platform p.checkpointId permission)
      (fun saved _ σ' => σ' = σ ∧ saved.payload = p ∧ saved.checksum = sum
        ∧ CheckpointState.validate p.state = some saved.state) (fun _ => True) n σ := by
  obtain ⟨c, hc, run, hrun, hkey, rfl, hcount, rfl⟩ := h
  refine outcome_bind (outcome_readOnly (readOnly_object _ _) fun _ => trivial) ?_
  rintro o m σ' - rfl
  refine outcome_demand (fun _ => outcome_read (outcome_found ?_ fun _ => trivial)) fun _ => trivial
  rintro ⟨c', run'⟩ hrow
  obtain ⟨hjoined, -⟩ := Option.filter_eq_some_iff.mp hrow
  obtain ⟨c'', hfind, hjoin⟩ := Option.bind_eq_some_iff.mp hjoined
  obtain ⟨run'', hrun', hpair⟩ := Option.map_eq_some_iff.mp hjoin
  cases hpair
  obtain ⟨hmem, hid⟩ := Table.find?_eq_some_iff.mp (Option.filter_eq_some_iff.mp hfind).1
  obtain rfl : c = c' := Table.eq_of_key_eq hc hmem hid.symm
  obtain ⟨hmem', hkey', -⟩ := View.run?_eq_some.mp hrun'
  obtain rfl : run = run' := Table.eq_of_key_eq hrun hmem' (hkey.trans hkey'.symm)
  refine outcome_read (outcome_demand (fun hlength => ?_) fun _ => trivial)
  rw [View.refsOf_eq ((of_decide_eq_true hlength).trans hcount)]
  change Outcome platform timeline (digest platform _ >>= _) _ _ _ _
  refine outcome_digest (outcome_demand (fun _ => ?_) fun _ => trivial)
  exact outcome_found (fun state hstate => outcome_pure ⟨rfl, rfl, rfl, hstate⟩) fun _ => trivial

end Insert

/-! ## Creating and restoring -/

section Operations

variable {platform : Platform} {timeline : Timeline} {n : Nat} {σ : Session}

/-- **Ready to insert** a checkpoint for a request, in a transaction that has started with this store:
the run is of the harness, and access is as it was. -/
structure ReadyToInsert (s : Store) (data : CreateCheckpoint) (σ : Session) : Prop where
  harness : OfHarness σ.store data
  access : σ.store.access = s.access
  foreign : ForeignKeys σ.store

/-- Quiet statements change neither the harness of a run nor access. -/
theorem ReadyToInsert.step {s : Store} {data : CreateCheckpoint} {st : Statement} {m : Moment}
    {r : Returned} {σ' : Session} (h : ReadyToInsert s data σ) (hquiet : st.quiet = true)
    (hstep : PgAgmemory.step platform st m σ = .ok (r, σ')) : ReadyToInsert s data σ' where
  harness := h.harness.step hquiet hstep
  access := (step_grown hquiet hstep).access.trans h.access
  foreign := (step_eq_ok.mp hstep).2.2.1.1

/-- A part of quiet statements before a checkpoint is inserted. -/
theorem ReadyToInsert.before {α β : Type} {s : Store} {data : CreateCheckpoint} {p : Tx α}
    {k : α → Tx β} {Q : β → Nat → Session → Prop} (h : ReadyToInsert s data σ)
    (hp : Sends (fun st => st.quiet = true) p)
    (hk : ∀ a m σ', ReadyToInsert s data σ' → Outcome platform timeline (k a) Q (fun _ => True) m σ') :
    Outcome platform timeline (p >>= k) Q (fun _ => True) n σ := by
  have hready : Outcome platform timeline p (fun _ _ σ' => ReadyToInsert s data σ') (fun _ => True) n σ :=
    hp.yields h fun _ _ _ _ _ hquiet hI hstep => hI.step hquiet hstep
  exact outcome_bind hready fun a m σ' _ hpost => hk a m σ' hpost

/-- **The run of a request** is stored, and of its harness. -/
theorem outcome_ensureRun (data : CreateCheckpoint) :
    Outcome platform timeline (Checkpoints.ensureRun data)
      (fun _ _ σ' => ReadyToInsert σ.store data σ') (fun _ => True) n σ := by
  refine outcome_send (fun r σ₁ hstep => outcome_read (outcome_demand (fun _ => ?_)
    fun _ => trivial)) fun _ _ => trivial
  cases hfound : (σ₁.view (timeline.moment (n + 1))).run? data.scopeId data.runId with
  | none => exact trivial
  | some run =>
    rw [Option.any_some]
    cases hharness : decide (run.harnessId = data.harnessId)
        && decide (run.harnessVersion = data.harnessVersion) with
    | false => exact trivial
    | true =>
      obtain ⟨hmem, hkey, -⟩ := View.run?_eq_some.mp hfound
      rw [Bool.and_eq_true, decide_eq_true_eq, decide_eq_true_eq] at hharness
      have hquiet : (Statement.checkpoint (.insertRun data.scopeId data.runId data.harnessId
        data.harnessVersion)).quiet = true := rfl
      exact ⟨⟨run, hmem, hkey, hharness⟩, (step_grown hquiet hstep).access,
        (step_eq_ok.mp hstep).2.2.1.1⟩

/-- **Inserting a checkpoint when ready** signs the payload of its request. -/
theorem ReadyToInsert.insert {s : Store} {data : CreateCheckpoint} (h : ReadyToInsert s data σ)
    (sequence : Nat) (parentId : Option UUID) :
    Outcome platform timeline (Checkpoints.insert platform data sequence parentId)
      (fun r _ σ' => ∃ id p sum, p = data.payload id sequence parentId s.epochs
        ∧ sum = s.digest platform p.text
        ∧ r = .checkpoint id data.runId data.branchId sequence parentId sum ∧ σ'.store.Signed p sum)
      (fun _ => True) n σ := by
  refine (outcome_insertCheckpoint_signed h.foreign h.harness sequence parentId).mono ?_ fun _ h => h
  rintro r m σ' - ⟨id, p, sum, -, hp, hsum, hr, hsigned⟩
  refine ⟨id, p, sum, ?_, ?_, hr, hsigned⟩
  · rw [hp, Store.epochs, Store.epochs, h.access]
  · rw [hsum, Store.digest, Store.digest, h.access]

/-- Saving a result keeps what is signed. -/
theorem Store.Signed.operation {p : CheckpointPayload} {sum : Digest} {st : OperationStatement}
    {m : Moment} {r : Returned} {σ' : Session} (h : σ.store.Signed p sum)
    (hstep : PgAgmemory.step platform (.operation st) m σ = .ok (r, σ')) : σ'.store.Signed p sum := by
  obtain ⟨o, -, hstore⟩ := Statement.accepted (step_eq_ok.mp hstep).2.1
  exact h.congr (by rw [hstore]; rfl)

/-- **Creating a checkpoint** under a key without a receipt signs the payload of the request. -/
theorem outcome_create_signed {data : CreateCheckpoint} {key : String}
    (hfresh : ∀ row, ¬ σ.Stored platform .checkpoint key row) :
    Outcome platform timeline (Checkpoints.create platform data key)
      (fun r _ σ' => ∃ id sequence p sum,
        p = data.payload id sequence data.expectedHead σ.store.epochs
          ∧ sum = σ.store.digest platform p.text
          ∧ r = .checkpoint id data.runId data.branchId sequence data.expectedHead sum
          ∧ σ'.store.Signed p sum) (fun _ => True) n σ := by
  refine outcome_bind (outcome_readOnly (readOnly_scope _ _) fun _ => trivial) ?_
  rintro - m σ' - rfl
  refine outcome_once (fun row _ _ hstored _ => absurd hstored (hfresh row)) fun m _ _ => ?_
  refine outcome_bind (outcome_ensureRun data) ?_
  rintro - m₁ σ₁ - hready
  refine hready.before (sends_send rfl) fun _ m₂ σ₂ hready₂ => ?_
  refine outcome_read (outcome_found (fun branch _ => ?_) fun _ => trivial)
  refine outcome_demand (fun _ => outcome_demand (fun _ => ?_) fun _ => trivial) fun _ => trivial
  have hinsert : ∀ m, Outcome platform timeline (Checkpoints.insert platform data
      (branch.sequence + 1) data.expectedHead >>= fun result => saveResult .checkpoint
        (σ'.store.digest platform key) (σ'.store.digest platform (compactText data.dump)) result
        >>= fun _ => pure result) (fun r _ σ'' => ∃ id sequence p sum,
          p = data.payload id sequence data.expectedHead σ'.store.epochs
            ∧ sum = σ'.store.digest platform p.text
            ∧ r = .checkpoint id data.runId data.branchId sequence data.expectedHead sum
            ∧ σ''.store.Signed p sum) (fun _ => True) m σ₂ := by
    intro m
    refine outcome_bind (hready₂.insert _ _) ?_
    rintro r m₃ σ₃ - ⟨id, p, sum, hp, hsum, rfl, hsigned⟩
    refine outcome_send (fun _ σ₄ hsaved => outcome_pure ?_) fun _ _ => trivial
    exact ⟨id, branch.sequence + 1, p, sum, hp, hsum, rfl, hsigned.operation hsaved⟩
  split
  next => exact hinsert _
  next parentId _ =>
    refine outcome_bind (outcome_readOnly (readOnly_checkpointLoad platform _ _) fun _ => trivial) ?_
    rintro parent m₃ σ₃ - rfl
    exact outcome_demand (fun _ => hinsert m₃) fun _ => trivial

/-- **Restoring a checkpoint** under a key without a receipt signs the payload of its fork, and answers
with it. -/
theorem outcome_restore_signed {data : RestoreCheckpoint} {key : String}
    (hfresh : ∀ row, ¬ σ.Stored platform .restoreCheckpoint key row) :
    Outcome platform timeline (Checkpoints.restore platform data key)
      (fun e _ σ' => ∃ saved fork id, Loaded σ.store data.checkpointId saved
        ∧ data.fork? saved = some fork
        ∧ e.saved.payload = fork.payload id 1 (some data.checkpointId) σ.store.epochs
        ∧ e.saved.checksum = σ.store.digest platform e.saved.payload.text
        ∧ e.saved.state = fork.state
        ∧ σ'.store.Signed e.saved.payload e.saved.checksum) (fun _ => True) n σ := by
  refine outcome_bind (outcome_checkpointLoad _ _) ?_
  rintro saved m σ' - ⟨rfl, hloaded, -⟩
  refine outcome_once (fun row _ _ hstored _ => absurd hstored (hfresh row)) fun m _ _ => ?_
  refine outcome_demand (fun hcompatible => ?_) fun _ => trivial
  rw [Bool.and_eq_true, decide_eq_true_eq, decide_eq_true_eq] at hcompatible
  -- Without a fork the restore fails, but only after the branch and the fence.
  cases hfork : data.fork? saved with
  | none =>
    refine outcome_any_bind fun _ _ _ => outcome_any_bind fun _ _ _ => outcome_any_bind fun _ _ _ => ?_
    exact outcome_raise trivial
  | some fork =>
    have hharness := hloaded.ofHarness hfork hcompatible.1 hcompatible.2
    refine outcome_sendReturning (fun inserted σ₁ hstep => ?_) fun _ _ => trivial
    have hready₁ : ReadyToInsert σ'.store fork σ₁ := by
      have hquiet : (Statement.checkpoint (.insertBranch saved.payload.scopeId saved.payload.runId
        data.targetBranchId true)).quiet = true := rfl
      exact ⟨hharness.step hquiet hstep, (step_grown hquiet hstep).access, (step_eq_ok.mp hstep).2.2.1.1⟩
    refine outcome_demand (fun _ => ?_) fun _ => trivial
    have hfence : Sends BuildsNothing
        (ToolEffects.fenceRestore saved.payload.scopeId saved.payload.runId) := by
      refine (readOnly_listRun _ _).sends.bind fun effects => sends_forEach fun effect _ => ?_
      split
      · exact (buildsNothing_append _).bind fun _ => trivial
      · trivial
    refine hready₁.before (hfence.mono fun _ hst => hst.1) fun _ m₂ σ₂ hready₂ => ?_
    refine outcome_bind (hready₂.insert 1 (some data.checkpointId)) ?_
    rintro r m₃ σ₃ - ⟨id, p, sum, hp, hsum, rfl, hsigned⟩
    refine outcome_send (fun _ σ₄ hsaved => ?_) fun _ _ => trivial
    refine outcome_found (fun id' hid => ?_) fun _ => trivial
    obtain rfl : id = id' := Option.some.inj hid
    refine outcome_send (fun _ σ₅ haudit => ?_) fun _ _ => trivial
    have hsigned₅ := (hsigned.operation hsaved).operation haudit
    have hid : p.checkpointId = id := by
      rw [hp]
      rfl
    rw [← hid]
    refine outcome_bind (outcome_checkpointLoad_signed hsigned₅ .read) ?_
    rintro answered m₆ σ₆ - ⟨rfl, rfl, rfl, hstate⟩
    refine outcome_read (outcome_read (outcome_pure ?_))
    refine ⟨saved, fork, id, hloaded, hfork, hp, hsum, ?_, hsigned₅⟩
    rw [hp] at hstate
    exact Option.some.inj (hstate.symm.trans (CheckpointState.validate_dump fork.state))

end Operations

end PgAgmemory

import PgAgmemory.Guarantees.Restores
import PgAgmemory.History.Checkpoints
import PgAgmemory.History.Loads
import PgAgmemory.History.Retained
import PgAgmemory.History.Steady
import PgAgmemory.Operations.Payloads
import PgAgmemory.System.Calls

/-! # Checkpoints are read back as they were signed

Whatever `create` and `restore` have signed in an orderly run, every later read of the checkpoint gives
back as long as it is not purged (`checkpoints_roundTrip`). Whatever has been done to the rows meanwhile,
a read under the checksum that was given out answers what was signed, or it answers another text with the
same digest (`altered_checkpoints_collide`). -/

namespace PgAgmemory

open Keyed (HasKey Table key)
open Interactive (Program)
open MemoryService

/-! ## Loads that do not fail -/

section Loads

variable {platform : Platform} {timeline : Timeline} {n : Nat} {σ : Session} {p : CheckpointPayload}
  {sum : Digest} {v : View}

/-- The references of a checkpoint in a readable scope: all of them. -/
theorem View.refsOf_readable (hgrounded : Grounded v.store) {c : CheckpointRow}
    (hc : c ∈ v.store.checkpointing.checkpoints) (hread : v.permitted c.scopeId .read = true) :
    v.refsOf c.id = v.store.checkpointing.refsOf c.id := by
  have hrows : v.referencesOf c.id
      = v.store.checkpointing.references.rows.filter (·.checkpointId = c.id) := by
    rw [View.referencesOf, View.checkpointReferences, List.filter_filter]
    refine List.filter_congr fun r hr => ?_
    rw [Bool.eq_iff_iff, Bool.and_eq_true, Bool.and_eq_true, decide_eq_true_eq, and_iff_left_iff_imp]
    intro hid
    -- a reference lies in the scope of its checkpoint, as does what it names
    have hscope : r.scopeId = c.scopeId :=
      (hgrounded.referenceCheckpoint hr).anchored.unique (hid ▸ (hgrounded.checkpoint hc).anchored)
    have hmarked := hgrounded.foreign.marked
    exact ⟨((hgrounded.referenceCheckpoint hr).visible hmarked rfl).mpr (hscope ▸ hread),
      ((hgrounded.referenceSource hr).visible hmarked rfl).mpr (hscope ▸ hread)⟩
  rw [View.refsOf, Checkpointing.refsOf, hrows]

/-- **A signed checkpoint in a held scope** is loaded: its run is not sealed, its references are
complete, and its checksum is the one of its payload. -/
theorem outcome_checkpointLoad_holds (hgrounded : Grounded σ.store) (hsealed : AllSealed σ.store)
    (h : σ.store.Signed p sum) (hsum : sum = σ.store.digest platform p.text)
    (hstate : (CheckpointState.validate p.state).isSome = true)
    (hread : Holds timeline σ p.scopeId .read) :
    Outcome platform timeline (Checkpoints.load platform p.checkpointId .read) (fun _ _ _ => True)
      (fun _ => False) n σ := by
  obtain ⟨c, hc, run, hrun, hkey, hchecksum, hcount, rfl⟩ := h
  have hread : Holds timeline σ c.scopeId .read := hread
  change Outcome platform timeline (Checkpoints.load platform c.id .read) _ _ _ _
  refine outcome_bind ((outcome_object_holds hgrounded
    (hgrounded.foreign.checkpoint.checkpoint_object.exists_parent hc rfl) (hgrounded.checkpoint hc).free
    hread hread).mono (fun _ _ _ _ h => h) fun _ h => h) ?_
  rintro o m σ' - ⟨rfl, -, hkind⟩
  refine outcome_demand (fun _ => outcome_read ?_) fun hfail => by simp [hkind] at hfail
  have hfound : (σ'.view (timeline.moment m)).checkpointRun? c.id = some (c, run) := by
    have hcheckpoint : (σ'.view (timeline.moment m)).checkpoint? c.id = some c :=
      Option.filter_eq_some_iff.mpr ⟨Table.find?_eq_some_iff.mpr ⟨hc, rfl⟩,
        ((hgrounded.checkpoint hc).visible (v := σ'.view (timeline.moment m))
          hgrounded.foreign.marked rfl).mpr (hread m)⟩
    rw [View.checkpointRun?, hcheckpoint, Option.bind_some,
      View.run?_eq_some.mpr ⟨hrun, hkey, hread m⟩, Option.map_some]
  have hactive : run.effectsInvalidated = false := by
    refine Bool.eq_false_iff.mpr fun hinvalidated => ?_
    exact (hsealed run hrun hinvalidated).noCheckpoint c hc hkey.symm
  have hrow : (((σ'.view (timeline.moment m)).checkpointRun? c.id).filter
      fun cr => !cr.2.effectsInvalidated) = some (c, run) := by
    rw [hfound]
    exact Option.filter_some_pos (by rw [hactive]; rfl)
  refine outcome_found (fun cr hcr => ?_) fun hnone => ?_
  swap
  · exact absurd (hrow.symm.trans hnone) (Option.some_ne_none _)
  obtain rfl : (c, run) = cr := Option.some.inj (hrow.symm.trans hcr)
  have hrefs : (σ'.view (timeline.moment (m + 1))).refsOf c.id
      = σ'.store.checkpointing.refsOf c.id :=
    View.refsOf_readable (v := σ'.view (timeline.moment (m + 1))) hgrounded hc (hread (m + 1))
  refine outcome_read (outcome_demand (fun _ => ?_) fun hfail => ?_)
  swap
  · exact absurd ((congrArg List.length hrefs).trans hcount.symm) (of_decide_eq_false hfail)
  refine outcome_digest (outcome_demand (fun _ => outcome_found (fun _ _ => outcome_pure trivial)
    fun hnone => ?_) fun hfail => ?_)
  · have hnone : CheckpointState.validate c.state = none := hnone
    have hstate : (CheckpointState.validate c.state).isSome = true := hstate
    rw [hnone] at hstate
    cases hstate
  · rw [hrefs] at hfail
    exact absurd (hchecksum.trans hsum) (of_decide_eq_false hfail)

/-- **The envelope of a signed checkpoint in a held scope** has what was signed. -/
theorem outcome_envelope_holds (hgrounded : Grounded σ.store) (hsealed : AllSealed σ.store)
    (h : σ.store.Signed p sum) (hsum : sum = σ.store.digest platform p.text) {state : CheckpointState}
    (hstate : CheckpointState.validate p.state = some state)
    (hread : Holds timeline σ p.scopeId .read) :
    Outcome platform timeline (Checkpoints.envelope platform p.checkpointId)
      (fun e _ _ => e.saved = ⟨p, sum, state⟩) (fun _ => False) n σ := by
  have hvalid : (CheckpointState.validate p.state).isSome = true := by
    rw [hstate]
    rfl
  refine outcome_bind ((outcome_checkpointLoad_signed h .read).faults
    (outcome_checkpointLoad_holds hgrounded hsealed h hsum hvalid hread)) ?_
  rintro ⟨p', sum', state'⟩ m σ' - ⟨rfl, rfl, rfl, hstate'⟩
  obtain rfl : state = state' := Option.some.inj (hstate.symm.trans hstate')
  exact outcome_read (outcome_read (outcome_pure rfl))

end Loads

/-! ## Reading back -/

/-- **A saved checkpoint is read back**: whoever can read its scope gets it in an envelope. -/
def ReadsBack (platform : Platform) (s : Store) (saved : SavedCheckpoint) : Prop :=
  ∀ timeline principal, (s.access.principals.find? principal).isSome = true →
    Holds timeline (.start principal s) saved.payload.scopeId .read →
    ∃ e, (Call.exec platform ⟨principal, timeline, .checkpoint saved.payload.checkpointId⟩ s).1
      = .ok (.envelope e) ∧ e.saved = saved

/-- **Read back for good**: in every later store of an orderly run that has not purged the checkpoint. -/
def ReadsBackLater (platform : Platform) (s : Store) (saved : SavedCheckpoint) : Prop :=
  ∀ events, LastingRun platform events s →
    Untombstoned (runEvents platform events s) saved.payload.checkpointId →
    ReadsBack platform (runEvents platform events s) saved

section RoundTrip

variable {platform : Platform} {s : Store}

/-- The secret of a tenant never changes over a run. -/
theorem Reachable.secret (hs : Reachable platform s) (events : List Event) :
    (runEvents platform events s).access.dedupSecret = s.access.dedupSecret :=
  (hs.retains events).secret

/-- **What is signed is read back.** -/
theorem Orderly.readsBack (hs : Orderly platform s) {p : CheckpointPayload} {sum : Digest}
    {state : CheckpointState} (h : s.Signed p sum) (hsum : sum = s.digest platform p.text)
    (hstate : CheckpointState.validate p.state = some state) :
    ReadsBack platform s ⟨p, sum, state⟩ := by
  intro timeline principal hknown hread
  have hget : Outcome platform timeline (Checkpoints.envelope platform p.checkpointId)
      (fun e _ _ => e.saved = ⟨p, sum, state⟩) (fun _ => False) 1 (.start principal s) :=
    outcome_envelope_holds hs.reachable.sound.grounded hs.allSealed h hsum hstate hread
  rcases Call.exec_reading (c := ⟨principal, timeline, .checkpoint p.checkpointId⟩)
    (readOnly_envelope platform p.checkpointId) rfl hs.reachable.integrity.deferred hknown hget with
      ⟨e, hok, hsaved⟩ | ⟨-, -, hfalse⟩
  · exact ⟨e, hok, hsaved⟩
  · exact hfalse.elim

/-- **What is signed is read back for good.** -/
theorem Orderly.readsBackLater (hs : Orderly platform s) {p : CheckpointPayload} {sum : Digest}
    {state : CheckpointState} (h : s.Signed p sum) (hsum : sum = s.digest platform p.text)
    (hstate : CheckpointState.validate p.state = some state) :
    ReadsBackLater platform s ⟨p, sum, state⟩ := by
  intro events hlasting hkept
  have hlater := hs.run hlasting
  rcases hs.signed_or_gone h hlasting with hsigned | hgone
  · refine hlater.readsBack hsigned ?_ hstate
    rw [hsum, Store.digest, Store.digest, hs.reachable.secret events]
  · -- an object of a checkpoint without its row is marked
    exfalso
    obtain ⟨k, hk, hid, -⟩ := h.row
    obtain ⟨o, ho, hkey⟩ :=
      hs.reachable.integrity.foreign.checkpoint.checkpoint_object.exists_parent hk rfl
    obtain ⟨hoid, hrest⟩ := Prod.mk.inj hkey
    have hobject : o ∈ (runEvents platform events s).anchor.objects :=
      (hs.reachable.sound.steady_run events).objects o ho
    have hrow := (hlater.intact p.checkpointId).row o hobject (hoid.trans hid) hkept
    rw [(Prod.mk.inj hrest).2] at hrow
    obtain ⟨k', hk', hid'⟩ := hrow
    exact hgone k' hk' hid'

/-- **An answered `create`** without a stored receipt has signed the payload of its request. -/
theorem Call.create_signed {principal : UUID} {timeline : Timeline} {data : CreateCheckpoint}
    {key : String} {r : Receipt}
    (h : (Call.exec platform ⟨principal, timeline, .createCheckpoint data key⟩ s).1 = .ok (.receipt r))
    (hfresh : ∀ row, ¬ (Session.start principal s).Stored platform .checkpoint key row) :
    ∃ id sequence p, p = data.payload id sequence data.expectedHead s.epochs
      ∧ r = .checkpoint id data.runId data.branchId sequence data.expectedHead
        (s.digest platform p.text)
      ∧ (Call.exec platform ⟨principal, timeline, .createCheckpoint data key⟩ s).2.Signed p
        (s.digest platform p.text) := by
  have hprogram : Outcome platform timeline ((Request.createCheckpoint data key).program platform)
      (fun response _ σ' => ∃ r, response = .receipt r ∧ ∃ id sequence p sum,
        p = data.payload id sequence data.expectedHead s.epochs ∧ sum = s.digest platform p.text
          ∧ r = .checkpoint id data.runId data.branchId sequence data.expectedHead sum
          ∧ σ'.store.Signed p sum) (fun _ => True) 0 (.start principal s) := by
    refine outcome_bind (outcome_readOnly readOnly_bindIdentity fun _ => trivial) ?_
    rintro - m σ' - rfl
    refine outcome_bind (outcome_create_signed hfresh) ?_
    rintro r m' σ' - hcreated
    exact outcome_pure ⟨r, rfl, hcreated⟩
  obtain ⟨-, σ, ⟨r', hr', id, sequence, p, sum, hp, rfl, rfl, hsigned⟩, hstore⟩ :=
    Call.exec_returns (c := ⟨principal, timeline, .createCheckpoint data key⟩) h hprogram
  cases hr'
  exact ⟨id, sequence, p, hp, rfl, hstore ▸ hsigned⟩

/-- **An answered `restore`** without a stored receipt has signed the payload of its fork. -/
theorem Call.restore_signed {principal : UUID} {timeline : Timeline} {data : RestoreCheckpoint}
    {key : String} {e : Envelope}
    (h : (Call.exec platform ⟨principal, timeline, .restoreCheckpoint data key⟩ s).1
      = .ok (.envelope e))
    (hfresh : ∀ row, ¬ (Session.start principal s).Stored platform .restoreCheckpoint key row) :
    ∃ saved fork id p, Loaded s data.checkpointId saved ∧ data.fork? saved = some fork
      ∧ p = fork.payload id 1 (some data.checkpointId) s.epochs
      ∧ e.saved = ⟨p, s.digest platform p.text, fork.state⟩
      ∧ (Call.exec platform ⟨principal, timeline, .restoreCheckpoint data key⟩ s).2.Signed p
        (s.digest platform p.text) := by
  have hprogram : Outcome platform timeline ((Request.restoreCheckpoint data key).program platform)
      (fun response _ σ' => ∃ e, response = .envelope e ∧ ∃ saved fork id,
        Loaded s data.checkpointId saved ∧ data.fork? saved = some fork
          ∧ e.saved.payload = fork.payload id 1 (some data.checkpointId) s.epochs
          ∧ e.saved.checksum = s.digest platform e.saved.payload.text
          ∧ e.saved.state = fork.state ∧ σ'.store.Signed e.saved.payload e.saved.checksum)
      (fun _ => True) 0 (.start principal s) := by
    refine outcome_bind (outcome_readOnly readOnly_bindIdentity fun _ => trivial) ?_
    rintro - m σ' - rfl
    refine outcome_bind (outcome_restore_signed hfresh) ?_
    rintro e m' σ' - hrestored
    exact outcome_pure ⟨e, rfl, hrestored⟩
  obtain ⟨-, σ, ⟨e', he', saved, fork, id, hloaded, hfork, hp, hsum, hstate, hsigned⟩, hstore⟩ :=
    Call.exec_returns (c := ⟨principal, timeline, .restoreCheckpoint data key⟩) h hprogram
  cases he'
  rw [hsum, hp] at hsigned
  refine ⟨saved, fork, id, _, hloaded, hfork, rfl, ?_, hstore ▸ hsigned⟩
  rw [← hp, ← hsum, ← hstate]

/-- A call keeps the digests of its tenant. -/
theorem Reachable.digest_exec (hs : Reachable platform s) (c : Call) (text : String) :
    (c.exec platform s).2.digest platform text = s.digest platform text := by
  have hsecret : (c.exec platform s).2.access.dedupSecret = s.access.dedupSecret :=
    hs.sound.secret (.call c)
  rw [Store.digest, Store.digest, hsecret]

/-- **Checkpoints are read back as they were signed**: a `create` without a stored receipt signs the
payload of its request and gives out the checksum, a `restore` without one signs the payload of its fork
and answers with it; and in every later store of an orderly run whoever can read the scope gets back
exactly that, until the checkpoint is purged. -/
theorem checkpoints_roundTrip (hs : Orderly platform s) (principal : UUID) (timeline : Timeline)
    (key : String) :
    (∀ (data : CreateCheckpoint) r,
      (Call.exec platform ⟨principal, timeline, .createCheckpoint data key⟩ s).1 = .ok (.receipt r) →
      (∀ row, ¬ (Session.start principal s).Stored platform .checkpoint key row) →
      ∃ id sequence p, p = data.payload id sequence data.expectedHead s.epochs
        ∧ r = .checkpoint id data.runId data.branchId sequence data.expectedHead
          (s.digest platform p.text)
        ∧ ReadsBackLater platform
          (Call.exec platform ⟨principal, timeline, .createCheckpoint data key⟩ s).2
          ⟨p, s.digest platform p.text, data.state⟩)
    ∧ ∀ (data : RestoreCheckpoint) e,
      (Call.exec platform ⟨principal, timeline, .restoreCheckpoint data key⟩ s).1 = .ok (.envelope e) →
      (∀ row, ¬ (Session.start principal s).Stored platform .restoreCheckpoint key row) →
      ∃ saved fork id p, Loaded s data.checkpointId saved ∧ data.fork? saved = some fork
        ∧ p = fork.payload id 1 (some data.checkpointId) s.epochs
        ∧ e.saved = ⟨p, s.digest platform p.text, fork.state⟩
        ∧ ReadsBackLater platform
          (Call.exec platform ⟨principal, timeline, .restoreCheckpoint data key⟩ s).2 e.saved := by
  refine ⟨fun data r h hfresh => ?_, fun data e h hfresh => ?_⟩
  · obtain ⟨id, sequence, p, hp, hr, hsigned⟩ := Call.create_signed h hfresh
    have hnext : Orderly platform
        (Call.exec platform ⟨principal, timeline, .createCheckpoint data key⟩ s).2 :=
      .event (.call ⟨principal, timeline, .createCheckpoint data key⟩) hs trivial
    refine ⟨id, sequence, p, hp, hr, hnext.readsBackLater hsigned
      (hs.reachable.digest_exec _ _).symm ?_⟩
    rw [hp]
    exact CheckpointState.validate_dump data.state
  · obtain ⟨saved, fork, id, p, hloaded, hfork, hp, hsaved, hsigned⟩ := Call.restore_signed h hfresh
    have hnext : Orderly platform
        (Call.exec platform ⟨principal, timeline, .restoreCheckpoint data key⟩ s).2 :=
      .event (.call ⟨principal, timeline, .restoreCheckpoint data key⟩) hs trivial
    refine ⟨saved, fork, id, p, hloaded, hfork, hp, hsaved, ?_⟩
    rw [hsaved]
    refine hnext.readsBackLater hsigned (hs.reachable.digest_exec _ _).symm ?_
    rw [hp]
    exact CheckpointState.validate_dump fork.state

end RoundTrip

/-! ## Altered rows -/

section Altered

variable {platform : Platform} {timeline : Timeline} {n : Nat} {σ : Session}

/-- **What a saved checkpoint testifies**: its checksum is the digest of its payload, whose state it has
validated. -/
def Store.Testifies (platform : Platform) (s : Store) (saved : SavedCheckpoint) : Prop :=
  saved.checksum = s.digest platform saved.payload.text
    ∧ CheckpointState.validate saved.payload.state = some saved.state

/-- Whatever is loaded, from whatever rows, testifies. -/
theorem outcome_checkpointLoad_testifies (id : UUID) (permission : Permission) :
    Outcome platform timeline (Checkpoints.load platform id permission)
      (fun saved _ σ' => σ' = σ ∧ σ.store.Testifies platform saved) (fun _ => True) n σ := by
  refine outcome_bind (outcome_readOnly (readOnly_object _ _) fun _ => trivial) ?_
  rintro o m σ' - rfl
  refine outcome_demand (fun _ => outcome_read (outcome_found ?_ fun _ => trivial)) fun _ => trivial
  rintro ⟨c, run⟩ -
  refine outcome_read (outcome_demand (fun _ => outcome_digest ?_) fun _ => trivial)
  refine outcome_demand (fun hsum => outcome_found (fun state hstate => ?_) fun _ => trivial)
    fun _ => trivial
  exact outcome_pure ⟨rfl, of_decide_eq_true hsum, hstate⟩

/-- The envelope of whatever is stored testifies. -/
theorem outcome_envelope_testifies (id : UUID) :
    Outcome platform timeline (Checkpoints.envelope platform id)
      (fun e _ σ' => σ' = σ ∧ σ.store.Testifies platform e.saved) (fun _ => True) n σ := by
  refine outcome_bind (outcome_checkpointLoad_testifies id .read) ?_
  rintro saved m σ' - ⟨rfl, htestifies⟩
  exact outcome_read (outcome_read (outcome_pure ⟨rfl, htestifies⟩))

/-- **Altered checkpoints collide**: in any store whatever, when a read of a checkpoint or of a head
answers under the checksum that was given out for a payload, it answers that payload, with its state, or
the text that it answers is another one with the same digest. -/
theorem altered_checkpoints_collide {s : Store} {c : Call} {e : Envelope}
    (hreads : (∃ id, c.request = .checkpoint id) ∨ ∃ data, c.request = .checkpointHead data)
    (h : (c.exec platform s).1 = .ok (.envelope e)) {p : CheckpointPayload}
    (hsum : e.saved.checksum = s.digest platform p.text) :
    (e.saved.payload.Agrees p ∧ CheckpointState.validate p.state = some e.saved.state)
      ∨ (e.saved.payload.text ≠ p.text
        ∧ s.digest platform e.saved.payload.text = s.digest platform p.text) := by
  obtain ⟨principal, timeline, request⟩ := c
  have htestifies : s.Testifies platform e.saved := by
    have hprogram : Outcome platform timeline (request.program platform)
        (fun response _ _ => ∀ e, response = .envelope e → s.Testifies platform e.saved)
        (fun _ => True) 0 (.start principal s) := by
      refine outcome_bind (outcome_readOnly readOnly_bindIdentity fun _ => trivial) ?_
      rintro - m σ' - rfl
      rcases hreads with ⟨id, rfl⟩ | ⟨data, rfl⟩
      · refine outcome_bind (outcome_envelope_testifies id) ?_
        rintro e m' σ' - ⟨-, htestifies⟩
        exact outcome_pure fun e' he => by cases he; exact htestifies
      · refine outcome_bind (P := fun e _ _ => s.Testifies platform e.saved) ?_ ?_
        · refine outcome_bind (outcome_readOnly (readOnly_scope _ _) fun _ => trivial) ?_
          rintro - m₁ σ₁ - rfl
          refine outcome_read (outcome_found (fun branch _ => ?_) fun _ => trivial)
          refine outcome_demand (fun _ => outcome_found (fun headId _ => ?_) fun _ => trivial)
            fun _ => trivial
          refine outcome_bind (outcome_envelope_testifies headId) ?_
          rintro e m₂ σ₂ - ⟨-, htestifies⟩
          exact outcome_demand (fun _ => outcome_pure htestifies) fun _ => trivial
        · rintro e m' σ' - htestifies
          exact outcome_pure fun e' he => by cases he; exact htestifies
    obtain ⟨m, σ, hresponse, -⟩ := Call.exec_returns (c := ⟨principal, timeline, request⟩) h hprogram
    exact hresponse e rfl
  obtain ⟨hchecksum, hstate⟩ := htestifies
  by_cases hsame : e.saved.payload.text = p.text
  · have hagrees := CheckpointPayload.text_inj hsame
    refine Or.inl ⟨hagrees, ?_⟩
    rw [← CheckpointState.validate_sortKeys, ← hagrees.state, CheckpointState.validate_sortKeys]
    exact hstate
  · exact Or.inr ⟨hsame, hchecksum.symm.trans hsum⟩

end Altered

/-! ## A small tenant -/

/-- The receipt of a response. -/
def Response.receipt? : Response → Option Receipt
  | .receipt result => some result
  | _ => none

/-- A response with a receipt is the receipt. -/
theorem Response.receipt?_eq_some {answer : Except Fault Response} {r : Receipt}
    (h : answer.toOption.bind Response.receipt? = some r) : answer = .ok (.receipt r) := by
  obtain ⟨response, hresponse, hr⟩ := Option.bind_eq_some_iff.mp h
  cases answer with
  | error fault => cases hresponse
  | ok response' =>
    cases hresponse
    cases response <;> cases hr
    rfl

/-- The first checkpoint of the small tenant. -/
def Call.checkpointing : Call := ⟨1, .ticking 200 300, .createCheckpoint .brief "key"⟩

/-- The small tenant with a dispatched effect comes from an orderly run. -/
theorem orderly_dispatched : Orderly .blind (.dispatched none) :=
  (Orderly.provisioned _).run ⟨trivial, trivial, trivial, trivial⟩

set_option maxRecDepth 10000 in
/-- The rule at the small tenant: its first checkpoint is read back, and so is the one that it is
restored to while an effect of its run is dispatched. -/
theorem checkpoints_roundTrip_small :
    (∃ id sequence p, (Call.checkpointing.exec .blind (.provisioned (.sole 1 2 none))).1
        = .ok (.receipt (.checkpoint id 3 4 sequence none (.ofNat 0)))
      ∧ ReadsBackLater .blind (Call.checkpointing.exec .blind (.provisioned (.sole 1 2 none))).2
        ⟨p, .ofNat 0, CreateCheckpoint.brief.state⟩)
    ∧ ∃ e, (Call.restoring.exec .blind (.dispatched none)).1 = .ok (.envelope e)
      ∧ e.saved.payload.parentCheckpoint = some 310 ∧ e.saved.payload.branchId = 6
      ∧ ReadsBackLater .blind (Call.restoring.exec .blind (.dispatched none)).2 e.saved := by
  constructor
  · have hsome : ((Call.checkpointing.exec .blind (.provisioned (.sole 1 2 none))).1.toOption.bind
        Response.receipt?).isSome = true := by decide +kernel
    obtain ⟨r, hr⟩ := Option.isSome_iff_exists.mp hsome
    have hok := Response.receipt?_eq_some hr
    have hfresh : ∀ row, ¬ (Session.start 1 (.provisioned (.sole 1 2 none))).Stored .blind .checkpoint
        "key" row := fun row hrow => absurd hrow.1 (Table.not_mem_empty row)
    obtain ⟨id, sequence, p, -, hreceipt, hreads⟩ :=
      (checkpoints_roundTrip (.provisioned (.sole 1 2 none)) 1 (.ticking 200 300) "key").1
        CreateCheckpoint.brief r hok hfresh
    rw [hreceipt] at hok
    exact ⟨id, sequence, p, hok, hreads⟩
  · obtain ⟨e, he, hplace⟩ := Call.exists_envelope .blind .restoring (.dispatched none)
      (p := fun e => decide (e.saved.payload.parentCheckpoint = some 310)
        && decide (e.saved.payload.branchId = 6)) (by decide +kernel)
    have hfresh : ∀ row ∈ (Store.dispatched none).operations.receipts.rows,
        row.operation ≠ .restoreCheckpoint := by decide +kernel
    obtain ⟨_, _, _, _, -, -, -, -, hreads⟩ :=
      (checkpoints_roundTrip orderly_dispatched 1 (.ticking 800 900) "key").2 _ e he
        fun row hrow => hfresh row (Table.mem_rows.mpr hrow.1)
          (Prod.mk.inj (Prod.mk.inj hrow.2).2).1
    rw [Bool.and_eq_true, decide_eq_true_eq, decide_eq_true_eq] at hplace
    exact ⟨e, he, hplace.1, hplace.2, hreads⟩

/-- The small tenant with a checkpoint comes from an orderly run. -/
theorem orderly_checkpointed : Orderly .plain .checkpointed :=
  .event (.call .checkpointing)
    (.event (.call ⟨1, .ticking 0 100, .observe (.brief 2) "key"⟩) (.provisioned _) trivial) trivial

set_option maxRecDepth 10000 in
/-- The rule of altered rows at the small tenant, on a platform that tells texts apart. -/
theorem altered_checkpoints_collide_small :
    ∃ id e p, (Call.exec .plain ⟨1, .ticking 800 600, .checkpoint id⟩ .checkpointed).1
        = .ok (.envelope e)
      ∧ e.saved.checksum = Store.checkpointed.digest .plain p.text
      ∧ ((e.saved.payload.Agrees p ∧ CheckpointState.validate p.state = some e.saved.state)
        ∨ (e.saved.payload.text ≠ p.text ∧ Store.checkpointed.digest .plain e.saved.payload.text
          = Store.checkpointed.digest .plain p.text))
      ∧ Store.checkpointed.digest .plain "x" ≠ Store.checkpointed.digest .plain "y" := by
  have hsome : ((Call.checkpointing.exec .plain (.observed none)).1.toOption.bind
      Response.receipt?).isSome = true := by decide +kernel
  obtain ⟨r, hr⟩ := Option.isSome_iff_exists.mp hsome
  have hnone : ∀ row ∈ (Store.observed none).operations.receipts.rows, row.operation ≠ .checkpoint := by
    decide +kernel
  obtain ⟨id, sequence, p, hp, -, hsigned⟩ := Call.create_signed (Response.receipt?_eq_some hr)
    fun row hrow => hnone row (Table.mem_rows.mpr hrow.1) (Prod.mk.inj (Prod.mk.inj hrow.2).2).1
  have hdigest := (reachable_observed none).digest_exec .checkpointing p.text
  have hstate : CheckpointState.validate p.state = some CreateCheckpoint.brief.state := by
    rw [hp]
    exact CheckpointState.validate_dump _
  have hscope : p.scopeId = 2 := by
    rw [hp]
    rfl
  obtain ⟨e, he, hsaved⟩ := orderly_checkpointed.readsBack (p := p) hsigned hdigest.symm hstate
    (.ticking 800 600) 1 (by decide +kernel) (hscope ▸ holds_of_lasting (by decide +kernel))
  have hsum : e.saved.checksum = Store.checkpointed.digest .plain p.text := by
    rw [hsaved]
    exact hdigest.symm
  exact ⟨p.checkpointId, e, p, he, hsum, altered_checkpoints_collide (Or.inl ⟨_, rfl⟩) he hsum,
    by decide +kernel⟩

end PgAgmemory

import PgAgmemory.History.Effects
import PgAgmemory.History.Lineage
import PgAgmemory.Operations.Saves
import Mathlib.Data.Set.Card

/-! # The lifetime of a run

The effects that a run ever has (`everPlanned`): while none of them is purged all of them are counted
by the cap, and once one is purged the run is sealed and gets no more. The receipts of `create` name
checkpoints of the run of their request (`CreateReceipts`), so a sealed run gets none of them back. -/

namespace PgAgmemory

open Keyed (HasKey Table key)
open Interactive (Program)
open Interactive.Program (ReadOnly Sends)
open MemoryService

/-! ## The effects that a run ever has -/

/-- The ids of the effects of a run. -/
def Store.effectIds (s : Store) (scope run : UUID) : Set UUID :=
  {id | ∃ e ∈ s.ledger.effects, e.Of scope run ∧ e.id = id}

/-- **The effects that a run ever has** while events happen. -/
def everPlanned (platform : Platform) (s : Store) (events : List Event) (scope run : UUID) : Set UUID :=
  {id | ∃ k, id ∈ (runEvents platform (events.take k) s).effectIds scope run}

/-- A capped run has a hundred effects at most. -/
theorem Ledger.Capped.encard_le {s : Store} (h : s.ledger.Capped) (scope run : UUID) :
    (s.effectIds scope run).encard ≤ 100 := by
  have hset : s.effectIds scope run = (((s.ledger.effects.rows.filter (·.Of scope run)).map
      ToolEffectRow.id).toFinset : Set UUID) := by
    ext id
    simp only [Store.effectIds, Set.mem_ofPred_eq, List.coe_toFinset, List.mem_map, List.mem_filter,
      decide_eq_true_eq, Table.mem_rows, and_assoc]
  rw [hset, Set.encard_coe_eq_coe_finsetCard]
  refine Nat.cast_le.mpr ((List.toFinset_card_le _).trans ?_)
  rw [List.length_map, ← List.countP_eq_length_filter]
  exact h scope run

section Lifetime

variable {platform : Platform} {s s' : Store} {scope run : UUID}

/-- No effect is lost, or none is new and the runs of the lost ones are sealed. -/
def GrownOrSealed (s s' : Store) : Prop :=
  s.ledger.Advanced s'.ledger ∨ ((∀ e ∈ s'.ledger.effects, e ∈ s.ledger.effects)
    ∧ ∀ e ∈ s.ledger.effects, e ∉ s'.ledger.effects → Sealed s' e.scopeId e.runId)

/-- **What an event does to the effects.** -/
theorem Sound.grownOrSealed (hs : Sound s) (event : Event) :
    GrownOrSealed s (event.exec platform s) := by
  refine Sound.transition (T := fun s s' => s.ledger.Advanced s'.ledger) (R := GrownOrSealed)
    (fun s => .refl _) ?_ (fun _ _ h => Or.inl h) ?_ (fun s _ => Or.inl (.refl _)) hs event
  · intro c st m σ r σ' _ _ _ _ hadvanced hallow hstep
    have haccepted := st.accepted (step_eq_ok.mp hstep).2.1
    rcases haccepted.ledger_cases hallow.quiet with hsame | ⟨st', -, hledger⟩
    · rw [hsame]
      exact hadvanced
    · exact hadvanced.trans hledger.advanced
  · intro s s' gone hs hp
    refine Or.inr ⟨fun e he => ?_, fun e he hnot => ?_⟩
    · rw [hp.ledger] at he
      exact (Table.mem_delete.mp he).1
    · refine hp.seals hs.integrity.foreign.ledger he ?_
      by_contra hkept
      rw [Bool.not_eq_true] at hkept
      exact hnot (hp.ledger ▸ Table.mem_delete.mpr ⟨he, hkept⟩)

theorem Ledger.Advanced.effectIds (h : s.ledger.Advanced s'.ledger) :
    s.effectIds scope run ⊆ s'.effectIds scope run := by
  rintro id ⟨e, he, hof, hid⟩
  obtain ⟨n, hn⟩ := h.effects e he
  exact ⟨_, hn, hof, hid⟩

theorem Ledger.Ceased.effectIds (h : s.ledger.Ceased s'.ledger scope run) :
    s'.effectIds scope run ⊆ s.effectIds scope run := by
  rintro id ⟨e, he, hof, hid⟩
  obtain ⟨n, hn⟩ := h.effects e he hof
  exact ⟨_, hn, hof, hid⟩

@[simp] theorem everPlanned_nil : everPlanned platform s [] scope run = s.effectIds scope run := by
  ext id
  simp [everPlanned]

/-- One more event. -/
theorem everPlanned_concat (events : List Event) (e : Event) :
    everPlanned platform s (events ++ [e]) scope run
      = everPlanned platform s events scope run
        ∪ (e.exec platform (runEvents platform events s)).effectIds scope run := by
  have hlast : runEvents platform (events ++ [e]) s = e.exec platform (runEvents platform events s) :=
    runEvents_append platform events [e] s
  ext id
  constructor
  · rintro ⟨k, hk⟩
    rcases Nat.lt_or_ge events.length k with hlater | hle
    · rw [List.take_of_length_le (by rw [List.length_append]; exact hlater), hlast] at hk
      exact Or.inr hk
    · rw [List.take_append_of_le_length hle] at hk
      exact Or.inl ⟨k, hk⟩
  · rintro (⟨k, hk⟩ | hlater)
    · refine ⟨min k events.length, ?_⟩
      rw [List.take_append_of_le_length (Nat.min_le_right k _), ← List.take_take,
        List.take_length]
      exact hk
    · refine ⟨events.length + 1, ?_⟩
      rw [List.take_of_length_le (by simp), hlast]
      exact hlater

/-- **The lifetime of a run**: it has ever had a hundred effects at most; until it is sealed it has all
of them still. -/
theorem Reachable.lifetime (hs : Reachable platform s) (events : List Event) :
    (everPlanned platform s events scope run).encard ≤ 100
      ∧ (Sealed (runEvents platform events s) scope run
        ∨ everPlanned platform s events scope run
          ⊆ (runEvents platform events s).effectIds scope run) := by
  induction events using List.reverseRecOn with
  | nil =>
    rw [everPlanned_nil]
    exact ⟨hs.capped.encard_le scope run, Or.inr subset_rfl⟩
  | append_singleton events e ih =>
    have hbefore := hs.run events
    have hafter : Reachable platform (e.exec platform (runEvents platform events s)) :=
      .event e hbefore
    have hnow : (runEvents platform events s).effectIds scope run
        ⊆ everPlanned platform s events scope run := fun id hid => ⟨events.length, by
      rwa [List.take_length]⟩
    rw [everPlanned_concat, runEvents_append, runEvents_cons, runEvents_nil]
    obtain ⟨hcount, hsealed | hall⟩ := ih
    · -- a sealed run gets no more
      obtain ⟨hstill, hceased⟩ : Sealed (e.exec platform (runEvents platform events s)) scope run
          ∧ (runEvents platform events s).ledger.Ceased
            (e.exec platform (runEvents platform events s)).ledger scope run :=
        hbefore.sound.sealed hsealed e
      rw [Set.union_eq_self_of_subset_right (hceased.effectIds.trans hnow)]
      exact ⟨hcount, Or.inl hstill⟩
    · have hevent : GrownOrSealed (runEvents platform events s)
          (e.exec platform (runEvents platform events s)) := hbefore.sound.grownOrSealed e
      rcases hevent with hadvanced | ⟨hnone, hlost⟩
      · have hkept : everPlanned platform s events scope run
            ⊆ (e.exec platform (runEvents platform events s)).effectIds scope run :=
          hall.trans hadvanced.effectIds
        rw [Set.union_eq_self_of_subset_left hkept]
        exact ⟨hafter.capped.encard_le scope run, Or.inr subset_rfl⟩
      · have hold : (e.exec platform (runEvents platform events s)).effectIds scope run
            ⊆ (runEvents platform events s).effectIds scope run :=
          fun id ⟨e', he', hof, hid⟩ => ⟨e', hnone e' he', hof, hid⟩
        rw [Set.union_eq_self_of_subset_right (hold.trans hnow)]
        refine ⟨hcount, ?_⟩
        by_cases hlater : ∀ e' ∈ (runEvents platform events s).ledger.effects, e'.Of scope run →
            e' ∈ (e.exec platform (runEvents platform events s)).ledger.effects
        · refine Or.inr fun id hid => ?_
          obtain ⟨e', he', hof, hid'⟩ := hall hid
          exact ⟨e', hlater e' he' hof, hof, hid'⟩
        · obtain ⟨e', he', hof, hgone⟩ : ∃ e' ∈ (runEvents platform events s).ledger.effects,
              e'.Of scope run ∧ e' ∉ (e.exec platform (runEvents platform events s)).ledger.effects := by
            simpa only [not_forall, exists_prop] using hlater
          have hseal := hlost e' he' hgone
          rw [(Prod.mk.inj hof).1, (Prod.mk.inj hof).2] at hseal
          exact Or.inl hseal

end Lifetime

/-! ## The receipts of `create` -/

/-- The checkpoint that a request of `create` has made: whatever checkpoint has the id belongs to the
run of the request. -/
structure CreatedBy (s : Store) (data : CreateCheckpoint) (id : UUID) : Prop where
  object : ∃ o ∈ s.anchor.objects, o.id = id
  run : ∀ c ∈ s.checkpointing.checkpoints, c.id = id → (c.scopeId, c.runId) = (data.scopeId, data.runId)

/-- **The receipts of `create`** name checkpoints of the run of their request. -/
def CreateReceipts (platform : Platform) (texts : Set String) (s : Store) : Prop :=
  ∀ r ∈ s.operations.receipts, r.operation = .checkpoint → ∃ data : CreateCheckpoint,
    Digested platform texts s (compactText data.dump) r.requestDigest
      ∧ ∃ id, r.result.objects = [id] ∧ CreatedBy s data id

/-- **No receipt yet**: since its start a transaction has saved no receipt of `create`, and the
checkpoints that it has inserted are new. -/
structure NoReceipt (c : Setting) (σ : Session) : Prop where
  receipts : ∀ r ∈ σ.store.operations.receipts, r.operation = .checkpoint →
    r ∈ c.start.operations.receipts
  checkpoints : ∀ k ∈ σ.store.checkpointing.checkpoints,
    k ∈ c.start.checkpointing.checkpoints ∨ Fresh c.start k.id

section Receipts

variable {c : Setting} {σ σ' : Session} {n : Nat} {st : Statement}

/-- A statement that saves no receipt of `create`. -/
theorem Writes.noReceipt {operations : List Operation} (hnot : .checkpoint ∉ operations)
    {m : Moment} {r : Returned} (hallow : Writes c σ st) (hst : Saves operations st)
    (h : NoReceipt c σ) (hstep : step c.platform st m σ = .ok (r, σ')) : NoReceipt c σ' := by
  have haccepted := st.accepted (step_eq_ok.mp hstep).2.1
  constructor
  · intro q hq hoperation
    rcases haccepted.receipts hallow.quiet with hsame | ⟨operation, kd, rd, result, rfl, hinsert⟩
    · exact h.receipts q (hsame ▸ hq) hoperation
    · rcases (Table.mem_insert? hinsert).mp hq with rfl | hold
      · exact (hnot (hoperation ▸ hst)).elim
      · exact h.receipts q hold hoperation
  · intro k hk
    rcases haccepted.checkpointing_cases hallow.quiet with hsame | ⟨st', inserted, rfl, hcheckpoint⟩
    · exact h.checkpoints k (hsame ▸ hk)
    generalize σ'.store.checkpointing = checkpointing at hcheckpoint hk
    cases st' with
    | insertRun scope run harnessId harnessVersion =>
      obtain ⟨-, ⟨-, rfl⟩ | ⟨-, t, -, rfl⟩⟩ := hcheckpoint
      · exact h.checkpoints k hk
      · exact h.checkpoints k hk
    | insertBranch scope run branch returning =>
      obtain ⟨-, ⟨-, rfl⟩ | ⟨-, t, -, rfl⟩⟩ := hcheckpoint
      · exact h.checkpoints k hk
      · exact h.checkpoints k hk
    | insertCheckpoint new =>
      obtain ⟨-, t, branch, ⟨-, ht⟩, rfl⟩ := hcheckpoint
      rcases (Table.mem_insert? ht).mp hk with rfl | hold
      · exact Or.inr hallow
      · exact h.checkpoints k hold
    | insertReference row =>
      obtain ⟨-, t, -, rfl⟩ := hcheckpoint
      exact h.checkpoints k hk

theorem NoReceipt.start (principal : UUID) : NoReceipt c (.start principal c.start) :=
  ⟨fun _ hr _ => hr, fun _ hk => Or.inl hk⟩

/-- Old receipts name what they named. -/
theorem CreatedBy.later (h : NoReceipt c σ) (hgrown : Grown c.start σ.store) {data : CreateCheckpoint}
    {id : UUID} (hcreated : CreatedBy c.start data id) : CreatedBy σ.store data id := by
  obtain ⟨⟨o, ho, hid⟩, hrun⟩ := hcreated
  refine ⟨⟨o, hgrown.objects o ho, hid⟩, fun k hk hkid => ?_⟩
  rcases h.checkpoints k hk with hold | hfresh
  · exact hrun k hold hkid
  · exact absurd (hid.trans hkid.symm) (hfresh o ho)

theorem NoReceipt.createReceipts (h : NoReceipt c σ) (hgrown : Grown c.start σ.store)
    {texts : Set String} (hstart : CreateReceipts c.platform texts c.start) :
    CreateReceipts c.platform texts σ.store := by
  intro r hr hoperation
  obtain ⟨data, hdigested, id, hobjects, hcreated⟩ := hstart r (h.receipts r hr hoperation) hoperation
  exact ⟨data, hdigested.of_grown hgrown, id, hobjects, hcreated.later h hgrown⟩

/-- A program that saves no receipt of `create`. -/
theorem Does.noReceipt {α : Type} {p : Tx α} {Q : α → Session → Prop} {operations : List Operation}
    (hnot : .checkpoint ∉ operations) (h : Does c p Q n σ) (hp : Sends (Saves operations) p)
    (hσ : NoReceipt c σ) : Does c p (fun a σ' => Q a σ' ∧ NoReceipt c σ') n σ :=
  h.sending hp hσ fun _ _ _ _ _ hallow hst hI hstep => hallow.noReceipt hnot hst hI hstep

/-- A statement that inserts no checkpoint. -/
def InsertsNoCheckpoint (st : Statement) : Prop := ∀ new, st ≠ .checkpoint (.insertCheckpoint new)

/-- Without a new checkpoint the checkpoints stay as they are. -/
theorem Writes.checkpoints_eq {m : Moment} {r : Returned} (hallow : Writes c σ st)
    (hst : InsertsNoCheckpoint st) (hstep : step c.platform st m σ = .ok (r, σ')) :
    σ'.store.checkpointing.checkpoints = σ.store.checkpointing.checkpoints := by
  have haccepted := st.accepted (step_eq_ok.mp hstep).2.1
  rcases haccepted.checkpointing_cases hallow.quiet with hsame | ⟨st', inserted, rfl, hcheckpoint⟩
  · rw [hsame]
    rfl
  generalize σ'.store.checkpointing = checkpointing at hcheckpoint
  cases st' with
  | insertRun scope run harnessId harnessVersion =>
    obtain ⟨-, ⟨-, rfl⟩ | ⟨-, t, -, rfl⟩⟩ := hcheckpoint <;> rfl
  | insertBranch scope run branch returning =>
    obtain ⟨-, ⟨-, rfl⟩ | ⟨-, t, -, rfl⟩⟩ := hcheckpoint <;> rfl
  | insertCheckpoint new => exact absurd rfl (hst new)
  | insertReference row =>
    obtain ⟨-, t, -, rfl⟩ := hcheckpoint
    rfl

theorem CreatedBy.step {m : Moment} {r : Returned} {data : CreateCheckpoint} {id : UUID}
    (h : CreatedBy σ.store data id) (hallow : Writes c σ st) (hst : InsertsNoCheckpoint st)
    (hstep : step c.platform st m σ = .ok (r, σ')) : CreatedBy σ'.store data id := by
  obtain ⟨⟨o, ho, hid⟩, hrun⟩ := h
  refine ⟨⟨o, (hallow.follows hstep).grown.objects o ho, hid⟩, ?_⟩
  rw [hallow.checkpoints_eq hst hstep]
  exact hrun

/-- **The checkpoint of a request** is inserted under a new id. -/
theorem does_insertCheckpoint_createdBy (h : Underway c σ) (data : CreateCheckpoint) (sequence : Nat)
    (parentId : Option UUID) :
    Does c (Checkpoints.insert c.platform data sequence parentId)
      (fun r σ' => ∃ id, r.objects = [id] ∧ Fresh c.start id ∧ CreatedBy σ'.store data id) n σ := by
  refine does_readOnly_bind (readOnly_validateRefs _ _ _) fun refs n₀ => does_read ?_
  refine does_newObject h fun id n₁ σ₁ hf₁ hid => ?_
  refine does_readOnly_bind (readOnly_digest c.platform _) fun sum n₂ => ?_
  refine does_send hid fun _ σ₂ hstep hf₂ => ?_
  have hinserted : CreatedBy σ₂.store data id := by
    obtain ⟨_, checkpointing, hcheckpoint, hstore⟩ := Statement.accepted (step_eq_ok.mp hstep).2.1
    obtain ⟨-, t, branch, ⟨-, ht⟩, rfl⟩ := hcheckpoint
    have hrow := Table.mem_insert?_self ht
    have hmem : ∀ k, k ∈ σ₂.store.checkpointing.checkpoints ↔ k ∈ t := by
      rw [hstore]
      exact fun k => Iff.rfl
    obtain ⟨o, ho, hkey⟩ := (step_eq_ok.mp hstep).2.2.1.1.checkpoint.checkpoint_object.exists_parent
      ((hmem _).mpr hrow) rfl
    refine ⟨⟨o, ho, (Prod.mk.inj hkey).1⟩, fun k hk hkid => ?_⟩
    rw [Table.eq_of_key_eq ((hmem k).mp hk) hrow hkid]
    rfl
  have hrest : Does c (do
      forEach refs fun ref => send (.checkpoint (.insertReference
        ⟨id, data.scopeId, ref.memoryId, ref.revision, ref.kind⟩))
      audit "checkpoint" id
      pure (Receipt.checkpoint id data.runId data.branchId sequence parentId sum))
      (fun r _ => r.objects = [id]) (n₂ + 1) σ₂ := by
    refine does_bind (does_forEach fun ref _ n' σ' _ =>
      does_send_last (R := fun _ _ => True) hid fun _ _ _ _ => trivial) fun _ n₃ σ₃ _ _ => ?_
    exact does_audit fun _ _ _ => does_pure rfl
  have hsends : Sends InsertsNoCheckpoint (do
      forEach refs fun ref => send (.checkpoint (.insertReference
        ⟨id, data.scopeId, ref.memoryId, ref.revision, ref.kind⟩))
      audit "checkpoint" id
      pure (Receipt.checkpoint id data.runId data.branchId sequence parentId sum)) := by
    refine (sends_forEach fun ref _ => sends_send fun new hnew => ?_).bind fun _ => ?_
    · cases hnew
    · exact (sends_send fun new hnew => Statement.noConfusion hnew).bind fun _ => trivial
  refine (hrest.sending (I := fun σ => CreatedBy σ.store data id) hsends hinserted fun st m σ r σ' hallow hst hcreated hrun =>
    hcreated.step hallow hst hrun).mono ?_
  rintro r σ' - ⟨hobjects, hcreated⟩
  exact ⟨id, hobjects, hid, hcreated⟩

theorem does_createReceipts (h : Underway c σ) (hσ : NoReceipt c σ) {texts : Set String}
    (hstart : CreateReceipts c.platform texts c.start) (data : CreateCheckpoint) (key : String)
    (htext : compactText data.dump ∈ texts) :
    Does c (Checkpoints.create c.platform data key)
      (fun _ σ' => CreateReceipts c.platform texts σ'.store) n σ := by
  refine does_readOnly_bind (readOnly_scope _ _) fun _ n₀ => ?_
  -- A replay stores nothing; a fresh call stores its receipt after the checkpoint that it names.
  refine does_once h (fun result n' _ => ?_) fun n₁ => ?_
  · refine (does_readOnly (readOnly_checkpointReplayed c.platform result)).mono ?_
    rintro _ σ' - rfl
    exact hσ.createReceipts h.grown hstart
  have hrun : Does c (Checkpoints.ensureRun data) (fun _ _ => True) n₁ σ := by
    refine does_send trivial fun _ σ₁ _ _ => does_read (does_demand fun _ => ?_)
    exact (does_readOnly (readOnly_demand _ _)).mono fun _ _ _ _ => trivial
  have hsends : Sends (Saves []) (Checkpoints.ensureRun data) :=
    (sends_send trivial).bind fun _ => (readOnly_read _).sends.bind fun _ =>
      (readOnly_demand _ _).sends.bind fun _ => (readOnly_demand _ _).sends
  refine does_bind (hrun.noReceipt List.not_mem_nil hsends hσ) fun _ n₂ σ₁ hf₁ ⟨_, hσ₁⟩ => ?_
  refine does_send trivial fun _ σ₂ hstep hf₂ => ?_
  have hquiet : Saves [] (.checkpoint (.insertBranch data.scopeId data.runId data.branchId false)) :=
    trivial
  have hwrites : Writes c σ₁
      (.checkpoint (.insertBranch data.scopeId data.runId data.branchId false)) := trivial
  have hσ₂ : NoReceipt c σ₂ := hwrites.noReceipt List.not_mem_nil hquiet hσ₁ hstep
  refine does_read (does_found fun branch _ => does_demand fun _ => does_demand fun _ => ?_)
  have hinsert : ∀ n₃, Does c (Checkpoints.insert c.platform data (branch.sequence + 1)
      data.expectedHead >>= fun result => saveResult .checkpoint (σ.store.digest c.platform key)
        (σ.store.digest c.platform (compactText data.dump)) result >>= fun _ => pure result)
      (fun _ σ' => CreateReceipts c.platform texts σ'.store) n₃ σ₂ := by
    intro n₃
    have hf := hf₁.trans hf₂
    have hboth := (does_insertCheckpoint_createdBy (n := n₃) (h.follows hf) data (branch.sequence + 1)
      data.expectedHead).noReceipt List.not_mem_nil (sends_insertUnsaved c.platform data _ _) hσ₂
    refine does_bind hboth ?_
    rintro result n₄ σ₃ hf₃ ⟨⟨id, hobjects, hfresh, hcreated⟩, hσ₃⟩
    have hf' := hf.trans hf₃
    have hlive : ∀ id' ∈ result.objects, Untombstoned σ₃.store id' := by
      rw [hobjects]
      exact fun id' hid' => List.mem_singleton.mp hid' ▸ (h.follows hf').untombstoned hfresh
    refine does_send ⟨hlive, fun _ => trivial⟩ fun _ σ₄ hstep hf₄ => does_pure ?_
    have haccepted := Statement.accepted (step_eq_ok.mp hstep).2.1
    have hsame : σ₄.store.checkpointing = σ₃.store.checkpointing := by
      obtain ⟨o, -, hstore⟩ := haccepted
      rw [hstore]
      rfl
    have hlater : CreateReceipts c.platform texts σ₃.store :=
      hσ₃.createReceipts (h.follows hf').grown hstart
    intro q hq hoperation
    obtain ⟨o, ⟨-, t, ht, rfl⟩, hstore⟩ := haccepted
    rw [hstore] at hq
    have hobject : ∀ o ∈ σ₃.store.anchor.objects, o ∈ σ₄.store.anchor.objects := hf₄.grown.objects
    rcases (Table.mem_insert? ht).mp hq with rfl | hold
    · refine ⟨data, ⟨htext, ?_⟩, id, hobjects, ?_⟩
      · exact (Store.digest_eq (hf'.trans hf₄).grown _).symm
      · exact ⟨hcreated.object.imp fun o ho => ⟨hobject o ho.1, ho.2⟩, hsame ▸ hcreated.run⟩
    · obtain ⟨data', hdigested, id', hobjects', hcreated'⟩ := hlater q hold hoperation
      exact ⟨data', hdigested.of_grown hf₄.grown, id', hobjects',
        hcreated'.object.imp fun o ho => ⟨hobject o ho.1, ho.2⟩, hsame ▸ hcreated'.run⟩
  split
  next => exact hinsert _
  next parentId _ =>
    exact does_readOnly_bind (readOnly_checkpointLoad c.platform _ _) fun parent n₃ =>
      does_demand fun _ => hinsert _

end Receipts

/-! ## The receipts over a run -/

/-- The texts of the `create` requests of an event. -/
def Event.createTexts : Event → Set String
  | .call ⟨_, _, .createCheckpoint data _⟩ => {compactText data.dump}
  | _ => ∅

section Events

variable {platform : Platform} {texts : Set String} {s s' : Store}

/-- **A change of access keeps the secret.** -/
theorem ScopeAccessRequest.run_secret {request : ScopeAccessRequest} {now recordedAt : Time}
    {result : ScopeAccessResult} (h : request.run now recordedAt s = .ok (result, s')) :
    s'.access.dedupSecret = s.access.dedupSecret := by
  unfold run at h
  split at h
  · cases h
  split at h
  · cases h
  simp only [bind_eq_ok] at h
  obtain ⟨before, -, ⟨after, changed⟩, -, h⟩ := h
  split at h
  · obtain ⟨access, hwrite, hpure⟩ := bind_eq_ok.mp h
    cases hpure
    unfold write at hwrite
    split at hwrite
    · cases hwrite
    dsimp only at hwrite
    split at hwrite
    · cases hwrite
    · cases hwrite
      rfl
  · cases h
    rfl

theorem Event.exec_secret (platform : Platform) (request : ScopeAccessRequest) (now recordedAt : Time) (s : Store) :
    ∃ access : Access, access.dedupSecret = s.access.dedupSecret
      ∧ Event.exec platform (.access request now recordedAt) s = { s with access := access } := by
  simp only [Event.exec]
  split
  next result s' h =>
    obtain ⟨access, rfl⟩ := ScopeAccessRequest.run_eq_ok h
    exact ⟨access, ScopeAccessRequest.run_secret h, rfl⟩
  next => exact ⟨s.access, rfl, rfl⟩

/-- The receipts of `create` depend on objects, checkpoints, receipts and the secret. -/
theorem CreateReceipts.congr (h : CreateReceipts platform texts s)
    (hsecret : s'.access.dedupSecret = s.access.dedupSecret)
    (hobjects : s'.anchor.objects = s.anchor.objects)
    (hcheckpoints : ∀ k ∈ s'.checkpointing.checkpoints, k ∈ s.checkpointing.checkpoints)
    (hreceipts : ∀ r ∈ s'.operations.receipts, r.operation = .checkpoint →
      r ∈ s.operations.receipts) : CreateReceipts platform texts s' := by
  intro r hr hoperation
  obtain ⟨data, ⟨htext, hdigest⟩, id, hnames, hobject, hrun⟩ :=
    h r (hreceipts r hr hoperation) hoperation
  refine ⟨data, ⟨htext, ?_⟩, id, hnames, hobjects ▸ hobject, fun k hk => hrun k (hcheckpoints k hk)⟩
  rw [hdigest, Store.digest, Store.digest, hsecret]

theorem Purged.createReceipts {gone : Gone} (hp : Purged s s' gone)
    (h : CreateReceipts platform texts s) : CreateReceipts platform texts s' := by
  obtain ⟨receipt, hforget, -, hmem⟩ := hp.receipts
  refine h.congr (by rw [hp.access]) hp.objects (fun k hk => ?_) fun r hr hoperation => ?_
  · rw [hp.checkpointing] at hk
    exact (Table.mem_delete.mp hk).1
  · rcases (hmem r).mp hr with rfl | hold
    · rw [hforget] at hoperation
      cases hoperation
    · exact hold

/-- A committed request keeps the receipts of `create`. -/
theorem CreateReceipts.attempt {c : Call} {response : Response} (hs : Sound s)
    (htexts : Event.createTexts (.call c) ⊆ texts) (h : CreateReceipts platform texts s)
    (hok : attempt platform c.timeline c.principal (c.request.program platform) s
      = .ok (response, s')) : CreateReceipts platform texts s' := by
  rcases hs.attempt_cases hok with hdeletes | rfl | ⟨gone, hpurged⟩
  · have hunderway : Underway (c.setting platform s) (.start c.principal s) :=
      .start hs.integrity.foreign c.principal
    have hdoes : Does (c.setting platform s) (c.request.program platform)
        (fun _ σ => CreateReceipts platform texts σ.store) 0 (.start c.principal s) := by
      by_cases hsaves : .checkpoint ∈ c.request.saves
      · obtain ⟨principal, timeline, request⟩ := c
        cases request with
        | createCheckpoint data key =>
          refine does_readOnly_bind readOnly_bindIdentity fun _ n₀ => ?_
          refine (does_respond (does_createReceipts hunderway (.start principal) h data key
            (htexts rfl))).mono ?_
          rintro r σ' - ⟨a, -, hkept⟩
          exact hkept
        | _ => exact absurd hsaves (by simp [Request.saves, captureParts])
      · refine ((Request.does rfl hunderway hdeletes).noReceipt hsaves
          (Request.sends platform c.request) (.start c.principal)).mono ?_
        rintro r σ' hf ⟨-, hnone⟩
        exact hnone.createReceipts hf.grown h
    obtain ⟨n, σ, rfl, ⟨-, hkept⟩, -, -⟩ := PgAgmemory.attempt_invariant (I := fun _ _ => True)
      (fun _ _ _ => trivial) (fun _ _ _ _ _ _ _ _ => trivial) hdoes trivial hok
    exact hkept
  · exact h
  · exact hpurged.createReceipts h

/-- **An event keeps the receipts of `create`.** -/
theorem CreateReceipts.event (hs : Sound s) (h : CreateReceipts platform texts s) (e : Event)
    (htexts : e.createTexts ⊆ texts) : CreateReceipts platform texts (e.exec platform s) := by
  cases e with
  | call c =>
    change CreateReceipts platform texts (c.exec platform s).2
    rcases c.exec_cases platform s with ⟨fault, hexec⟩ | ⟨response, s', hok, hexec⟩
    · rw [hexec]
      exact h
    · rw [hexec]
      exact h.attempt hs htexts hok
  | access request now recordedAt =>
    obtain ⟨access, hsecret, hexec⟩ := Event.exec_secret platform request now recordedAt s
    rw [hexec]
    exact h.congr hsecret rfl (fun _ hk => hk) fun _ hr _ => hr

/-- A purge takes content away, and nothing of what names it. -/
theorem Purged.retains {gone : Gone} (hp : Purged s s' gone) : Retains s s' where
  secret := by rw [hp.access]
  tombstones := hp.marked
  sourceEvents _ he := hp.sourceEvents ▸ he
  receipts r hr := by
    obtain ⟨receipt, -, -, hmem⟩ := hp.receipts
    exact (hmem r).mpr (Or.inr hr)
  jobIdentities _ hi := by
    rw [hp.queue]
    exact hi
  effectIdentities _ hi := by
    rw [hp.ledger]
    exact hi

/-- **No event takes away** a tombstone, a receipt or an identity. -/
theorem Sound.retains (hs : Sound s) (e : Event) : Retains s (e.exec platform s) := by
  cases e with
  | call c =>
    change Retains s (c.exec platform s).2
    rcases c.exec_cases platform s with ⟨fault, hexec⟩ | ⟨response, s', hok, hexec⟩
    · rw [hexec]
      exact .refl s
    · rw [hexec]
      rcases hs.attempt_cases hok with hdeletes | rfl | ⟨gone, hpurged⟩
      · obtain ⟨n, σ, rfl, -, hgrown, -⟩ := Request.attempt_invariant (c := c.setting platform s)
          (I := fun σ => Grown s σ.store) hs.integrity.foreign hdeletes rfl (.refl s)
          (fun st n σ r σ' _ hgrown hallow hrun =>
            hgrown.trans (step_grown hallow.quiet hrun)) hok
        exact hgrown.retains
      · exact .refl _
      · exact hpurged.retains
  | access request now recordedAt =>
    obtain ⟨access, hsecret, hexec⟩ := Event.exec_secret platform request now recordedAt s
    rw [hexec]
    exact ⟨hsecret, fun _ h => h, fun _ h => h, fun _ h => h, fun _ h => h, fun _ h => h⟩

/-- The secret of a tenant never changes. -/
theorem Sound.secret (hs : Sound s) (e : Event) :
    (e.exec platform s).access.dedupSecret = s.access.dedupSecret := (hs.retains e).secret

/-- **The receipts of `create` over a run.** -/
theorem CreateReceipts.run (hs : Sound s) (h : CreateReceipts platform texts s)
    (events : List Event) (htexts : ∀ e ∈ events, e.createTexts ⊆ texts) :
    CreateReceipts platform texts (runEvents platform events s)
      ∧ (runEvents platform events s).access.dedupSecret = s.access.dedupSecret := by
  induction events generalizing s with
  | nil => exact ⟨h, rfl⟩
  | cons e events ih =>
    have hnext := h.event hs e (htexts e List.mem_cons_self)
    obtain ⟨hlast, hsecret⟩ := ih (hs.event e) hnext fun e' he' =>
      htexts e' (List.mem_cons_of_mem e he')
    exact ⟨hlast, hsecret.trans (hs.secret e)⟩

end Events

end PgAgmemory

import PgAgmemory.History.Whole
import PgAgmemory.Operations.Envelopes

/-! # Operations keep a store intact

What an operation builds it finishes: the row of a new object is inserted right after the object, and
then everything that the row counts. So every operation but `forget` starts and ends with whole
objects (`Kept`). -/

namespace PgAgmemory

open Keyed (HasKey Table key)
open Interactive (Program)
open Interactive.Program (ReadOnly Sends)
open MemoryService

/-! ## The middle of a building operation -/

/-- A statement that builds nothing. -/
def BuildsNothing (st : Statement) : Prop := st.quiet = true ∧ st.builds = none

/-- **A kept session**: its store meets the foreign keys, and every object is whole. -/
structure Kept (platform : Platform) (σ : Session) : Prop where
  foreign : ForeignKeys σ.store
  intact : Intact platform σ.store

/-- **A building session**: every object is whole but one, of a kind. -/
structure Building (platform : Platform) (id : UUID) (kind : ObjectKind) (σ : Session) : Prop where
  foreign : ForeignKeys σ.store
  others : IntactBut platform id σ.store
  object : ∃ o ∈ σ.store.anchor.objects, o.id = id ∧ o.kind = kind

section Steps

variable {platform : Platform} {st : Statement} {m : Moment} {σ σ' : Session} {r : Returned} {id : UUID}
  {kind : ObjectKind}

theorem Kept.step (h : Kept platform σ) (hst : BuildsNothing st)
    (hstep : step platform st m σ = .ok (r, σ')) : Kept platform σ' where
  foreign := (step_eq_ok.mp hstep).2.2.1.1
  intact id := (h.intact id).statement hst.1 (Statement.accepted (step_eq_ok.mp hstep).2.1) (by
    rw [hst.2]
    exact Option.some_ne_none id |>.symm)

theorem Building.step (h : Building platform id kind σ) (hquiet : st.quiet = true)
    (hbuilds : st.builds = none ∨ st.builds = some id)
    (hstep : step platform st m σ = .ok (r, σ')) : Building platform id kind σ' where
  foreign := (step_eq_ok.mp hstep).2.2.1.1
  others id' hother := (h.others id' hother).statement hquiet
    (Statement.accepted (step_eq_ok.mp hstep).2.1) fun hid => by
      rcases hbuilds with hnone | hsome
      · exact Option.some_ne_none id' (hid.symm.trans hnone)
      · exact hother (Option.some.inj (hid.symm.trans hsome))
  object := h.object.imp fun o ho => ⟨(step_grown hquiet hstep).objects o ho.1, ho.2⟩

/-- **The built object is whole** when it has its row and what is counted for its kind. -/
theorem Whole.of_kind {s : Store} (hkeys : ForeignKeys s) {o : ObjectRow} (ho : o ∈ s.anchor.objects)
    (hrow : HasRow s o.id o.kind) (heffect : o.kind = .toolEffect → s.ledger.Complete o.id)
    (hentity : o.kind = .entity → s.graph.Complete o.id)
    (hjob : o.kind = .job → s.queue.Complete o.id)
    (hcheckpoint : o.kind = .checkpoint → s.checkpointing.Complete (s.digest platform) o.id)
    (hrelation : o.kind = .assertion → Related s o.id) : Whole platform s o.id := by
  -- a row under the id has the kind of the object
  have hkind : ∀ {o' : ObjectRow} {scope : UUID} {kind : ObjectKind}, o' ∈ s.anchor.objects →
      (o'.id, o'.scopeId, o'.kind) = (o.id, scope, kind) → o.kind = kind := by
    intro o' scope kind ho' hkey
    obtain rfl : o' = o := Table.eq_of_key_eq ho' ho (Prod.mk.inj hkey).1
    exact (Prod.mk.inj (Prod.mk.inj hkey).2).2
  constructor
  · intro o' ho' hid _
    obtain rfl : o' = o := Table.eq_of_key_eq ho' ho hid
    exact hrow
  · intro e he hid
    obtain ⟨o', ho', hkey⟩ := hkeys.ledger.effect_object.exists_parent he rfl
    rw [hid] at hkey
    exact heffect (hkind ho' hkey) e he hid
  · intro e he hid
    obtain ⟨o', ho', hkey⟩ := hkeys.graph.entity_object.exists_parent he rfl
    rw [hid] at hkey
    exact hentity (hkind ho' hkey) e he hid
  · intro j hj hid
    obtain ⟨o', ho', hkey⟩ := hkeys.queue.job_object.exists_parent hj rfl
    rw [hid] at hkey
    exact hjob (hkind ho' hkey) j hj hid
  · intro k hk hid
    obtain ⟨o', ho', hkey⟩ := hkeys.checkpoint.checkpoint_object.exists_parent hk rfl
    rw [hid] at hkey
    exact hcheckpoint (hkind ho' hkey) k hk hid
  · intro a ha hid
    obtain ⟨o', ho', hkey⟩ := hkeys.content.assertion_object.exists_parent ha rfl
    rw [hid] at hkey
    exact hrelation (hkind ho' hkey) a ha hid

/-- A finished building leaves an intact store. -/
theorem Building.finish (h : Building platform id kind σ) (hrow : HasRow σ.store id kind)
    (heffect : kind = .toolEffect → σ.store.ledger.Complete id)
    (hentity : kind = .entity → σ.store.graph.Complete id)
    (hjob : kind = .job → σ.store.queue.Complete id)
    (hcheckpoint : kind = .checkpoint → σ.store.checkpointing.Complete (σ.store.digest platform) id)
    (hrelation : kind = .assertion → Related σ.store id) : Kept platform σ := by
  obtain ⟨o, ho, rfl, rfl⟩ := h.object
  refine ⟨h.foreign, fun id' => ?_⟩
  by_cases hid : id' = o.id
  · exact hid ▸ Whole.of_kind h.foreign ho hrow heffect hentity hjob hcheckpoint hrelation
  · exact h.others id' hid

/-- A bare object has no row of any kind. -/
def Bare (s : Store) (id : UUID) : Prop := ∀ kind, ¬ HasRow s id kind

/-- A row needs its object. -/
theorem bare_of_fresh {s : Store} (hkeys : ForeignKeys s) (hfresh : Fresh s id) : Bare s id := by
  intro kind hrow
  cases kind with
  | episode =>
    obtain ⟨r, hr, rfl⟩ := hrow
    obtain ⟨o, ho, hkey⟩ := hkeys.content.episode_object.exists_parent hr rfl
    exact hfresh o ho (Prod.mk.inj hkey).1
  | assertion =>
    obtain ⟨r, hr, rfl⟩ := hrow
    obtain ⟨o, ho, hkey⟩ := hkeys.content.assertion_object.exists_parent hr rfl
    exact hfresh o ho (Prod.mk.inj hkey).1
  | checkpoint =>
    obtain ⟨r, hr, rfl⟩ := hrow
    obtain ⟨o, ho, hkey⟩ := hkeys.checkpoint.checkpoint_object.exists_parent hr rfl
    exact hfresh o ho (Prod.mk.inj hkey).1
  | toolEffect =>
    obtain ⟨r, hr, rfl⟩ := hrow
    obtain ⟨o, ho, hkey⟩ := hkeys.ledger.effect_object.exists_parent hr rfl
    exact hfresh o ho (Prod.mk.inj hkey).1
  | entity =>
    obtain ⟨r, hr, rfl⟩ := hrow
    obtain ⟨o, ho, hkey⟩ := hkeys.graph.entity_object.exists_parent hr rfl
    exact hfresh o ho (Prod.mk.inj hkey).1
  | job =>
    obtain ⟨r, hr, rfl⟩ := hrow
    obtain ⟨o, ho, hkey⟩ := hkeys.queue.job_object.exists_parent hr rfl
    exact hfresh o ho (Prod.mk.inj hkey).1

end Steps

/-! ## Rules -/

section Rules

variable {platform : Platform} {timeline : Timeline} {α β : Type} {n : Nat} {σ : Session}

/-- **Keeping**: a run that ends leaves a kept session. -/
abbrev Keeps (platform : Platform) (timeline : Timeline) {α : Type} (p : Tx α) (n : Nat)
    (σ : Session) : Prop :=
  Outcome platform timeline p (fun _ _ σ' => Kept platform σ') (fun _ => True) n σ

/-- A program that builds nothing. -/
theorem Kept.keeps {p : Tx α} (h : Kept platform σ) (hp : Sends BuildsNothing p) :
    Keeps platform timeline p n σ :=
  hp.yields h fun _ _ _ _ _ hst hkept hstep => hkept.step hst hstep

/-- A part that only reads. -/
theorem Kept.reading {p : Tx α} {k : α → Tx β} (h : Kept platform σ) (hp : ReadOnly p)
    (hk : ∀ a m, Kept platform σ → Keeps platform timeline (k a) m σ) :
    Keeps platform timeline (p >>= k) n σ := by
  refine outcome_bind (outcome_readOnly hp fun _ => trivial) ?_
  rintro a m σ' - rfl
  exact hk a m h

/-- One part after the other. -/
theorem keeps_bind {p : Tx α} {k : α → Tx β} (hp : Keeps platform timeline p n σ)
    (hk : ∀ a m σ', Kept platform σ' → Keeps platform timeline (k a) m σ') :
    Keeps platform timeline (p >>= k) n σ :=
  outcome_bind hp fun a m σ' _ h => hk a m σ' h

/-- A loop of keeping passes. -/
theorem keeps_forCollect {xs : List α} {f : α → Tx β} (h : Kept platform σ)
    (hf : ∀ x m σ', Kept platform σ' → Keeps platform timeline (f x) m σ') :
    Keeps platform timeline (forCollect f xs) n σ := by
  induction xs generalizing n σ with
  | nil => exact h
  | cons x xs ih =>
    exact keeps_bind (hf x n σ h) fun _ m σ' h' => keeps_bind (ih h') fun _ _ _ h'' => h''

/-- Once a key: the stored receipt is only read. -/
theorem Kept.once (h : Kept platform σ) {operation : Operation} {key payload : String}
    {replayed : Receipt → Tx α} {fresh : Digest → Digest → Tx α}
    (hreplayed : ∀ receipt, ReadOnly (replayed receipt))
    (hfresh : ∀ kd rd m, Keeps platform timeline (fresh kd rd) m σ) :
    Keeps platform timeline (once platform operation key payload replayed fresh) n σ := by
  refine h.reading (readOnly_replay platform operation key payload) fun found m h => ?_
  obtain ⟨kd, rd, previous⟩ := found
  cases previous with
  | none => exact hfresh kd rd m
  | some result =>
    exact h.keeps (hreplayed result).sends

/-- **A new object** is built from nothing. -/
theorem Kept.newObject (h : Kept platform σ) {scopeId : UUID} {kind : ObjectKind} {k : UUID → Tx β}
    (hk : ∀ id m σ', Building platform id kind σ' → Bare σ'.store id →
      (∃ t, σ'.store = { σ.store with anchor.objects := t }) →
      Keeps platform timeline (k id) m σ') :
    Keeps platform timeline (newObject scopeId kind >>= k) n σ := by
  have hbare : Outcome platform timeline (PgAgmemory.MemoryService.newObject scopeId kind)
      (fun id _ σ' => Building platform id kind σ' ∧ Bare σ'.store id
        ∧ ∃ t, σ'.store = { σ.store with anchor.objects := t }) (fun _ => True) n σ := by
    refine outcome_drawUUID (outcome_send (fun r σ' hstep => outcome_pure ?_) fun _ _ => trivial)
    have haccepted := Statement.accepted (step_eq_ok.mp hstep).2.1
    obtain ⟨-, t, ht, hstore⟩ := haccepted
    have hfresh : Fresh σ.store (timeline.moment n).uuid := (Table.insert?_eq_some_iff.mp ht).1
    refine ⟨⟨(step_eq_ok.mp hstep).2.2.1.1, fun id' hother => ?_, ?_⟩, fun kind' hrow => ?_, t,
      hstore⟩
    · exact (h.intact id').statement rfl (Statement.accepted (step_eq_ok.mp hstep).2.1)
        fun hid => hother (Option.some.inj hid).symm
    · rw [hstore]
      exact ⟨_, Table.mem_insert?_self ht, rfl, rfl⟩
    · refine bare_of_fresh h.foreign hfresh kind' ?_
      rw [hstore] at hrow
      cases kind' <;> exact hrow
  exact outcome_bind hbare fun id m σ' _ hpost => hk id m σ' hpost.1 hpost.2.1 hpost.2.2

/-- **Inserting what a row counts**: every pass puts one row on a list. -/
theorem outcome_children {γ : Type} (listed : Store → List γ) {xs : List α} {f : α → Statement}
    {g : α → γ} {I : Session → Prop}
    (hpass : ∀ x ∈ xs, ∀ m σ r σ', I σ → step platform (f x) m σ = .ok (r, σ') →
      I σ' ∧ listed σ'.store = g x :: listed σ.store) (hI : I σ) :
    Outcome platform timeline (forEach xs fun x => send (f x))
      (fun _ _ σ' => I σ' ∧ listed σ'.store = (xs.map g).reverse ++ listed σ.store)
      (fun _ => True) n σ := by
  unfold forEach
  rw [List.forM_eq_forM]
  induction xs generalizing n σ with
  | nil => exact ⟨hI, rfl⟩
  | cons x xs ih =>
    rw [List.forM_cons]
    refine outcome_send (fun r σ' hstep => ?_) fun _ _ => trivial
    obtain ⟨hI', hlisted⟩ := hpass x List.mem_cons_self _ σ r σ' hI hstep
    have hrest := ih (fun y hy => hpass y (List.mem_cons_of_mem x hy)) (n := n + 1) hI'
    refine hrest.mono (fun _ _ σ'' _ hpost => ⟨hpost.1, ?_⟩) fun _ h => h
    rw [hpost.2, hlisted, List.map_cons, List.reverse_cons, List.append_assoc]
    rfl

/-- As many rows as were inserted. -/
theorem countP_of_listed {γ : Type} {xs : List α} {g : α → γ} {rows : List γ} {p : γ → Bool}
    (h : rows.filter p = (xs.map g).reverse ++ []) : rows.countP p = xs.length := by
  rw [List.countP_eq_length_filter, h, List.append_nil, List.length_reverse, List.length_map]

end Rules

/-! ## Tool effects -/

section Operations

variable {platform : Platform} {timeline : Timeline} {n : Nat} {σ : Session}

/-- Appending a revision of an effect builds nothing. -/
theorem buildsNothing_append (new : NewEffectRevision) :
    Sends BuildsNothing (ToolEffects.append new) :=
  (sends_send ⟨rfl, rfl⟩).bind fun _ => (sends_send ⟨rfl, rfl⟩).bind fun _ => trivial

/-- **A new effect** gets all of its references. -/
theorem Kept.insertEffect (h : Kept platform σ) (data : PlanToolEffect) (requestDigest : Digest)
    (refs : List ValidatedReference) :
    Keeps platform timeline (ToolEffects.insertEffect platform data requestDigest refs) n σ := by
  refine outcome_digest (outcome_digest (h.newObject fun id m σ₁ hbuilding hbare _ => ?_))
  refine outcome_send (fun r σ₂ hstep => ?_) fun _ _ => trivial
  obtain ⟨l, ⟨-, t, ht, rfl⟩, hstore⟩ := Statement.accepted (step_eq_ok.mp hstep).2.1
  have hbuilding₂ : Building platform id .toolEffect σ₂ :=
    hbuilding.step rfl (Or.inr rfl) hstep
  have hnone : σ₂.store.ledger.references.rows.filter (·.effectId = id) = [] := by
    rw [hstore]
    refine List.filter_eq_nil_iff.mpr fun ref href hid => ?_
    obtain ⟨e, he, hkey⟩ :=
      hbuilding.foreign.ledger.reference_effect.exists_parent (Table.mem_rows.mp href) rfl
    exact hbare .toolEffect ⟨e, he, (Prod.mk.inj hkey).1.trans (of_decide_eq_true hid)⟩
  have hrow : ∀ e ∈ t, e.id = id → e.referenceCount = refs.length := by
    intro e he hid
    rw [Table.eq_of_key_eq he (Table.mem_insert?_self ht) hid]
    rfl
  have heffects : σ₂.store.ledger.effects = t := by
    rw [hstore]
  refine outcome_bind (outcome_children (fun s =>
    s.ledger.references.rows.filter (·.effectId = id)) (g := fun ref : ValidatedReference =>
      (⟨id, data.scopeId, ref.memoryId, ref.revision, ref.kind⟩ : ToolEffectReferenceRow))
    (I := fun σ => Building platform id .toolEffect σ ∧ σ.store.ledger.effects = t) ?_
    ⟨hbuilding₂, heffects⟩) fun _ m' σ₃ _ hpost => ?_
  · rintro ref - m σ r σ' ⟨hb, heq⟩ hstep
    obtain ⟨l, ⟨-, t', ht', rfl⟩, hstore⟩ := Statement.accepted (step_eq_ok.mp hstep).2.1
    refine ⟨⟨hb.step rfl (Or.inr rfl) hstep, ?_⟩, ?_⟩
    · rw [hstore]
      exact heq
    · rw [hstore]
      change t'.rows.filter _ = _
      rw [(Table.insert?_eq_some_iff.mp ht').2]
      exact List.filter_cons_of_pos (decide_eq_true rfl)
  · obtain ⟨⟨hb, heq⟩, hlisted⟩ := hpost
    rw [hnone] at hlisted
    have hkept : Kept platform σ₃ := by
      refine hb.finish ⟨_, heq ▸ Table.mem_insert?_self ht, rfl⟩ (fun _ e he hid => ?_)
        (by simp) (by simp) (by simp) (by simp)
      rw [countP_of_listed hlisted, hrow e (heq ▸ he) hid]
    exact hkept.keeps ((sends_send ⟨rfl, rfl⟩).bind fun _ => buildsNothing_append _)

/-- The part of `plan` that runs once. -/
theorem Kept.plan (h : Kept platform σ) (data : PlanToolEffect) (key : String) :
    Keeps platform timeline (ToolEffects.plan platform data key) n σ := by
  refine h.reading (readOnly_scope _ _) fun _ m h => h.once
    (fun _ => readOnly_effectReplayed _ _) fun kd rd m => ?_
  have honce : Keeps platform timeline (ToolEffects.planOnce platform data rd) m σ := by
    refine outcome_read ?_
    split
    · exact h.keeps (((readOnly_demand _ _).bind fun _ => (readOnly_effectLoad _ _).bind fun _ =>
        readOnly_pure _).sends)
    · refine outcome_read (outcome_found (fun run _ => ?_) fun _ => trivial)
      refine outcome_demand (fun _ => outcome_read (outcome_demand (fun _ => ?_) fun _ => trivial))
        fun _ => trivial
      exact h.reading (readOnly_validateRefs _ _ _) fun refs m h => h.insertEffect data rd refs
  exact keeps_bind honce fun _ m σ' h' =>
    h'.keeps ((sends_send ⟨rfl, rfl⟩).bind fun _ => trivial)

theorem Kept.transition (h : Kept platform σ) (effectId : UUID) (data : TransitionToolEffect)
    (key : String) : Keeps platform timeline (ToolEffects.transition platform effectId data key) n σ :=
  h.reading (readOnly_effectLoad _ _) fun _ _ h => h.once (fun _ => readOnly_pure _) fun _ _ _ =>
    h.keeps ((readOnly_demand _ _).sends.bind fun _ => (readOnly_demand _ _).sends.bind fun _ =>
      (readOnly_demand _ _).sends.bind fun _ => (buildsNothing_append _).bind fun _ =>
        (sends_send ⟨rfl, rfl⟩).bind fun _ => trivial)

/-! ## Entities -/

/-- **A new entity** gets all of its evidence. -/
theorem Kept.createEntity (h : Kept platform σ) (data : CreateEntity) (key : String) :
    Keeps platform timeline (SqlGraph.createEntity platform data key) n σ := by
  refine h.reading (readOnly_scope _ _) fun _ m h => h.once
    (fun _ => readOnly_entityReplayed _) fun kd rd m => ?_
  refine h.reading (readOnly_validateEvidence _ _) fun _ m h =>
    h.newObject fun id m σ₁ hbuilding hbare _ => ?_
  refine outcome_send (fun r σ₂ hstep => ?_) fun _ _ => trivial
  obtain ⟨g, ⟨-, t, ht, rfl⟩, hstore⟩ := Statement.accepted (step_eq_ok.mp hstep).2.1
  have hbuilding₂ : Building platform id .entity σ₂ := hbuilding.step rfl (Or.inr rfl) hstep
  have hnone : σ₂.store.graph.evidence.rows.filter (·.entityId = id) = [] := by
    rw [hstore]
    refine List.filter_eq_nil_iff.mpr fun e he hid => ?_
    obtain ⟨row, hrow, hkey⟩ :=
      hbuilding.foreign.graph.evidence_entity.exists_parent (Table.mem_rows.mp he) rfl
    exact hbare .entity ⟨row, hrow, (Prod.mk.inj hkey).1.trans (of_decide_eq_true hid)⟩
  have hrow : ∀ e ∈ t, e.id = id → e.referenceCount = data.evidence.length := by
    intro e he hid
    rw [Table.eq_of_key_eq he (Table.mem_insert?_self ht) hid]
  have hentities : σ₂.store.graph.entities = t := by
    rw [hstore]
  refine outcome_bind (outcome_children (fun s =>
    s.graph.evidence.rows.filter (·.entityId = id)) (g := fun evidence : Evidence =>
      (⟨id, data.scopeId, evidence.memoryId, evidence.quote⟩ : EntityEvidenceRow))
    (I := fun σ => Building platform id .entity σ ∧ σ.store.graph.entities = t) ?_
    ⟨hbuilding₂, hentities⟩) fun _ m' σ₃ _ hpost => ?_
  · rintro evidence - m σ r σ' ⟨hb, heq⟩ hstep
    obtain ⟨g, ⟨-, t', ht', rfl⟩, hstore⟩ := Statement.accepted (step_eq_ok.mp hstep).2.1
    refine ⟨⟨hb.step rfl (Or.inr rfl) hstep, ?_⟩, ?_⟩
    · rw [hstore]
      exact heq
    · rw [hstore]
      change t'.rows.filter _ = _
      rw [(Table.insert?_eq_some_iff.mp ht').2]
      exact List.filter_cons_of_pos (decide_eq_true rfl)
  · obtain ⟨⟨hb, heq⟩, hlisted⟩ := hpost
    rw [hnone] at hlisted
    have hkept : Kept platform σ₃ := by
      refine hb.finish ⟨_, heq ▸ Table.mem_insert?_self ht, rfl⟩ (by simp) (fun _ e he hid => ?_)
        (by simp) (by simp) (by simp)
      rw [countP_of_listed hlisted, hrow e (heq ▸ he) hid]
    exact hkept.keeps ((sends_send ⟨rfl, rfl⟩).bind fun _ => (sends_send ⟨rfl, rfl⟩).bind
      fun _ => trivial)

/-! ## Jobs -/

/-- **A new job** gets all of its inputs. -/
theorem Kept.insertJob (h : Kept platform σ) (data : EnqueueJob) (retryOf : Option UUID)
    (intent identity : Digest) :
    Keeps platform timeline (Jobs.insertJob data retryOf intent identity) n σ := by
  unfold Jobs.insertJob
  -- what the payload says does not matter
  generalize data.memory.dump = payload
  refine outcome_read (outcome_demand (fun _ => ?_) fun _ => trivial)
  refine h.reading (readOnly_validateEvidence _ _) fun _ m h =>
    h.newObject fun id m σ₁ hbuilding hbare _ => ?_
  refine outcome_send (fun r σ₂ hstep => ?_) fun _ _ => trivial
  obtain ⟨row, q, ⟨-, t, ht, rfl⟩, hstore⟩ := Statement.accepted (step_eq_ok.mp hstep).2.1
  generalize hnew : NewJob.row _ _ _ = new at ht
  have hcounts : new.id = id ∧ new.referenceCount = data.memory.evidence.length := by
    rw [← hnew]
    exact ⟨rfl, rfl⟩
  have hbuilding₂ : Building platform id .job σ₂ := hbuilding.step rfl (Or.inr rfl) hstep
  have hnone : σ₂.store.queue.inputs.rows.filter (·.jobId = id) = [] := by
    rw [hstore]
    refine List.filter_eq_nil_iff.mpr fun i hi hid => ?_
    obtain ⟨j, hj, hkey⟩ :=
      hbuilding.foreign.queue.input_job.exists_parent (Table.mem_rows.mp hi) rfl
    exact hbare .job ⟨j, hj, (Prod.mk.inj hkey).1.trans (of_decide_eq_true hid)⟩
  have hrow : ∀ j ∈ t, j.id = id → j.referenceCount = data.memory.evidence.length := by
    intro j hj hid
    rw [Table.eq_of_key_eq hj (Table.mem_insert?_self ht) (hid.trans hcounts.1.symm)]
    exact hcounts.2
  have hjobs : σ₂.store.queue.jobs = t := by
    rw [hstore]
  refine outcome_bind (outcome_children (fun s =>
    s.queue.inputs.rows.filter (·.jobId = id)) (g := fun evidence : Evidence =>
      (⟨id, data.memory.scopeId, evidence.memoryId⟩ : JobInputRow))
    (I := fun σ => Building platform id .job σ ∧ σ.store.queue.jobs = t) ?_
    ⟨hbuilding₂, hjobs⟩) fun _ m' σ₃ _ hpost => ?_
  · rintro evidence - m σ r σ' ⟨hb, heq⟩ hstep
    obtain ⟨row', q, ⟨-, t', ht', rfl⟩, hstore⟩ := Statement.accepted (step_eq_ok.mp hstep).2.1
    refine ⟨⟨hb.step rfl (Or.inr rfl) hstep, ?_⟩, ?_⟩
    · rw [hstore]
      exact heq
    · rw [hstore]
      change t'.rows.filter _ = _
      rw [(Table.insert?_eq_some_iff.mp ht').2]
      exact List.filter_cons_of_pos (decide_eq_true rfl)
  · obtain ⟨⟨hb, heq⟩, hlisted⟩ := hpost
    rw [hnone] at hlisted
    have hkept : Kept platform σ₃ := by
      refine hb.finish ⟨new, heq ▸ Table.mem_insert?_self ht, hcounts.1⟩ (by simp) (by simp)
        (fun _ j hj hid => ?_) (by simp) (by simp)
      rw [countP_of_listed hlisted, hrow j (heq ▸ hj) hid]
    exact hkept.keeps ((readOnly_read _).sends.bind fun _ => (sends_send ⟨rfl, rfl⟩).bind
      fun _ => (sends_send ⟨rfl, rfl⟩).bind fun _ => trivial)

theorem Kept.enqueue (h : Kept platform σ) (data : EnqueueJob) (key : String)
    (retryOf : Option UUID) :
    Keeps platform timeline (Jobs.enqueue platform data key retryOf) n σ := by
  refine h.reading (readOnly_scope _ _) fun _ m h => h.once
    (fun _ => readOnly_pure _) fun kd rd m => ?_
  have hadmit : Keeps platform timeline (Jobs.admitJob platform data retryOf) m σ := by
    refine outcome_digest (h.reading (readOnly_checkRetry _ _) fun _ m h =>
      outcome_digest (outcome_read ?_))
    split
    · exact h.keeps ((readOnly_jobLoad _ _ _).sends.bind fun _ => trivial)
    · exact h.insertJob data retryOf _ _
  exact keeps_bind hadmit fun _ m σ' h' =>
    h'.keeps ((sends_send ⟨rfl, rfl⟩).bind fun _ => trivial)

/-- An update builds nothing. -/
theorem buildsNothing_update (id : UUID) (change : JobChange) :
    Sends BuildsNothing (Jobs.update id change) := sends_update ⟨rfl, rfl⟩

theorem Kept.cancel (h : Kept platform σ) (jobId : UUID) (data : CancelJob) (key : String) :
    Keeps platform timeline (Jobs.cancel platform jobId data key) n σ := by
  refine outcome_read (h.reading (readOnly_jobLoad _ _ _) fun job m h =>
    outcome_demand (fun _ => h.once (fun _ => readOnly_pure _) fun kd rd m => ?_) fun _ => trivial)
  exact h.keeps ((buildsNothing_update _ _).bind fun _ => (readOnly_demand _ _).sends.bind fun _ =>
    (sends_send ⟨rfl, rfl⟩).bind fun _ => (sends_send ⟨rfl, rfl⟩).bind fun _ => trivial)

theorem Kept.claim (h : Kept platform σ) (leaseSeconds : Nat) :
    Keeps platform timeline (Jobs.claim leaseSeconds) n σ := by
  refine h.keeps ?_
  unfold Jobs.claim
  split
  · refine (readOnly_readAt _).sends.bind fun row => ?_
    split
    · trivial
    · refine (readOnly_jobLoad _ _ _).sends.bind fun job => ?_
      split
      · exact (buildsNothing_update _ _).bind fun _ => (sends_send ⟨rfl, rfl⟩).bind fun _ => trivial
      · exact (buildsNothing_update _ _).bind fun _ => (readOnly_found _ _).sends.bind fun _ =>
          (sends_send ⟨rfl, rfl⟩).bind fun _ => trivial
  · trivial

theorem Kept.heartbeat (h : Kept platform σ) (jobId token : UUID) :
    Keeps platform timeline (Jobs.heartbeat jobId token) n σ :=
  h.keeps ((readOnly_lease _ _ _).sends.bind fun _ => (buildsNothing_update _ _).bind
    fun _ => trivial)

theorem Kept.fail (h : Kept platform σ) (jobId token : UUID) (code : JobError) (retry : Bool) :
    Keeps platform timeline (Jobs.fail jobId token code retry) n σ :=
  h.keeps ((readOnly_lease _ _ _).sends.bind fun _ => (buildsNothing_update _ _).bind fun _ =>
    (sends_send ⟨rfl, rfl⟩).bind fun _ => trivial)

/-! ## Checkpoints -/

/-- Collecting keeps what each pass keeps of its element. -/
theorem outcome_forCollect_map {α β γ : Type} {f : α → Tx β} {g : α → γ} {g' : β → γ}
    (h : ∀ x m, Outcome platform timeline (f x) (fun b _ σ' => σ' = σ ∧ g' b = g x)
      (fun _ => True) m σ) (xs : List α) :
    Outcome platform timeline (forCollect f xs) (fun bs _ σ' => σ' = σ ∧ bs.map g' = xs.map g)
      (fun _ => True) n σ := by
  induction xs generalizing n with
  | nil => exact ⟨rfl, rfl⟩
  | cons x xs ih =>
    refine outcome_bind (h x n) ?_
    rintro b m σ' - ⟨rfl, hb⟩
    refine outcome_bind ih ?_
    rintro bs m' σ'' - ⟨rfl, hbs⟩
    exact outcome_pure ⟨rfl, List.cons_eq_cons.mpr ⟨hb, hbs⟩⟩

/-- References are ordered by id, then by revision. -/
instance : Std.Total refBefore where
  total a b := by
    rcases lt_trichotomy a.1 b.1 with h | h | h
    · exact Or.inl (Or.inl h)
    · exact (Nat.le_total a.2 b.2).imp (fun hle => Or.inr ⟨h, hle⟩) fun hle => Or.inr ⟨h.symm, hle⟩
    · exact Or.inr (Or.inl h)

instance : IsTrans (UUID × Nat) refBefore where
  trans a b c h h' := by
    rcases h with h | ⟨h, hle⟩
    · exact Or.inl (h'.elim (lt_trans h) fun h' => h'.1 ▸ h)
    · exact h'.elim (fun h' => Or.inl (h ▸ h')) fun h' =>
        Or.inr ⟨h.trans h'.1, Nat.le_trans hle h'.2⟩

instance : Std.Total MemoryReference.before where
  total a b := Std.Total.total (r := refBefore) (a.memoryId, a.revision.val) (b.memoryId, b.revision.val)

instance : IsTrans MemoryReference MemoryReference.before where
  trans a b c h h' := IsTrans.trans (r := refBefore) (a.memoryId, a.revision.val)
    (b.memoryId, b.revision.val) (c.memoryId, c.revision.val) h h'

/-- A reference as a payload lists it. -/
def ValidatedReference.pair (ref : ValidatedReference) : UUID × Nat := (ref.memoryId, ref.revision)

/-- **Validated references** are listed in order. -/
theorem outcome_validateRefs (scopeId : UUID) (refs : List MemoryReference) (errorCode : ErrorCode) :
    Outcome platform timeline (validateRefs scopeId refs errorCode)
      (fun found _ σ' => σ' = σ ∧ (found.map ValidatedReference.pair).Pairwise refBefore)
      (fun _ => True) n σ := by
  have hone : ∀ (ref : MemoryReference) m, Outcome platform timeline
      (validateRef scopeId errorCode ref)
      (fun b _ σ' => σ' = σ ∧ b.pair = (ref.memoryId, ref.revision.val)) (fun _ => True) m σ := by
    intro ref m
    refine outcome_bind (outcome_readOnly (readOnly_object _ _) fun _ => trivial) ?_
    rintro obj m' σ' - rfl
    refine outcome_demand (fun _ => ?_) fun _ => trivial
    split
    · exact outcome_read (outcome_demand (fun _ => outcome_pure ⟨rfl, rfl⟩) fun _ => trivial)
    · exact outcome_demand (fun _ => outcome_pure ⟨rfl, rfl⟩) fun _ => trivial
  refine (outcome_forCollect_map hone _).mono ?_ fun _ h => h
  rintro found m σ' - ⟨rfl, hfound⟩
  refine ⟨rfl, ?_⟩
  have hsorted : (refs.insertionSort MemoryReference.before).Pairwise MemoryReference.before :=
    List.pairwise_insertionSort _ _
  rw [hfound, List.pairwise_map]
  exact hsorted

/-- References in order are what the table lists, whatever the order of its rows. -/
theorem refsOf_eq {k : Checkpointing} {id : UUID} {refs : List (UUID × Nat)}
    (hsorted : refs.Pairwise refBefore)
    (hrows : ((k.references.rows.filter (·.checkpointId = id)).map fun r =>
      (r.sourceId, r.sourceRevision)).Perm refs) : k.refsOf id = refs := by
  have hanti : ∀ a b, a ∈ k.refsOf id → b ∈ refs → refBefore a b → refBefore b a → a = b := by
    rintro ⟨a, n⟩ ⟨b, m⟩ - - h h'
    rcases h with h | ⟨h, hle⟩
    · rcases h' with h' | ⟨h', -⟩
      · exact absurd h (lt_asymm h')
      · exact absurd h (h' ▸ lt_irrefl _)
    · rcases h' with h' | ⟨-, hle'⟩
      · exact absurd h' (h ▸ lt_irrefl _)
      · exact Prod.ext h (Nat.le_antisymm hle hle')
  exact List.Perm.eq_of_pairwise hanti (List.pairwise_insertionSort _ _) hsorted
    ((List.perm_insertionSort _ _).trans hrows)

/-- The run of a request, of its harness. -/
def OfHarness (s : Store) (data : CreateCheckpoint) : Prop :=
  ∃ n ∈ s.checkpointing.runs, (n.scopeId, n.runId) = (data.scopeId, data.runId)
    ∧ n.harnessId = data.harnessId ∧ n.harnessVersion = data.harnessVersion

/-- **A new checkpoint** gets all of its references, and the checksum of what a load reads. -/
theorem Kept.insertCheckpoint (h : Kept platform σ) (data : CreateCheckpoint) (sequence : Nat)
    (parentId : Option UUID) (hrun : OfHarness σ.store data) :
    Keeps platform timeline (Checkpoints.insert platform data sequence parentId) n σ := by
  refine outcome_bind (outcome_validateRefs _ _ _) ?_
  rintro refs m σ' - ⟨rfl, hsorted⟩
  refine outcome_read (h.newObject fun id m₁ σ₁ hbuilding hbare hsame => ?_)
  have hrun₁ : OfHarness σ₁.store data := by
    obtain ⟨t, heq⟩ := hsame
    rw [heq]
    exact hrun
  -- the text that is signed is not looked into
  generalize hpayload : CheckpointPayload.mk id _ _ _ _ _ _ _ _ _ _ _ _ = payload
  refine outcome_digest ?_
  generalize hsum : σ₁.store.digest platform payload.text = sum
  refine outcome_send (fun r σ₂ hstep => ?_) fun _ _ => trivial
  obtain ⟨inserted, k, ⟨-, t, branch, ⟨-, ht⟩, rfl⟩, hstore⟩ :=
    Statement.accepted (step_eq_ok.mp hstep).2.1
  have hbuilding₂ : Building platform id .checkpoint σ₂ := hbuilding.step rfl (Or.inr rfl) hstep
  have hnone : σ₂.store.checkpointing.references.rows.filter (·.checkpointId = id) = [] := by
    rw [hstore]
    refine List.filter_eq_nil_iff.mpr fun ref href hid => ?_
    obtain ⟨c, hc, hkey⟩ :=
      hbuilding.foreign.checkpoint.reference_checkpoint.exists_parent (Table.mem_rows.mp href) rfl
    exact hbare .checkpoint ⟨c, hc, (Prod.mk.inj hkey).1.trans (of_decide_eq_true hid)⟩
  have hframe₂ : (σ₂.store.checkpointing.checkpoints = t ∧ OfHarness σ₂.store data)
      ∧ σ₂.store.access = σ₁.store.access := by
    rw [hstore]
    exact ⟨⟨rfl, hrun₁⟩, rfl⟩
  refine outcome_bind (outcome_children (fun s =>
    s.checkpointing.references.rows.filter (·.checkpointId = id)) (g := fun ref : ValidatedReference =>
      (⟨id, data.scopeId, ref.memoryId, ref.revision, ref.kind⟩ : CheckpointReferenceRow))
    (I := fun σ => Building platform id .checkpoint σ
      ∧ (σ.store.checkpointing.checkpoints = t ∧ OfHarness σ.store data)
        ∧ σ.store.access = σ₁.store.access) ?_ ⟨hbuilding₂, hframe₂⟩) fun _ m' σ₃ _ hpost => ?_
  · rintro ref - m σ r σ' ⟨hb, hframe⟩ hstep
    obtain ⟨inserted, k, ⟨-, t', ht', rfl⟩, hstore⟩ := Statement.accepted (step_eq_ok.mp hstep).2.1
    refine ⟨⟨hb.step rfl (Or.inr rfl) hstep, ?_⟩, ?_⟩
    · rw [hstore]
      exact hframe
    · rw [hstore]
      change t'.rows.filter _ = _
      rw [(Table.insert?_eq_some_iff.mp ht').2]
      exact List.filter_cons_of_pos (decide_eq_true rfl)
  · obtain ⟨⟨hb, ⟨heq, run, hmem, hkey, hharness, hversion⟩, haccess⟩, hlisted⟩ := hpost
    rw [hnone, List.append_nil] at hlisted
    have hrefs : σ₃.store.checkpointing.refsOf id = refs.map ValidatedReference.pair := by
      refine refsOf_eq hsorted ?_
      rw [hlisted, ← List.map_reverse, List.map_map]
      exact (List.reverse_perm refs).map _
    have hkept : Kept platform σ₃ := by
      refine hb.finish ⟨_, heq ▸ Table.mem_insert?_self ht, rfl⟩ (by simp) (by simp) (by simp)
        (fun _ c hc hid => ?_) (by simp)
      rw [hrefs]
      obtain rfl := Table.eq_of_key_eq (heq ▸ hc : c ∈ t) (Table.mem_insert?_self ht) hid
      refine ⟨List.length_map _, ?_, run, hmem, hkey, ?_⟩
      · change (CheckpointState.validate data.state.dump).isSome = true
        rw [CheckpointState.validate_dump]
        rfl
      · change sum = _
        rw [← hsum, ← hpayload, Store.digest, Store.digest, haccess]
        refine congrArg (fun p : CheckpointPayload => platform.hmac _ p.text) ?_
        rw [← hharness, ← hversion]
        rfl
    exact hkept.keeps ((sends_send ⟨rfl, rfl⟩).bind fun _ => trivial)

/-- Runs stay, with their harness. -/
theorem OfHarness.step {data : CreateCheckpoint} {st : Statement} {m : Moment} {r : Returned}
    {σ' : Session} (h : OfHarness σ.store data) (hquiet : st.quiet = true)
    (hstep : step platform st m σ = .ok (r, σ')) : OfHarness σ'.store data := by
  obtain ⟨n, hn, hrun⟩ := h
  rcases (Statement.accepted (step_eq_ok.mp hstep).2.1).checkpointing_cases hquiet with
    hsame | ⟨st', inserted, -, haccepted⟩
  · exact ⟨n, hsame ▸ hn, hrun⟩
  refine ⟨n, ?_, hrun⟩
  generalize σ'.store.checkpointing = k at haccepted
  cases st' with
  | insertRun scope run harnessId harnessVersion =>
    obtain ⟨-, ⟨-, rfl⟩ | ⟨-, t, ht, rfl⟩⟩ := haccepted
    · exact hn
    · exact (Table.mem_insert? ht).mpr (Or.inr hn)
  | insertBranch scope run branch returning =>
    obtain ⟨-, ⟨-, rfl⟩ | ⟨-, t, -, rfl⟩⟩ := haccepted <;> exact hn
  | insertCheckpoint new =>
    obtain ⟨-, t, branch, -, rfl⟩ := haccepted
    exact hn
  | insertReference row =>
    obtain ⟨-, t, -, rfl⟩ := haccepted
    exact hn

/-- A part that builds nothing, before a checkpoint is inserted. -/
theorem Kept.before {α β : Type} {p : Tx α} {k : α → Tx β} {data : CreateCheckpoint}
    (h : Kept platform σ) (hrun : OfHarness σ.store data) (hp : Sends BuildsNothing p)
    (hk : ∀ a m σ', Kept platform σ' → OfHarness σ'.store data →
      Keeps platform timeline (k a) m σ') : Keeps platform timeline (p >>= k) n σ := by
  have hboth : Outcome platform timeline p (fun _ _ σ' => Kept platform σ' ∧ OfHarness σ'.store data)
      (fun _ => True) n σ :=
    hp.yields (I := fun σ => Kept platform σ ∧ OfHarness σ.store data) ⟨h, hrun⟩
      fun _ _ _ _ _ hst hI hstep => ⟨hI.1.step hst hstep, hI.2.step hst.1 hstep⟩
  exact outcome_bind hboth fun a m σ' _ hpost => hk a m σ' hpost.1 hpost.2

theorem Kept.createCheckpoint (h : Kept platform σ) (data : CreateCheckpoint) (key : String) :
    Keeps platform timeline (Checkpoints.create platform data key) n σ := by
  refine h.reading (readOnly_scope _ _) fun _ m h => h.once
    (fun _ => readOnly_checkpointReplayed platform _) fun kd rd m => ?_
  have hensure : Outcome platform timeline (Checkpoints.ensureRun data)
      (fun _ _ σ' => Kept platform σ' ∧ OfHarness σ'.store data) (fun _ => True) m σ := by
    refine outcome_send (fun r σ₁ hstep => outcome_read (outcome_demand (fun _ => ?_)
      fun _ => trivial)) fun _ _ => trivial
    cases hfound : (σ₁.view (timeline.moment (m + 1))).run? data.scopeId data.runId with
    | none => exact trivial
    | some run =>
      rw [Option.any_some]
      cases hharness : decide (run.harnessId = data.harnessId)
          && decide (run.harnessVersion = data.harnessVersion) with
      | false => exact trivial
      | true =>
        obtain ⟨hmem, hkey, -⟩ := View.run?_eq_some.mp hfound
        rw [Bool.and_eq_true, decide_eq_true_eq, decide_eq_true_eq] at hharness
        exact ⟨h.step ⟨rfl, rfl⟩ hstep, run, hmem, hkey, hharness⟩
  refine outcome_bind hensure fun _ m₁ σ₁ _ ⟨h₁, hrun₁⟩ => ?_
  refine h₁.before hrun₁ (sends_send ⟨rfl, rfl⟩) fun _ m₂ σ₂ h₂ hrun₂ => ?_
  refine outcome_read (outcome_found (fun branch _ => ?_) fun _ => trivial)
  refine outcome_demand (fun _ => outcome_demand (fun _ => ?_) fun _ => trivial) fun _ => trivial
  have hinsert : ∀ m, Keeps platform timeline (Checkpoints.insert platform data
      (branch.sequence + 1) data.expectedHead >>= fun result => saveResult .checkpoint kd rd result
        >>= fun _ => pure result) m σ₂ := fun m =>
    keeps_bind (h₂.insertCheckpoint data _ _ hrun₂) fun _ _ _ h' =>
      h'.keeps ((sends_send ⟨rfl, rfl⟩).bind fun _ => trivial)
  split
  next => exact hinsert _
  next parentId _ =>
    refine h₂.reading (readOnly_checkpointLoad platform _ _) fun parent m _ => ?_
    exact outcome_demand (fun _ => hinsert m) fun _ => trivial

/-- A fork is of the harness of its run. -/
theorem Loaded.ofHarness {s : Store} {id : UUID} {saved : SavedCheckpoint} (h : Loaded s id saved)
    {data : RestoreCheckpoint} {fork : CreateCheckpoint} (hfork : data.fork? saved = some fork)
    (hharness : saved.payload.harnessId = data.harnessId)
    (hversion : saved.payload.harnessVersion = data.harnessVersion) : OfHarness s fork := by
  obtain ⟨refs, -, hbody⟩ := Option.bind_eq_some_iff.mp hfork
  split at hbody
  · cases hbody
    obtain ⟨c, hc, run, hrun, refs', -, hkey, -, hpayload, -⟩ := h
    have hscope : (c.scopeId, c.runId) = (saved.payload.scopeId, saved.payload.runId) := by
      rw [hpayload]
      rfl
    have hrunHarness : run.harnessId = saved.payload.harnessId := by
      rw [hpayload]
      rfl
    have hrunVersion : run.harnessVersion = saved.payload.harnessVersion := by
      rw [hpayload]
      rfl
    exact ⟨run, hrun, hkey.trans hscope, hrunHarness.trans hharness, hrunVersion.trans hversion⟩
  · cases hbody

theorem Kept.restore (h : Kept platform σ) (data : RestoreCheckpoint) (key : String) :
    Keeps platform timeline (Checkpoints.restore platform data key) n σ := by
  refine outcome_bind (outcome_checkpointLoad _ _) ?_
  rintro saved m σ' - ⟨rfl, hloaded, -⟩
  refine h.once (fun _ => readOnly_receiptEnvelope platform _) fun kd rd m => ?_
  refine outcome_demand (fun hcompatible => ?_) fun _ => trivial
  rw [Bool.and_eq_true, decide_eq_true_eq, decide_eq_true_eq] at hcompatible
  cases hfork : data.fork? saved with
  | none =>
    refine outcome_any_bind fun _ _ _ => outcome_any_bind fun _ _ _ => outcome_any_bind fun _ _ _ => ?_
    exact outcome_raise trivial
  | some fork =>
    refine h.before (hloaded.ofHarness hfork hcompatible.1 hcompatible.2) ?_
      fun inserted m₁ σ₁ h₁ hrun₁ => ?_
    · exact ⟨⟨rfl, rfl⟩, fun _ => trivial⟩
    refine h₁.before hrun₁ (readOnly_demand _ _).sends fun _ m₂ σ₂ h₂ hrun₂ => ?_
    have hfence : Sends BuildsNothing
        (ToolEffects.fenceRestore saved.payload.scopeId saved.payload.runId) := by
      refine (readOnly_listRun _ _).sends.bind fun effects => sends_forEach fun effect _ => ?_
      split
      · exact (buildsNothing_append _).bind fun _ => trivial
      · trivial
    refine h₂.before hrun₂ hfence fun _ m₃ σ₃ h₃ hrun₃ => ?_
    refine keeps_bind (h₃.insertCheckpoint fork _ _ hrun₃) fun result m₄ σ₄ h₄ => h₄.keeps ?_
    exact (sends_send ⟨rfl, rfl⟩).bind fun _ => (readOnly_found _ _).sends.bind fun _ =>
      (sends_send ⟨rfl, rfl⟩).bind fun _ => (readOnly_envelope platform _).sends

end Operations

end PgAgmemory

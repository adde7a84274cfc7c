import PgAgmemory.History.Lineage

/-! # Checkpoint lineage

What any run leaves of checkpoints: live branches with their whole lineage, parents that are older and
never ahead. What any event does to them: it changes no checkpoint, moves a head only by appending its
successors, and leaves an invalidated branch as it is; a restore leaves every branch as it is. -/

namespace PgAgmemory

open Keyed (HasKey Table key)
open Interactive (Program)
open Interactive.Program (ReadOnly Sends)
open MemoryService

/-! ## Events -/

/-- **What an event does to checkpoints**: rows stay as they are, and a branch is appended to or
invalidated. -/
structure Checkpointing.Evolved (k k' : Checkpointing) : Prop where
  unchanged : ∀ c ∈ k.checkpoints, ∀ c' ∈ k'.checkpoints, c'.id = c.id → c' = c
  branches : ∀ b ∈ k.branches, ∃ b' ∈ k'.branches,
    Relation.ReflTransGen (Appends k') b b' ∨ b' = { b with invalidated := true }

theorem Checkpointing.Advanced.evolved {k k' : Checkpointing} (h : k.Advanced k') : k.Evolved k' where
  unchanged c hc c' hc' hid := Table.eq_of_key_eq hc' (h.kept c hc) hid
  branches b hb := by
    obtain ⟨b', hb', happends⟩ := h.branches b hb
    exact ⟨b', hb', Or.inl happends⟩

theorem Purged.evolved {s s' : Store} {gone : Gone} (h : Purged s s' gone) :
    s.checkpointing.Evolved s'.checkpointing := by
  rw [h.checkpointing]
  refine ⟨fun c hc c' hc' hid => Table.eq_of_key_eq (Table.mem_delete.mp hc').1 hc hid,
    fun b hb => ⟨_, Store.mem_erase_branches.mpr ⟨b, hb, rfl⟩, ?_⟩⟩
  split
  · exact Or.inr rfl
  · exact Or.inl .refl

/-- **Every event evolves checkpoints.** -/
theorem Sound.evolved {platform : Platform} {s : Store} (hs : Sound s) (e : Event) :
    s.checkpointing.Evolved (e.exec platform s).checkpointing := by
  refine Sound.transition (T := fun s s' => s.checkpointing.Advanced s'.checkpointing)
    (R := fun s s' => s.checkpointing.Evolved s'.checkpointing) (fun s => .refl _) ?_
    (fun _ _ h => h.evolved) (fun _ _ _ _ hp => hp.evolved) (fun s _ => (Checkpointing.Advanced.refl _).evolved) hs e
  intro c st m σ r σ' _ _ _ _ hadvanced hallow hstep
  have haccepted := st.accepted (step_eq_ok.mp hstep).2.1
  rcases haccepted.checkpointing_cases hallow.quiet with hsame | ⟨st', inserted, -, hcheckpoint⟩
  · rw [hsame]
    exact hadvanced
  · exact hadvanced.trans hcheckpoint.advanced

/-! ## Restores -/

/-- A statement that appends to one branch only. -/
def AppendsTo (target : UUID × UUID × UUID) (st : Statement) : Prop :=
  ∀ n, st = .checkpoint (.insertCheckpoint n) → (n.scopeId, n.runId, n.branchId) = target

/-- A fork appends to the target branch only. -/
theorem sends_forkOnce (platform : Platform) (data : RestoreCheckpoint) (saved : SavedCheckpoint)
    (keyDigest requestDigest : Digest) :
    Sends (AppendsTo (saved.payload.scopeId, saved.payload.runId, data.targetBranchId))
      (Checkpoints.forkOnce platform data saved keyDigest requestDigest) := by
  refine (readOnly_demand _ _).sends.bind fun _ => Sends.bind ⟨fun n hn => ?_, fun _ => trivial⟩
    fun inserted => (readOnly_demand _ _).sends.bind fun _ => ?_
  · cases hn
  refine ((sends_fenceRestore _ _).mono fun st hst n hn => ?_).bind fun _ => ?_
  · subst hn
    exact hst.elim
  split
  next => trivial
  next fork hfork =>
    refine (sends_forkRest platform fork _ keyDigest requestDigest).mono fun st hst n hn => ?_
    subst hn
    exact Eq.trans hst (RestoreCheckpoint.fork_branch hfork)

/-- Statements that append to one branch leave the others as they are. -/
theorem Writes.keeps_branches {c : Setting} {σ σ' : Session} {st : Statement} {m : Moment}
    {r : Returned} {target : UUID × UUID × UUID} (hallow : Writes c σ st)
    (hst : AppendsTo target st) (hstep : step c.platform st m σ = .ok (r, σ'))
    {b : CheckpointBranchRow} (hb : b ∈ σ.store.checkpointing.branches) (hne : key b ≠ target) :
    b ∈ σ'.store.checkpointing.branches := by
  have haccepted := st.accepted (step_eq_ok.mp hstep).2.1
  rcases haccepted.checkpointing_cases hallow.quiet with hsame | ⟨st', inserted, rfl, hcheckpoint⟩
  · rw [hsame]
    exact hb
  generalize σ'.store.checkpointing = k at hcheckpoint
  cases st' with
  | insertRun scope run harnessId harnessVersion =>
    obtain ⟨-, ⟨-, rfl⟩ | ⟨-, t, -, rfl⟩⟩ := hcheckpoint
    · exact hb
    · exact hb
  | insertBranch scope run branch returning =>
    obtain ⟨-, ⟨-, rfl⟩ | ⟨-, t, ht, rfl⟩⟩ := hcheckpoint
    · exact hb
    · exact (Table.mem_insert? ht).mpr (Or.inr hb)
  | insertCheckpoint n =>
    obtain ⟨-, t, branch, ⟨hadopts, ht⟩, rfl⟩ := hcheckpoint
    refine mem_appendHead.mpr ⟨b, hb, if_neg fun heq => hne (heq.trans (hst n rfl))⟩
  | insertReference r =>
    obtain ⟨-, t, -, rfl⟩ := hcheckpoint
    exact hb

section Restore

variable {c : Setting} {n : Nat} {σ : Session}

/-- **A restore leaves all branches as they are.** -/
theorem does_restore_branches (h : Underway c σ) (data : RestoreCheckpoint) (key : String) :
    Does c (Checkpoints.restore c.platform data key)
      (fun _ σ' => ∀ b ∈ σ.store.checkpointing.branches, b ∈ σ'.store.checkpointing.branches) n σ := by
  refine does_readOnly_bind (readOnly_checkpointLoad c.platform _ _) fun saved n₀ => ?_
  refine does_once h (fun result n₁ _ => ?_) fun n₁ => ?_
  · exact (does_readOnly (readOnly_receiptEnvelope c.platform result)).mono fun _ _ _ heq b hb =>
      heq ▸ hb
  · refine ((does_forkOnce h data saved key).sending (sends_forkOnce c.platform data saved _ _)
      (I := fun σ' => ∀ b ∈ σ.store.checkpointing.branches, HasKey.key b
        ≠ (saved.payload.scopeId, saved.payload.runId, data.targetBranchId) →
          b ∈ σ'.store.checkpointing.branches) (fun b hb _ => hb) ?_).mono ?_
    · exact fun st m σ r σ' hallow hst hI hstep b hb hne =>
        hallow.keeps_branches hst hstep (hI b hb hne) hne
    · rintro _ σ' - ⟨⟨-, hnew⟩, hkept⟩ b hb
      exact hkept b hb (hnew b hb)

end Restore

/-- A restore that commits leaves all branches as they are. -/
theorem Sound.restore_branches {platform : Platform} {s : Store} (hs : Sound s) (timeline : Timeline)
    (principal : UUID) (data : RestoreCheckpoint) (key : String) {b : CheckpointBranchRow}
    (hb : b ∈ s.checkpointing.branches) :
    b ∈ (Call.exec platform ⟨principal, timeline, .restoreCheckpoint data key⟩ s).2.checkpointing.branches := by
  let call : Call := ⟨principal, timeline, .restoreCheckpoint data key⟩
  have hstart : Underway (call.setting platform s) (.start principal s) :=
    .start (c := call.setting platform s) hs.integrity.foreign principal
  have hdoes : Does (call.setting platform s) (call.request.program platform)
      (fun _ σ' => ∀ b ∈ s.checkpointing.branches, b ∈ σ'.store.checkpointing.branches) 0
      (.start principal s) := by
    refine does_readOnly_bind readOnly_bindIdentity fun _ n₀ => ?_
    exact (does_respond (does_restore_branches hstart data key)).mono fun _ _ _ ⟨_, _, hkept⟩ => hkept
  rcases call.exec_cases platform s with ⟨fault, h⟩ | ⟨response, s', hok, h⟩
  · rw [h]
    exact hb
  · rw [h]
    obtain ⟨n, σ, hrun, hcommit⟩ := attempt_eq_ok.mp hok
    obtain ⟨-, hkept⟩ := hdoes.of_run hrun
    exact (commit_eq_ok.mp hcommit).2 ▸ hkept b hb

/-! ## The guarantee -/

/-- The parent of a checkpoint. -/
def Checkpointing.Parent (k : Checkpointing) (c p : CheckpointRow) : Prop :=
  c ∈ k.checkpoints ∧ p ∈ k.checkpoints ∧ c.parentId = some p.id

/-- Ancestors are older, and not ahead. -/
theorem Checkpointing.Linked.ancestor {k : Checkpointing} (h : k.Linked) {c p : CheckpointRow}
    (hcp : Relation.TransGen k.Parent c p) :
    p.ordinal < c.ordinal ∧ p.eventWatermark ≤ c.eventWatermark := by
  induction hcp with
  | single hlink => exact h _ hlink.1 _ hlink.2.1 hlink.2.2
  | tail _ hlink ih =>
    have hstep := h _ hlink.1 _ hlink.2.1 hlink.2.2
    exact ⟨Nat.lt_trans hstep.1 ih.1, Nat.le_trans hstep.2 ih.2⟩

/-- **The checkpoints of a store**, as its readers see them. -/
structure CheckpointLineage (k : Checkpointing) : Prop where
  chain : ∀ b ∈ k.branches, b.invalidated = false → ∀ n, 1 ≤ n → n ≤ b.sequence →
    ∃! c, c ∈ k.checkpoints ∧ c.OnBranch b ∧ c.sequence = n
  head : ∀ b ∈ k.branches, b.invalidated = false → 0 < b.sequence →
    ∃ c ∈ k.checkpoints, c.OnBranch b ∧ c.sequence = b.sequence ∧ b.headId = some c.id
  parent : ∀ b ∈ k.branches, b.invalidated = false → ∀ c ∈ k.checkpoints, c.OnBranch b →
    1 < c.sequence → ∃ p ∈ k.checkpoints, p.OnBranch b ∧ c.sequence = p.sequence + 1
      ∧ c.parentId = some p.id
  root : ∀ b ∈ k.branches, b.invalidated = false → ∀ c ∈ k.checkpoints, c.OnBranch b →
    c.sequence = 1 → c.parentId = none ∨ ∃ p ∈ k.checkpoints, c.parentId = some p.id
      ∧ p.scopeId = c.scopeId ∧ p.runId = c.runId ∧ p.branchId ≠ c.branchId
  watermark : ∀ c p, Relation.TransGen k.Parent c p → p.eventWatermark ≤ c.eventWatermark
  acyclic : ∀ c, ¬ Relation.TransGen k.Parent c c

/-- Lineages, as readers see them. -/
theorem Checkpointing.Lined.checkpointLineage {s : Store} (h : s.checkpointing.Lined)
    (hintegrity : Integrity s) : CheckpointLineage s.checkpointing where
  chain b hb hlive n hone hn := by
    obtain ⟨c, hc, hon, hsequence⟩ := ((h.lineage b hb hlive).numbered n).mpr ⟨hone, hn⟩
    refine ⟨c, ⟨hc, hon, hsequence⟩, fun c' ⟨hc', hon', hsequence'⟩ => ?_⟩
    -- the sequence is unique on its branch
    have hkey : ∀ x : CheckpointRow, x.OnBranch b → x.sequence = n →
        (x.scopeId, x.runId, x.branchId, x.sequence) = (b.scopeId, b.runId, b.branchId, n) := by
      rintro x hx rfl
      obtain ⟨hscope, hrest⟩ := Prod.mk.inj hx
      obtain ⟨hrun, hbranch⟩ := Prod.mk.inj hrest
      rw [hscope, hrun, hbranch]
    exact List.inj_on_of_nodup_map hintegrity.unique.checkpoint_sequence hc' hc
      ((hkey c' hon' hsequence').trans (hkey c hon hsequence).symm)
  head b hb hlive hpos := (h.lineage b hb hlive).exists_head hpos
  parent b hb hlive c hc hon hlater := by
    have hlineage := h.lineage b hb hlive
    have hbounds := hlineage.bounds hc hon
    obtain ⟨p, hp, hpon, hsequence⟩ := (hlineage.numbered (c.sequence - 1)).mpr (by omega)
    exact ⟨p, hp, hpon, by omega, hlineage.parent c hc hon p hp hpon (by omega)⟩
  root b hb hlive c hc hon hone := by
    cases hparent : c.parentId with
    | none => exact Or.inl rfl
    | some id =>
      obtain ⟨p, hp, hkey⟩ := hintegrity.foreign.checkpoint.checkpoint_parent.exists_parent hc
        (by rw [hparent]; rfl)
      obtain ⟨hid, hkey⟩ := Prod.mk.inj hkey
      obtain ⟨hscope, hrun⟩ := Prod.mk.inj hkey
      have hlink : c.parentId = some p.id := by rw [hparent, hid]
      refine Or.inr ⟨p, hp, hparent ▸ hlink, hscope, hrun, fun hbranch => ?_⟩
      refine (h.lineage b hb hlive).root c hc hon hone p hp hlink ?_
      unfold CheckpointRow.OnBranch at hon ⊢
      rw [hscope, hrun, hbranch]
      exact hon
  watermark c p hcp := (h.linked.ancestor hcp).2
  acyclic c hcc := Nat.lt_irrefl _ (h.linked.ancestor hcc).1

/-- An invalidated branch stays as it is, over any event. -/
theorem Checkpointing.Evolved.invalidated {k k' : Checkpointing} (h : k.Evolved k')
    {b : CheckpointBranchRow} (hb : b ∈ k.branches) (hdead : b.invalidated = true) :
    b ∈ k'.branches := by
  obtain ⟨b', hb', happends | rfl⟩ := h.branches b hb
  · rcases Relation.ReflTransGen.cases_head happends with rfl | ⟨_, ⟨hlive, -⟩, -⟩
    · exact hb'
    · rw [hdead] at hlive
      cases hlive
  · cases b
    cases hdead
    exact hb'

/-- **Checkpoint lineage**: in every reachable store live branches have their whole lineage; any event
leaves every checkpoint row as it is and moves heads only by appending; an invalidated branch stays as
it is over any run, and every branch over a restore. -/
theorem checkpoint_lineage {platform : Platform} {s : Store} (h : Reachable platform s) :
    CheckpointLineage s.checkpointing
      ∧ (∀ e : Event, s.checkpointing.Evolved (e.exec platform s).checkpointing)
      ∧ (∀ b ∈ s.checkpointing.branches, b.invalidated = true → ∀ events,
        b ∈ (runEvents platform events s).checkpointing.branches)
      ∧ ∀ timeline principal data key, ∀ b ∈ s.checkpointing.branches,
        b ∈ (Call.exec platform ⟨principal, timeline, .restoreCheckpoint data key⟩ s).2.checkpointing.branches := by
  refine ⟨h.lined.checkpointLineage h.integrity, fun e => h.sound.evolved e, fun b hb hdead events => ?_,
    fun timeline principal data key b hb => h.sound.restore_branches timeline principal data key hb⟩
  induction events generalizing s with
  | nil => exact hb
  | cons e events ih =>
    exact ih (.event e h) ((h.sound.evolved e).invalidated hb hdead)

/-- Two principals make the checkpoints 310 and 510 of the branch 4, and the first one is restored on the
branch 6. -/
def Store.forked : Store :=
  runEvents .blind [
    .call ⟨1, .ticking 200 300, .createCheckpoint .brief "key"⟩,
    .call ⟨7, .ticking 400 500, .createCheckpoint { CreateCheckpoint.brief with expectedHead := some 310 } "key"⟩,
    .call ⟨1, .ticking 800 900, .restoreCheckpoint ⟨310, 6, .brief, .brief⟩ "key"⟩] (.provisioned .pair)

/-- The lineage of a branch of two checkpoints and of its fork. -/
theorem checkpoint_lineage_forked :
    Store.forked.checkpointing.checkpoints.rows.map (fun c => (c.branchId, c.sequence, c.parentId))
        = [(6, 1, some 310), (4, 2, some 310), (4, 1, none)]
      ∧ CheckpointLineage Store.forked.checkpointing :=
  ⟨by decide +kernel, (checkpoint_lineage ((Reachable.provisioned _).run _)).1⟩

end PgAgmemory

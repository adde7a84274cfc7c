import PgAgmemory.History.Sound

/-! # The lineage of checkpoints

The checkpoints of a branch that is not invalidated are numbered from one up to its head, each the
parent of the next (`Checkpointing.Lineage`). A parent is older than its children and its watermark is
no later (`Checkpointing.Linked`). Appending to a branch keeps both, and so does a purge: what is left
of a live branch reaches down from its head through the parents. -/

namespace PgAgmemory

open Keyed (HasKey Table key)

/-- A checkpoint of a branch. -/
def CheckpointRow.OnBranch (c : CheckpointRow) (b : CheckpointBranchRow) : Prop :=
  (c.scopeId, c.runId, c.branchId) = key b

/-- **The lineage of a branch**: its checkpoints, each but the first the child of the one before. -/
structure Checkpointing.Lineage (k : Checkpointing) (b : CheckpointBranchRow) : Prop where
  numbered : ∀ n, (∃ c ∈ k.checkpoints, c.OnBranch b ∧ c.sequence = n) ↔ 1 ≤ n ∧ n ≤ b.sequence
  head : ∀ c ∈ k.checkpoints, c.OnBranch b → c.sequence = b.sequence → b.headId = some c.id
  start : b.sequence = 0 → b.headId = none
  parent : ∀ c ∈ k.checkpoints, c.OnBranch b → ∀ p ∈ k.checkpoints, p.OnBranch b →
    c.sequence = p.sequence + 1 → c.parentId = some p.id
  /-- The first one continues another branch, if any. -/
  root : ∀ c ∈ k.checkpoints, c.OnBranch b → c.sequence = 1 → ∀ p ∈ k.checkpoints,
    c.parentId = some p.id → ¬ p.OnBranch b

/-- **Parents** are older, with a watermark that is no later. -/
def Checkpointing.Linked (k : Checkpointing) : Prop :=
  ∀ c ∈ k.checkpoints, ∀ p ∈ k.checkpoints, c.parentId = some p.id →
    p.ordinal < c.ordinal ∧ p.eventWatermark ≤ c.eventWatermark

/-- The lineages of all live branches, and the links between all checkpoints. -/
structure Checkpointing.Lined (k : Checkpointing) : Prop where
  lineage : ∀ b ∈ k.branches, b.invalidated = false → k.Lineage b
  linked : k.Linked

namespace Checkpointing.Lineage

variable {k k' : Checkpointing} {b : CheckpointBranchRow}

/-- The checkpoints of a branch are numbered up to its head. -/
theorem bounds (h : k.Lineage b) {c : CheckpointRow} (hc : c ∈ k.checkpoints) (hon : c.OnBranch b) :
    1 ≤ c.sequence ∧ c.sequence ≤ b.sequence := (h.numbered _).mp ⟨c, hc, hon, rfl⟩

/-- The head of a branch to which something was appended. -/
theorem exists_head (h : k.Lineage b) (hpos : 0 < b.sequence) :
    ∃ c ∈ k.checkpoints, c.OnBranch b ∧ c.sequence = b.sequence ∧ b.headId = some c.id := by
  obtain ⟨c, hc, hon, hsequence⟩ := (h.numbered b.sequence).mpr ⟨hpos, Nat.le_refl _⟩
  exact ⟨c, hc, hon, hsequence, h.head c hc hon hsequence⟩

/-- A lineage depends on the checkpoints of its branch only. -/
theorem congr (h : k.Lineage b)
    (hsame : ∀ c, c.OnBranch b → (c ∈ k'.checkpoints ↔ c ∈ k.checkpoints)) : k'.Lineage b where
  numbered n := by
    rw [← h.numbered n]
    exact ⟨fun ⟨c, hc, hon, hn⟩ => ⟨c, (hsame c hon).mp hc, hon, hn⟩,
      fun ⟨c, hc, hon, hn⟩ => ⟨c, (hsame c hon).mpr hc, hon, hn⟩⟩
  head c hc hon := h.head c ((hsame c hon).mp hc) hon
  start := h.start
  parent c hc hon p hp hpon := h.parent c ((hsame c hon).mp hc) hon p ((hsame p hpon).mp hp) hpon
  root c hc hon hone p hp hlink hpon :=
    h.root c ((hsame c hon).mp hc) hon hone p ((hsame p hpon).mp hp) hlink hpon

/-- A branch without checkpoints. -/
theorem empty (hsequence : b.sequence = 0) (hhead : b.headId = none)
    (hnone : ∀ c ∈ k.checkpoints, ¬ c.OnBranch b) : k.Lineage b where
  numbered n := by
    rw [hsequence]
    constructor
    · rintro ⟨c, hc, hon, -⟩
      exact absurd hon (hnone c hc)
    · intro hn
      omega
  head c hc hon := absurd hon (hnone c hc)
  start _ := hhead
  parent c hc hon := absurd hon (hnone c hc)
  root c hc hon := absurd hon (hnone c hc)

/-- **The lineage after an append**: the new checkpoint is the child of the head, or the first one. -/
theorem extend (h : k.Lineage b) {new : CheckpointRow} (hon : new.OnBranch b)
    (hsequence : new.sequence = b.sequence + 1)
    (hsuccessor : b.sequence = 0 ∨ new.parentId = b.headId)
    (hroot : b.sequence = 0 → ∀ p ∈ k.checkpoints, new.parentId = some p.id → ¬ p.OnBranch b)
    (hself : new.parentId ≠ some new.id) (hnot : ∀ c ∈ k.checkpoints, c.parentId ≠ some new.id)
    (hmem : ∀ c, c ∈ k'.checkpoints ↔ c = new ∨ c ∈ k.checkpoints) :
    k'.Lineage { b with headId := some new.id, sequence := new.sequence } where
  numbered n := by
    change _ ↔ 1 ≤ n ∧ n ≤ new.sequence
    rw [hsequence]
    constructor
    · rintro ⟨c, hc, hcon, rfl⟩
      rcases (hmem c).mp hc with rfl | hc
      · omega
      · have hbounds := h.bounds hc hcon
        omega
    · rintro ⟨hone, hn⟩
      by_cases hlast : n ≤ b.sequence
      · obtain ⟨c, hc, hcon, rfl⟩ := (h.numbered n).mpr ⟨hone, hlast⟩
        exact ⟨c, (hmem c).mpr (Or.inr hc), hcon, rfl⟩
      · exact ⟨new, (hmem new).mpr (Or.inl rfl), hon, by omega⟩
  head c hc hcon hlast := by
    change c.sequence = new.sequence at hlast
    rcases (hmem c).mp hc with rfl | hc
    · rfl
    · have hbounds := h.bounds hc hcon
      omega
  start hzero := by
    change new.sequence = 0 at hzero
    omega
  parent c hc hcon p hp hpon hsucc := by
    rcases (hmem c).mp hc with rfl | hc <;> rcases (hmem p).mp hp with rfl | hp
    · omega
    · have hbounds := h.bounds hp hpon
      rw [← h.head p hp hpon (by omega)]
      exact hsuccessor.resolve_left (by omega)
    · have hbounds := h.bounds hc hcon
      omega
    · exact h.parent c hc hcon p hp hpon hsucc
  root c hc hcon hone p hp hlink hpon := by
    rcases (hmem c).mp hc with rfl | hc <;> rcases (hmem p).mp hp with rfl | hp
    · exact hself hlink
    · exact hroot (by omega) p hp hlink hpon
    · exact hnot c hc hlink
    · exact h.root c hc hcon hone p hp hlink hpon

end Checkpointing.Lineage

/-- Lineages depend on branches and checkpoints only. -/
theorem Checkpointing.Lined.congr {k k' : Checkpointing} (h : k.Lined)
    (hbranches : k'.branches = k.branches) (hcheckpoints : k'.checkpoints = k.checkpoints) :
    k'.Lined := by
  refine ⟨fun b hb hlive => ?_, ?_⟩
  · rw [hbranches] at hb
    exact (h.lineage b hb hlive).congr fun c _ => by rw [hcheckpoints]
  · unfold Linked
    rw [hcheckpoints]
    exact h.linked

/-! ## Statements -/

section Statements

variable {v : View} {k : Checkpointing}

/-- The branches after a head has been moved. -/
theorem mem_appendHead {t : Table CheckpointBranchRow} {scope run branch head : UUID} {sequence : Nat}
    {b : CheckpointBranchRow} :
    b ∈ appendHead t scope run branch head sequence ↔ ∃ b' ∈ t,
      (if key b' = (scope, run, branch) then { b' with headId := some head, sequence := sequence }
        else b') = b := by
  rw [appendHead, Table.mem_update]
  have hkey : ∀ b' : CheckpointBranchRow, (decide (b'.scopeId = scope) && decide (b'.runId = run)
      && decide (b'.branchId = branch)) = true ↔ key b' = (scope, run, branch) := by
    intro b'
    rw [Bool.and_eq_true, Bool.and_eq_true, decide_eq_true_eq, decide_eq_true_eq, decide_eq_true_eq,
      and_assoc]
    exact (Prod.mk_inj.trans (and_congr_right fun _ => Prod.mk_inj)).symm
  simp only [hkey]

/-- A new checkpoint is nobody's parent yet. -/
theorem CheckpointKeys.not_parent (h : CheckpointKeys v.store) {row : CheckpointRow}
    (hnew : ∀ c ∈ v.store.checkpointing.checkpoints, key c ≠ key row) {c : CheckpointRow}
    (hc : c ∈ v.store.checkpointing.checkpoints) : c.parentId ≠ some row.id := by
  intro hparent
  obtain ⟨p, hp, hkey⟩ := h.checkpoint_parent.exists_parent hc (by rw [hparent]; rfl)
  exact hnew p hp (Prod.mk.inj hkey).1

/-- **Appending a checkpoint** continues its branch and leaves the others alone. -/
theorem Checkpointing.Lined.append (h : v.store.checkpointing.Lined) (hkeys : CheckpointKeys v.store)
    {n : NewCheckpoint} {branch : CheckpointBranchRow} {t : Table CheckpointRow}
    (hadopts : AdoptsCheckpoint v n v.store.checkpointing.nextOrdinal branch)
    (ht : v.store.checkpointing.checkpoints.insert? (n.row v.store.checkpointing.nextOrdinal) = some t)
    (hbranches : k.branches = appendHead v.store.checkpointing.branches n.scopeId n.runId n.branchId
      n.id n.sequence) (hcheckpoints : k.checkpoints = t) : k.Lined := by
  obtain ⟨hfound, -⟩ := Option.filter_eq_some_iff.mp hadopts.found
  obtain ⟨hbranch, hkey⟩ := Table.find?_eq_some_iff.mp hfound
  have hold := h.lineage branch hbranch hadopts.live
  have hfresh := (Table.insert?_eq_some_iff.mp ht).1
  have hmem : ∀ c, c ∈ k.checkpoints ↔ c = n.row v.store.checkpointing.nextOrdinal
      ∨ c ∈ v.store.checkpointing.checkpoints := by
    intro c
    rw [hcheckpoints]
    exact Table.mem_insert? ht
  have hnot : ∀ c ∈ v.store.checkpointing.checkpoints, c.parentId ≠ some n.id :=
    fun c hc => hkeys.not_parent hfresh hc
  -- the parent of the new checkpoint is an old one
  have hparent : ∀ id, n.parentId = some id → ∃ p ∈ v.store.checkpointing.checkpoints, p.id = id
      ∧ parentAdoptable n v.store.checkpointing.nextOrdinal branch p = true := by
    intro id hid
    obtain ⟨p, hvisible, hadoptable⟩ := hadopts.parent id hid
    obtain ⟨hfind, -⟩ := Option.filter_eq_some_iff.mp hvisible
    obtain ⟨hp, hpid⟩ := Table.find?_eq_some_iff.mp hfind
    exact ⟨p, hp, hpid, hadoptable⟩
  have hself : n.parentId ≠ some n.id := by
    intro heq
    obtain ⟨p, hp, hid, -⟩ := hparent n.id heq
    exact hfresh p hp hid
  have hadopted : ∀ p ∈ v.store.checkpointing.checkpoints, n.parentId = some p.id →
      parentAdoptable n v.store.checkpointing.nextOrdinal branch p = true := by
    intro p hp heq
    obtain ⟨p', hp', hid, hadoptable⟩ := hparent p.id heq
    exact Table.eq_of_key_eq hp' hp hid ▸ hadoptable
  refine ⟨fun b hb hlive => ?_, fun c hc p hp hlink => ?_⟩
  · rw [hbranches] at hb
    obtain ⟨b', hb', rfl⟩ := mem_appendHead.mp hb
    by_cases hthis : key b' = (n.scopeId, n.runId, n.branchId)
    · obtain rfl : b' = branch := Table.eq_of_key_eq hb' hbranch (hthis.trans hkey.symm)
      rw [if_pos hthis]
      have hnew : (n.row v.store.checkpointing.nextOrdinal).OnBranch b' := hthis.symm
      refine hold.extend hnew hadopts.sequence hadopts.successor ?_ hself hnot hmem
      intro hzero p hp hlink hpon
      have hadoptable := hadopted p hp hlink
      simp only [parentAdoptable, hzero, decide_true, Bool.true_and, Bool.and_eq_true,
        Bool.not_eq_true', decide_eq_false_iff_not] at hadoptable
      have hkeys : (p.scopeId, p.runId, p.branchId) = (n.scopeId, n.runId, n.branchId) :=
        Eq.trans hpon hthis
      exact hadoptable.2 (Prod.mk.inj (Prod.mk.inj hkeys).2).2
    · rw [if_neg hthis] at hlive ⊢
      refine (h.lineage b' hb' hlive).congr fun c hon => (hmem c).trans (or_iff_right ?_)
      rintro rfl
      exact hthis (Eq.symm hon)
  · rcases (hmem c).mp hc with rfl | hc <;> rcases (hmem p).mp hp with rfl | hp
    · exact absurd hlink hself
    · have hadoptable := hadopted p hp hlink
      simp only [parentAdoptable, Bool.and_eq_true, decide_eq_true_eq] at hadoptable
      exact ⟨hadoptable.1.1.2, hadoptable.1.2⟩
    · exact absurd hlink (hnot c hc)
    · exact h.linked c hc p hp hlink

/-- **A new branch** has no checkpoints. -/
theorem Checkpointing.Lined.branch (h : v.store.checkpointing.Lined) (hkeys : CheckpointKeys v.store)
    {row : CheckpointBranchRow} (hempty : row.sequence = 0 ∧ row.headId = none)
    {t : Table CheckpointBranchRow} (ht : v.store.checkpointing.branches.insert? row = some t) :
    Checkpointing.Lined { v.store.checkpointing with branches := t } := by
  refine ⟨fun b hb hlive => ?_, h.linked⟩
  rcases (Table.mem_insert? ht).mp hb with rfl | hb
  · refine Lineage.empty hempty.1 hempty.2 fun c hc hon => ?_
    obtain ⟨b', hb', hkey⟩ := hkeys.checkpoint_branch.exists_parent hc rfl
    exact (Table.insert?_eq_some_iff.mp ht).1 b' hb' (Eq.trans hkey hon)
  · exact (h.lineage b hb hlive).congr fun _ _ => Iff.rfl

/-- **Statements on checkpoints keep lineages.** -/
theorem CheckpointStatement.Accepted.lined (hkeys : CheckpointKeys v.store) {inserted : Bool}
    {st : CheckpointStatement} (h : st.Accepted v inserted k) (hlined : v.store.checkpointing.Lined) :
    k.Lined := by
  cases st with
  | insertRun scope run harnessId harnessVersion =>
    obtain ⟨-, ⟨-, rfl⟩ | ⟨-, t, -, rfl⟩⟩ := h
    · exact hlined
    · exact hlined.congr rfl rfl
  | insertBranch scope run branch returning =>
    obtain ⟨-, ⟨-, rfl⟩ | ⟨-, t, ht, rfl⟩⟩ := h
    · exact hlined
    · exact hlined.branch hkeys ⟨rfl, rfl⟩ ht
  | insertCheckpoint n =>
    obtain ⟨-, t, branch, ⟨hadopts, ht⟩, rfl⟩ := h
    exact hlined.append hkeys hadopts ht rfl rfl
  | insertReference r =>
    obtain ⟨-, t, -, rfl⟩ := h
    exact hlined.congr rfl rfl

end Statements

/-! ## Runs -/

/-- **A purge keeps the lineages of what it leaves**: a live branch is left from its head down. -/
theorem Purged.lined {s s' : Store} {gone : Gone} (h : Purged s s' gone)
    (hlined : s.checkpointing.Lined) : s'.checkpointing.Lined := by
  rw [h.checkpointing]
  have hmem : ∀ c, c ∈ (s.erase gone).checkpointing.checkpoints
      ↔ c ∈ s.checkpointing.checkpoints ∧ gone .checkpoints c.id = false := fun _ => Table.mem_delete
  refine ⟨fun b hb hlive => ?_, fun c hc p hp hlink =>
    hlined.linked c ((hmem c).mp hc).1 p ((hmem p).mp hp).1 hlink⟩
  obtain ⟨b', hb', rfl⟩ := Store.mem_erase_branches.mp hb
  by_cases hsealed : b'.headId.any (gone .branches) = true
  · rw [if_pos hsealed] at hlive
    cases hlive
  rw [if_neg hsealed] at hlive ⊢
  have hold := hlined.lineage b' hb' hlive
  -- downwards from the head, by induction on the distance
  have hkept : ∀ d, ∀ c ∈ s.checkpointing.checkpoints, c.OnBranch b' →
      c.sequence + d = b'.sequence → gone .checkpoints c.id = false := by
    intro d
    induction d with
    | zero =>
      intro c hc hon hsequence
      rw [hold.head c hc hon hsequence, Option.any_some, Bool.not_eq_true] at hsealed
      exact h.coherent.kept hsealed
    | succ d ih =>
      intro c hc hon hsequence
      have hbounds := hold.bounds hc hon
      obtain ⟨next, hnext, hnexton, hsucc⟩ := (hold.numbered (c.sequence + 1)).mpr (by omega)
      have hparent := hold.parent next hnext hnexton c hc hon hsucc
      exact h.coherent.kept_source (.parent hnext hparent) (ih next hnext hnexton (by omega))
  refine hold.congr fun c hon => (hmem c).trans (and_iff_left_of_imp fun hc => ?_)
  have hbounds := hold.bounds hc hon
  exact hkept (b'.sequence - c.sequence) c hc hon (by omega)

/-- **Lineages hold in every reachable store.** -/
theorem Reachable.lined {platform : Platform} {s : Store} (h : Reachable platform s) :
    s.checkpointing.Lined := by
  refine h.invariant (I := fun s => s.checkpointing.Lined) (fun access => ?_) ?_
    (fun _ _ _ _ hp hlined => hp.lined hlined) fun _ _ hlined => hlined
  · exact ⟨fun b hb => absurd hb (Table.not_mem_empty b),
      fun c hc => absurd hc (Table.not_mem_empty c)⟩
  · intro c st m σ r σ' _ _ _ hgrounded hlined hallow hstep
    have haccepted := st.accepted (step_eq_ok.mp hstep).2.1
    rcases haccepted.checkpointing_cases hallow.quiet with hsame | ⟨st', inserted, -, hcheckpoint⟩
    · rw [hsame]
      exact hlined
    · exact hcheckpoint.lined hgrounded.foreign.checkpoint hlined

/-! ## Advances -/

/-- **Appending to a branch**: its head moves to its successor. -/
def Appends (k : Checkpointing) (b b' : CheckpointBranchRow) : Prop :=
  b.invalidated = false ∧ ∃ c ∈ k.checkpoints, c.OnBranch b ∧ c.sequence = b.sequence + 1
    ∧ (b.sequence = 0 ∨ c.parentId = b.headId)
    ∧ b' = { b with headId := some c.id, sequence := c.sequence }

/-- **Advancing**: checkpoints stay, and branches are appended to. -/
structure Checkpointing.Advanced (k k' : Checkpointing) : Prop where
  kept : ∀ c ∈ k.checkpoints, c ∈ k'.checkpoints
  branches : ∀ b ∈ k.branches, ∃ b' ∈ k'.branches, Relation.ReflTransGen (Appends k') b b'

namespace Checkpointing.Advanced

theorem refl (k : Checkpointing) : k.Advanced k :=
  ⟨fun _ hc => hc, fun b hb => ⟨b, hb, .refl⟩⟩

theorem trans {k k' k'' : Checkpointing} (h : k.Advanced k') (h' : k'.Advanced k'') :
    k.Advanced k'' := by
  refine ⟨fun c hc => h'.kept c (h.kept c hc), fun b hb => ?_⟩
  obtain ⟨b', hb', happends⟩ := h.branches b hb
  obtain ⟨b'', hb'', happends'⟩ := h'.branches b' hb'
  refine ⟨b'', hb'', .trans (Relation.ReflTransGen.mono ?_ _ _ happends) happends'⟩
  rintro x y ⟨hlive, c, hc, hrest⟩
  exact ⟨hlive, c, h'.kept c hc, hrest⟩

end Checkpointing.Advanced

/-- **Statements on checkpoints advance.** -/
theorem CheckpointStatement.Accepted.advanced {v : View} {inserted : Bool} {k : Checkpointing}
    {st : CheckpointStatement} (h : st.Accepted v inserted k) : v.store.checkpointing.Advanced k := by
  cases st with
  | insertRun scope run harnessId harnessVersion =>
    obtain ⟨-, ⟨-, rfl⟩ | ⟨-, t, -, rfl⟩⟩ := h
    · exact .refl _
    · exact ⟨fun _ hc => hc, fun b hb => ⟨b, hb, .refl⟩⟩
  | insertBranch scope run branch returning =>
    obtain ⟨-, ⟨-, rfl⟩ | ⟨-, t, ht, rfl⟩⟩ := h
    · exact .refl _
    · exact ⟨fun _ hc => hc, fun b hb => ⟨b, (Table.mem_insert? ht).mpr (Or.inr hb), .refl⟩⟩
  | insertCheckpoint n =>
    obtain ⟨-, t, branch, ⟨hadopts, ht⟩, rfl⟩ := h
    refine ⟨fun c hc => (Table.mem_insert? ht).mpr (Or.inr hc), fun b hb => ?_⟩
    refine ⟨_, mem_appendHead.mpr ⟨b, hb, rfl⟩, ?_⟩
    split
    next hthis =>
      obtain ⟨hfound, -⟩ := Option.filter_eq_some_iff.mp hadopts.found
      obtain ⟨hbranch, hkey⟩ := Table.find?_eq_some_iff.mp hfound
      obtain rfl : b = branch := Table.eq_of_key_eq hb hbranch (hthis.trans hkey.symm)
      exact .single ⟨hadopts.live, _, Table.mem_insert?_self ht, hthis.symm, hadopts.sequence,
        hadopts.successor, rfl⟩
    next => exact .refl
  | insertReference r =>
    obtain ⟨-, t, -, rfl⟩ := h
    exact ⟨fun _ hc => hc, fun b hb => ⟨b, hb, .refl⟩⟩

end PgAgmemory

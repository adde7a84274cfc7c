import PgAgmemory.History.Sound

/-! # The history of an effect

The revisions of an effect are numbered from one up to its current revision and each follows the one
before (`Ledger.Recorded`), so the status of an effect only moves forward
(`Ledger.Recorded.stage_le`), and an outcome has a receipt. Statements outside a purge add to the ledger
(`Ledger.Advanced`); a purge that takes an effect away seals its run (`Sealed`), for good. -/

namespace PgAgmemory

open Keyed (HasKey Table key)

/-! ## Stages -/

/-- How far a status is from the plan. -/
def EffectStatus.stage : EffectStatus → Nat
  | .planned => 0
  | .dispatched => 1
  | .unknown => 2
  | .confirmed | .failed => 3

/-- Transitions move forward. -/
theorem stage_lt_of_follows {previous next : EffectStatus} (h : follows previous next = true) :
    previous.stage < next.stage := by
  cases previous <;> cases next <;> first | decide | cases h

theorem EffectStatus.stage_le (status : EffectStatus) : status.stage ≤ 3 := by
  cases status <;> decide

/-- An open status is past the plan. -/
theorem EffectStatus.one_le_stage {status : EffectStatus} (h : status.isOpen = true) :
    1 ≤ status.stage := by
  cases status <;> first | decide | cases h

/-! ## Histories -/

/-- The revisions of an effect. -/
def Ledger.revisionsOf (l : Ledger) (id : UUID) : Set ToolEffectRevisionRow :=
  {r | r ∈ l.revisions ∧ r.effectId = id}

/-- **The history of an effect**: numbered up to its current revision, each following the one before. -/
structure Ledger.Recorded (l : Ledger) (e : ToolEffectRow) : Prop where
  positive : ∀ r ∈ l.revisionsOf e.id, 1 ≤ r.revision
  bounded : ∀ r ∈ l.revisionsOf e.id, r.revision ≤ e.currentRevision
  previous : ∀ r ∈ l.revisionsOf e.id, 1 < r.revision → ∃ p ∈ l.revisionsOf e.id,
    r.revision = p.revision + 1 ∧ follows p.status r.status = true

/-- **A ledger in order**: every effect has its history, and every outcome its receipt. -/
structure Ledger.Sequenced (l : Ledger) : Prop where
  recorded : ∀ e ∈ l.effects, l.Recorded e
  receipts : ∀ r ∈ l.revisions, r.status.terminal = true →
    r.receiptReference.isSome = true ∧ r.receiptSource.isSome = true

namespace Ledger.Recorded

variable {l : Ledger} {e : ToolEffectRow}

/-- An effect has one revision of a number. -/
theorem unique {r r' : ToolEffectRevisionRow} (hr : r ∈ l.revisionsOf e.id)
    (hr' : r' ∈ l.revisionsOf e.id) (h : r.revision = r'.revision) : r = r' :=
  Table.eq_of_key_eq hr.1 hr'.1 (Prod.ext (hr.2.trans hr'.2.symm) h)

/-- **Statuses only move forward.** -/
theorem stage_le (h : l.Recorded e) {r r' : ToolEffectRevisionRow} (hr : r ∈ l.revisionsOf e.id)
    (hr' : r' ∈ l.revisionsOf e.id) (hle : r.revision ≤ r'.revision) :
    r.status.stage ≤ r'.status.stage := by
  -- by induction on the distance, stepping back from the later revision
  obtain ⟨k, hk⟩ := Nat.exists_eq_add_of_le hle
  induction k generalizing r' with
  | zero => rw [unique hr hr' hk.symm]
  | succ k ih =>
    have hpositive := h.positive r hr
    obtain ⟨p, hp, hnumber, hfollows⟩ := h.previous r' hr' (by omega)
    have hback := ih hp (by omega) (by omega)
    exact Nat.le_trans hback (Nat.le_of_lt (stage_lt_of_follows hfollows))

/-- A revision has a number beyond its stage at most by one. -/
theorem revision_le (h : l.Recorded e) {r : ToolEffectRevisionRow} (hr : r ∈ l.revisionsOf e.id) :
    r.revision ≤ r.status.stage + 1 := by
  obtain ⟨k, hk⟩ : ∃ k, r.revision = k + 1 := Nat.exists_eq_add_of_le' (h.positive r hr)
  induction k generalizing r with
  | zero => rw [hk]; exact Nat.le_add_left 1 _
  | succ k ih =>
    obtain ⟨p, hp, hnumber, hfollows⟩ := h.previous r hr (by omega)
    have hback := ih hp (by omega)
    have hstage := stage_lt_of_follows hfollows
    omega

/-- Below the current revision no number is left out. -/
theorem exists_revision (h : l.Recorded e) {r : ToolEffectRevisionRow} (hr : r ∈ l.revisionsOf e.id)
    {k : Nat} (hone : 1 ≤ k) (hk : k ≤ r.revision) : ∃ p ∈ l.revisionsOf e.id, p.revision = k := by
  obtain ⟨d, hd⟩ := Nat.exists_eq_add_of_le hk
  induction d generalizing r with
  | zero => exact ⟨r, hr, hd⟩
  | succ d ih =>
    obtain ⟨p, hp, hnumber, -⟩ := h.previous r hr (by omega)
    exact ih hp (by omega) (by omega)

end Ledger.Recorded

/-- The current revision of an effect. -/
def Ledger.Current (l : Ledger) (e : ToolEffectRow) (r : ToolEffectRevisionRow) : Prop :=
  r ∈ l.revisionsOf e.id ∧ r.revision = e.currentRevision

theorem Ledger.Current.unique {l : Ledger} {e : ToolEffectRow} {r r' : ToolEffectRevisionRow}
    (h : l.Current e r) (h' : l.Current e r') : r = r' :=
  Ledger.Recorded.unique h.1 h'.1 (h.2.trans h'.2.symm)

/-- Every effect has its current revision. -/
theorem DeferredKeys.exists_current {s : Store} (h : DeferredKeys s) {e : ToolEffectRow}
    (he : e ∈ s.ledger.effects) : ∃ r, s.ledger.Current e r := by
  obtain ⟨r, hr, hkey⟩ := h.effect_current.exists_parent he rfl
  exact ⟨r, ⟨hr, (Prod.mk.inj hkey).1⟩, (Prod.mk.inj hkey).2⟩

/-! ## Statements -/

/-- The effects after a head has been moved. -/
theorem mem_moveEffectHead_iff {id : UUID} {revision : Nat} {t : Table ToolEffectRow}
    {e : ToolEffectRow} : e ∈ moveEffectHead t id revision
      ↔ ∃ e' ∈ t, (if e'.id = id then { e' with currentRevision := revision } else e') = e := by
  rw [moveEffectHead, Table.mem_update]
  simp only [decide_eq_true_eq]

section Statements

variable {v : View} {m : Moment} {l : Ledger}

/-- The revisions of an effect after an insertion. -/
theorem mem_effectRevisionsOf_insert {n : NewEffectRevision} {t : Table ToolEffectRevisionRow}
    {effects : Table ToolEffectRow} (ht : l.revisions.insert? (n.row v m) = some t) {id : UUID}
    {r : ToolEffectRevisionRow} :
    r ∈ Ledger.revisionsOf { l with effects := effects, revisions := t } id
      ↔ (r = n.row v m ∧ n.effectId = id) ∨ r ∈ l.revisionsOf id := by
  change (r ∈ t ∧ r.effectId = id) ↔ _
  rw [Table.mem_insert? ht]
  constructor
  · rintro ⟨rfl | hr, hid⟩
    · exact Or.inl ⟨rfl, hid⟩
    · exact Or.inr ⟨hr, hid⟩
  · rintro (⟨rfl, hid⟩ | ⟨hr, hid⟩)
    · exact ⟨Or.inl rfl, hid⟩
    · exact ⟨Or.inr hr, hid⟩

/-- **A history goes on** with a first revision, or with the successor of the current one. -/
theorem Ledger.Recorded.extend {e : ToolEffectRow} (h : l.Recorded e) {n : NewEffectRevision}
    {t : Table ToolEffectRevisionRow} {effects : Table ToolEffectRow} {current : Nat}
    (ht : l.revisions.insert? (n.row v m) = some t) (hle : e.currentRevision ≤ current)
    (hnew : n.effectId = e.id → 1 ≤ n.revision ∧ n.revision ≤ current
      ∧ (1 < n.revision → ∃ p ∈ l.revisionsOf e.id, n.revision = p.revision + 1
        ∧ follows p.status n.status = true)) :
    Ledger.Recorded { l with effects := effects, revisions := t }
      { e with currentRevision := current } := by
  constructor
  · intro r hr
    rcases (mem_effectRevisionsOf_insert ht).mp hr with ⟨rfl, hid⟩ | hold
    · exact (hnew hid).1
    · exact h.positive r hold
  · intro r hr
    rcases (mem_effectRevisionsOf_insert ht).mp hr with ⟨rfl, hid⟩ | hold
    · exact (hnew hid).2.1
    · exact Nat.le_trans (h.bounded r hold) hle
  · intro r hr hlater
    rcases (mem_effectRevisionsOf_insert ht).mp hr with ⟨rfl, hid⟩ | hold
    · obtain ⟨p, hp, hprevious⟩ := (hnew hid).2.2 hlater
      exact ⟨p, (mem_effectRevisionsOf_insert ht).mpr (Or.inr hp), hprevious⟩
    · obtain ⟨p, hp, hprevious⟩ := h.previous r hold hlater
      exact ⟨p, (mem_effectRevisionsOf_insert ht).mpr (Or.inr hp), hprevious⟩

/-- The check constraint: an outcome has its receipt. -/
theorem NewEffectRevision.receipt_of_checks {n : NewEffectRevision} (h : n.checks = true)
    (hterminal : n.status.terminal = true) :
    n.receiptReference.isSome = true ∧ n.receiptSource.isSome = true := by
  have hstatus : n.status = .confirmed ∨ n.status = .failed := by
    revert hterminal
    cases n.status <;> simp [EffectStatus.terminal]
  rw [checks, if_pos hstatus, Bool.and_eq_true, Bool.and_eq_true, Bool.and_eq_true] at h
  exact h.2

/-- **Inserting a revision** keeps a ledger in order. -/
theorem Ledger.Sequenced.revision (h : v.store.ledger.Sequenced) {n : NewEffectRevision}
    (hchecks : n.checks = true) {t : Table ToolEffectRevisionRow} {effects : Table ToolEffectRow}
    (hadopts : AdoptsEffectRevision v m n effects)
    (ht : v.store.ledger.revisions.insert? (n.row v m) = some t) :
    Ledger.Sequenced { v.store.ledger with effects := effects, revisions := t } := by
  refine ⟨fun e he => ?_, fun r hr hterminal => ?_⟩
  · cases hadopts with
    | first heffect hfirst hcurrent _ _ =>
      obtain ⟨hmem, hid⟩ := Table.find?_eq_some_iff.mp (Option.filter_eq_some_iff.mp heffect).1
      refine (h.recorded e he).extend ht (Nat.le_refl _) fun heq => ?_
      obtain rfl := Table.eq_of_key_eq hmem he (hid.trans heq)
      exact ⟨Nat.le_of_eq hfirst.symm, Nat.le_of_eq (hfirst.trans hcurrent.symm),
        fun hlater => absurd hlater (by omega)⟩
    | next heffect hfirst hprevious hadoptable _ =>
      obtain ⟨hmem, hid⟩ := Table.find?_eq_some_iff.mp (Option.filter_eq_some_iff.mp heffect).1
      obtain ⟨hp, hkey⟩ := Table.find?_eq_some_iff.mp (Option.filter_eq_some_iff.mp hprevious).1
      obtain ⟨hchild, hnumber⟩ := Prod.mk.inj hkey
      simp only [transitionAdoptable, Bool.and_eq_true, decide_eq_true_eq] at hadoptable
      obtain ⟨⟨hnext, hfollows⟩, -⟩ := hadoptable
      obtain ⟨e', he', rfl⟩ := mem_moveEffectHead_iff.mp he
      by_cases hmoved : e'.id = n.effectId
      · obtain rfl := Table.eq_of_key_eq hmem he' (hid.trans hmoved.symm)
        rw [if_pos hmoved]
        refine (h.recorded _ he').extend ht (by omega) fun _ => ⟨by omega, Nat.le_refl _, fun _ => ?_⟩
        exact ⟨_, ⟨hp, hchild.trans hmoved.symm⟩, by omega, hfollows⟩
      · rw [if_neg hmoved]
        exact (h.recorded e' he').extend ht (Nat.le_refl _) fun heq => absurd heq.symm hmoved
  · rcases (Table.mem_insert? ht).mp hr with rfl | hold
    · exact NewEffectRevision.receipt_of_checks hchecks hterminal
    · exact h.receipts r hold hterminal

/-- **Statements on effects keep a ledger in order.** -/
theorem LedgerStatement.Accepted.sequenced (hkeys : ForeignKeys v.store) {st : LedgerStatement}
    (h : st.Accepted v m l) (hsequenced : v.store.ledger.Sequenced) : l.Sequenced := by
  cases st with
  | insertEffect n =>
    obtain ⟨-, t, ht, rfl⟩ := h
    refine ⟨fun e he => ?_, hsequenced.receipts⟩
    rcases (Table.mem_insert? ht).mp he with rfl | hold
    · -- a new effect has no revisions
      have hnone : ∀ r, r ∉ v.store.ledger.revisionsOf n.row.id := by
        rintro r ⟨hr, hid⟩
        obtain ⟨e', he', hkey⟩ := hkeys.ledger.revision_effect.exists_parent hr rfl
        exact (Table.insert?_eq_some_iff.mp ht).1 e' he' (hkey.trans hid)
      exact ⟨fun r hr => absurd hr (hnone r), fun r hr => absurd hr (hnone r),
        fun r hr => absurd hr (hnone r)⟩
    · obtain ⟨hpositive, hbounded, hprevious⟩ := hsequenced.recorded e hold
      exact ⟨hpositive, hbounded, hprevious⟩
  | insertRevision n =>
    obtain ⟨⟨-, hchecks, -⟩, t, effects, ⟨hadopts, ht⟩, rfl⟩ := h
    exact hsequenced.revision hchecks hadopts ht
  | _ =>
    obtain ⟨-, t, -, rfl⟩ := h
    refine ⟨fun e he => ?_, hsequenced.receipts⟩
    obtain ⟨hpositive, hbounded, hprevious⟩ := hsequenced.recorded e he
    exact ⟨hpositive, hbounded, hprevious⟩

end Statements

/-! ## Purges -/

/-- The revisions of an effect that a purge leaves. -/
theorem Purged.effectRevisionsOf {s s' : Store} {gone : Gone} (h : Purged s s' gone)
    {e : ToolEffectRow} (he : e ∈ s.ledger.effects) (hkept : gone .effects e.id = false) :
    s'.ledger.revisionsOf e.id = s.ledger.revisionsOf e.id := by
  rw [h.effectHeads e he] at hkept
  ext r
  rw [h.ledger]
  refine and_congr_left fun hid => Table.mem_delete.trans (and_iff_left ?_)
  rw [hid]
  exact hkept

/-- **A purge keeps the histories of what it leaves.** -/
theorem Purged.sequenced {s s' : Store} {gone : Gone} (h : Purged s s' gone)
    (hsequenced : s.ledger.Sequenced) : s'.ledger.Sequenced := by
  refine ⟨fun e he => ?_, fun r hr => ?_⟩
  · rw [h.ledger] at he
    obtain ⟨hold, hkept⟩ := Table.mem_delete.mp he
    have hsame := h.effectRevisionsOf hold hkept
    obtain ⟨hpositive, hbounded, hprevious⟩ := hsequenced.recorded e hold
    constructor <;> rw [hsame] <;> assumption
  · rw [h.ledger] at hr
    exact hsequenced.receipts r (Table.mem_delete.mp hr).1

/-- Every reachable ledger is in order. -/
theorem Reachable.sequenced {platform : Platform} {s : Store} (h : Reachable platform s) :
    s.ledger.Sequenced := by
  refine h.invariant (I := fun s => s.ledger.Sequenced) ?_ ?_ (fun _ _ _ _ hp => hp.sequenced)
    fun _ _ hsequenced => hsequenced
  · exact fun access => ⟨fun e he => absurd he (Table.not_mem_empty e),
      fun r hr => absurd hr (Table.not_mem_empty r)⟩
  · intro c st m σ r σ' _ _ _ hgrounded hsequenced hallow hstep
    have haccepted := st.accepted (step_eq_ok.mp hstep).2.1
    rcases haccepted.ledger_cases hallow.quiet with hsame | ⟨st', -, hledger⟩
    · rw [hsame]
      exact hsequenced
    · exact hledger.sequenced hgrounded.foreign hsequenced

/-! ## Keeping effects -/

/-- **Advancing**: effects stay, as do their revisions. -/
structure Ledger.Advanced (l l' : Ledger) : Prop where
  effects : ∀ e ∈ l.effects, ∃ n, { e with currentRevision := n } ∈ l'.effects
  revisions : ∀ r ∈ l.revisions, r ∈ l'.revisions

namespace Ledger.Advanced

theorem refl (l : Ledger) : l.Advanced l :=
  ⟨fun e he => ⟨e.currentRevision, he⟩, fun _ hr => hr⟩

theorem trans {l l' l'' : Ledger} (h : l.Advanced l') (h' : l'.Advanced l'') : l.Advanced l'' := by
  refine ⟨fun e he => ?_, fun r hr => h'.revisions r (h.revisions r hr)⟩
  obtain ⟨n, hn⟩ := h.effects e he
  obtain ⟨n', hn'⟩ := h'.effects _ hn
  exact ⟨n', hn'⟩

end Ledger.Advanced

/-- **Statements on effects advance.** -/
theorem LedgerStatement.Accepted.advanced {v : View} {m : Moment} {l : Ledger} {st : LedgerStatement}
    (h : st.Accepted v m l) : v.store.ledger.Advanced l := by
  cases st with
  | insertEffect n =>
    obtain ⟨-, t, ht, rfl⟩ := h
    exact ⟨fun e he => ⟨e.currentRevision, (Table.mem_insert? ht).mpr (Or.inr he)⟩, fun _ hr => hr⟩
  | insertRevision n =>
    obtain ⟨-, t, effects, ⟨hadopts, ht⟩, rfl⟩ := h
    refine ⟨fun e he => ?_, fun r hr => (Table.mem_insert? ht).mpr (Or.inr hr)⟩
    cases hadopts with
    | first _ _ _ _ _ => exact ⟨e.currentRevision, he⟩
    | next _ _ _ _ _ =>
      by_cases hmoved : e.id = n.effectId
      · exact ⟨n.revision, mem_moveEffectHead_iff.mpr ⟨e, he, if_pos hmoved⟩⟩
      · exact ⟨e.currentRevision, mem_moveEffectHead_iff.mpr ⟨e, he, if_neg hmoved⟩⟩
  | _ =>
    obtain ⟨-, t, -, rfl⟩ := h
    exact ⟨fun e he => ⟨e.currentRevision, he⟩, fun _ hr => hr⟩

/-! ## The effects of a run -/

/-- The run that a statement reads. -/
theorem View.run?_eq_some {v : View} {scope run : UUID} {n : CheckpointRunRow} :
    v.run? scope run = some n ↔ n ∈ v.store.checkpointing.runs
      ∧ (n.scopeId, n.runId) = (scope, run) ∧ v.permitted scope .read = true := by
  rw [run?, Option.filter_eq_some_iff, Table.find?_eq_some_iff, and_assoc]
  refine and_congr_right fun _ => and_congr_right fun hkey => ?_
  rw [(Prod.mk.inj hkey).1]

/-- An effect of a run. -/
def ToolEffectRow.Of (e : ToolEffectRow) (scope run : UUID) : Prop :=
  (e.scopeId, e.runId) = (scope, run)

instance ToolEffectRow.decidableOf (e : ToolEffectRow) (scope run : UUID) :
    Decidable (e.Of scope run) := inferInstanceAs (Decidable (_ = _))

/-- The effects of a run that a statement sees, in a readable scope: all of them. -/
theorem View.mem_effectsOf {v : View} {scope run : UUID} (hgrounded : Grounded v.store)
    (hread : v.permitted scope .read = true) {e : ToolEffectRow} :
    e ∈ v.effectsOf scope run ↔ e ∈ v.store.ledger.effects ∧ e.Of scope run := by
  rw [View.effectsOf, List.mem_filter, View.effects, List.mem_filter, Bool.and_eq_true,
    decide_eq_true_eq, decide_eq_true_eq, Table.mem_rows]
  constructor
  · rintro ⟨⟨he, -⟩, hscope, hrun⟩
    exact ⟨he, Prod.ext hscope hrun⟩
  · rintro ⟨he, hof⟩
    obtain ⟨hscope, hrun⟩ := Prod.mk.inj hof
    have hvisible := ((hgrounded.effect he).visible hgrounded.foreign.marked rfl).mpr (hscope ▸ hread)
    exact ⟨⟨he, hvisible⟩, hscope, hrun⟩

/-- As many effects as a statement sees in a readable scope. -/
theorem View.length_effectsOf {v : View} {scope run : UUID} (hgrounded : Grounded v.store)
    (hread : v.permitted scope .read = true) :
    (v.effectsOf scope run).length = v.store.ledger.effects.rows.countP (·.Of scope run) := by
  have hrows : v.effectsOf scope run
      = v.store.ledger.effects.rows.filter fun e => decide (e.Of scope run) := by
    rw [View.effectsOf, View.effects, List.filter_filter]
    refine List.filter_congr fun e he => ?_
    rw [Bool.eq_iff_iff, Bool.and_eq_true, Bool.and_eq_true, decide_eq_true_eq, decide_eq_true_eq,
      decide_eq_true_eq, ToolEffectRow.Of, Prod.mk.injEq, and_iff_left_iff_imp]
    rintro ⟨rfl, -⟩
    exact ((hgrounded.effect he).visible hgrounded.foreign.marked rfl).mpr hread
  rw [hrows, List.countP_eq_length_filter]

/-- **A capped ledger**: no run has more than a hundred effects. -/
def Ledger.Capped (l : Ledger) : Prop :=
  ∀ scope run, l.effects.rows.countP (·.Of scope run) ≤ 100

/-- **Statements on effects keep the cap.** -/
theorem LedgerStatement.Accepted.capped {v : View} {m : Moment} {l : Ledger} {st : LedgerStatement}
    (hgrounded : Grounded v.store) (h : st.Accepted v m l) (hcapped : v.store.ledger.Capped) :
    l.Capped := by
  intro scope run
  cases st with
  | insertEffect n =>
    obtain ⟨⟨hguard, -⟩, t, ht, rfl⟩ := h
    rw [Table.countP_insert? ht]
    split
    next hof =>
      -- the trigger has counted the effects of the run
      obtain ⟨hscope, hrun⟩ := Prod.mk.inj (of_decide_eq_true hof)
      rw [guardToolEffect, Option.any_eq_true] at hguard
      obtain ⟨row, hrow, hguard⟩ := hguard
      rw [Bool.and_eq_true, decide_eq_true_eq] at hguard
      obtain ⟨-, -, hread⟩ := View.run?_eq_some.mp hrow
      have hcount := hguard.2
      rw [View.length_effectsOf hgrounded hread] at hcount
      rw [← hscope, ← hrun]
      exact hcount
    next => exact hcapped scope run
  | insertRevision n =>
    obtain ⟨-, t, effects, ⟨hadopts, -⟩, rfl⟩ := h
    cases hadopts with
    | first _ _ _ _ _ => exact hcapped scope run
    | next _ _ _ _ _ =>
      have hsame : (moveEffectHead v.store.ledger.effects n.effectId n.revision).rows.countP
          (·.Of scope run) = v.store.ledger.effects.rows.countP (·.Of scope run) :=
        Table.countP_update fun _ => rfl
      exact hsame.trans_le (hcapped scope run)
  | _ =>
    obtain ⟨-, t, -, rfl⟩ := h
    exact hcapped scope run

/-- Every reachable ledger is capped. -/
theorem Reachable.capped {platform : Platform} {s : Store} (h : Reachable platform s) :
    s.ledger.Capped := by
  refine h.invariant (I := fun s => s.ledger.Capped) (fun access scope run => Nat.zero_le _) ?_ ?_
    fun _ _ hcapped => hcapped
  · intro c st m σ r σ' _ _ _ hgrounded hcapped hallow hstep
    have haccepted := st.accepted (step_eq_ok.mp hstep).2.1
    rcases haccepted.ledger_cases hallow.quiet with hsame | ⟨st', -, hledger⟩
    · rw [hsame]
      exact hcapped
    · exact hledger.capped hgrounded hcapped
  · intro s s' gone _ hp hcapped scope run
    rw [hp.ledger]
    exact (List.filter_sublist.countP_le).trans (hcapped scope run)

/-! ## Sealed runs -/

/-- **A sealed run**: its effects are invalidated and it has no checkpoints. -/
structure Sealed (s : Store) (scope run : UUID) : Prop where
  invalidated : ∃ n ∈ s.checkpointing.runs, (n.scopeId, n.runId) = (scope, run)
    ∧ n.effectsInvalidated = true
  noCheckpoint : ∀ c ∈ s.checkpointing.checkpoints, (c.scopeId, c.runId) ≠ (scope, run)

/-- A run is not both sealed and active. -/
theorem Sealed.not_active {s : Store} {scope run : UUID} (h : Sealed s scope run)
    {n : CheckpointRunRow} (hn : n ∈ s.checkpointing.runs) (hkey : (n.scopeId, n.runId) = (scope, run))
    (hactive : n.effectsInvalidated = false) : False := by
  obtain ⟨n', hn', hkey', hinvalidated⟩ := h.invalidated
  obtain rfl : n' = n := Table.eq_of_key_eq hn' hn (hkey'.trans hkey.symm)
  rw [hinvalidated] at hactive
  cases hactive

/-- What is visible lies in a readable scope. -/
theorem View.permitted_of_visible {v : View} {id scope : UUID} (h : v.visible id = true)
    (hscope : Anchored v.store id scope) : v.permitted scope .read = true := by
  obtain ⟨o, ho, hid, hread⟩ := visible_eq_true.mp h
  rw [hscope.unique ⟨o, ho, hid, rfl⟩]
  exact (Bool.and_eq_true_iff.mp hread).1

/-- A readable scope shows the effects of a sealed run as invalidated. -/
theorem Sealed.run? {v : View} {scope run : UUID} (h : Sealed v.store scope run)
    (hread : v.permitted scope .read = true) :
    ∃ n, v.run? scope run = some n ∧ n.effectsInvalidated = true := by
  obtain ⟨n, hn, hkey, hinvalidated⟩ := h.invalidated
  exact ⟨n, View.run?_eq_some.mpr ⟨hn, hkey, hread⟩, hinvalidated⟩

section Statements

variable {v : View} {m : Moment} {scope run : UUID}

/-- **No checkpoint is appended to a sealed run.** -/
theorem Sealed.checkpoint (h : Sealed v.store scope run) {n : NewCheckpoint}
    (hactive : runActive v n.scopeId n.runId = true) (hwritable : v.writable n.id = true)
    (hobject : Anchored v.store n.id n.scopeId) : (n.scopeId, n.runId) ≠ (scope, run) := by
  rintro hkey
  obtain ⟨rfl, rfl⟩ := Prod.mk.inj hkey
  have hread := View.permitted_of_visible (View.visible_of_writable hwritable) hobject
  obtain ⟨row, hrow, hinvalidated⟩ := h.run? hread
  rw [runActive, hrow, Option.all_some, hinvalidated] at hactive
  cases hactive

/-- **No effect is planned in a sealed run.** -/
theorem Sealed.effect (h : Sealed v.store scope run) {scope' run' : UUID}
    (hguard : guardToolEffect v scope' run' = true) : (scope', run') ≠ (scope, run) := by
  rintro hkey
  obtain ⟨rfl, rfl⟩ := Prod.mk.inj hkey
  rw [guardToolEffect, Option.any_eq_true] at hguard
  obtain ⟨row, hrow, hactive⟩ := hguard
  rw [Bool.and_eq_true, Bool.not_eq_true'] at hactive
  obtain ⟨hmem, hkey, -⟩ := View.run?_eq_some.mp hrow
  exact h.not_active hmem hkey hactive.1

/-- **No effect of a sealed run is dispatched.** -/
theorem Sealed.dispatch (h : Sealed v.store scope run) (hgrounded : Grounded v.store) {id : UUID}
    {e : ToolEffectRow} (he : v.effect? id = some e) (hactive : runInvalidated v id = false) :
    (e.scopeId, e.runId) ≠ (scope, run) := by
  rintro hkey
  obtain ⟨hfind, hvisible⟩ := Option.filter_eq_some_iff.mp he
  obtain ⟨hmem, -⟩ := Table.find?_eq_some_iff.mp hfind
  obtain ⟨rfl, rfl⟩ := Prod.mk.inj hkey
  obtain ⟨row, hrow, hinvalidated⟩ := h.run?
    (View.permitted_of_visible hvisible (hgrounded.effect hmem).anchored)
  rw [runInvalidated, he, Option.any_some, hrow, Option.any_some, hinvalidated] at hactive
  cases hactive

/-- **Ceasing**: no effect of the run is new, and none is dispatched anew. -/
structure Ledger.Ceased (l l' : Ledger) (scope run : UUID) : Prop where
  effects : ∀ e ∈ l'.effects, (e.scopeId, e.runId) = (scope, run) →
    ∃ n, { e with currentRevision := n } ∈ l.effects
  dispatched : ∀ r ∈ l'.revisions, r.status = .dispatched →
    (∃ e ∈ l'.effects, e.id = r.effectId ∧ (e.scopeId, e.runId) = (scope, run)) → r ∈ l.revisions

theorem Ledger.Ceased.refl (l : Ledger) (scope run : UUID) : l.Ceased l scope run :=
  ⟨fun e he _ => ⟨e.currentRevision, he⟩, fun _ hr _ _ => hr⟩

theorem Ledger.Ceased.trans {l l' l'' : Ledger} (h : l.Ceased l' scope run)
    (h' : l'.Ceased l'' scope run) : l.Ceased l'' scope run := by
  refine ⟨fun e he hkey => ?_, fun r hr hstatus ⟨e, he, hid, hkey⟩ => ?_⟩
  · obtain ⟨n', hn'⟩ := h'.effects e he hkey
    obtain ⟨n, hn⟩ := h.effects _ hn' hkey
    exact ⟨n, hn⟩
  · obtain ⟨n', hn'⟩ := h'.effects e he hkey
    exact h.dispatched r (h'.dispatched r hr hstatus ⟨e, he, hid, hkey⟩) hstatus ⟨_, hn', hid, hkey⟩

/-- **Statements on effects cease in a sealed run.** -/
theorem LedgerStatement.Accepted.ceased {l : Ledger} {st : LedgerStatement} (h : st.Accepted v m l)
    (hgrounded : Grounded v.store) (hsealed : Sealed v.store scope run) :
    v.store.ledger.Ceased l scope run := by
  cases st with
  | insertEffect n =>
    obtain ⟨⟨hguard, -⟩, t, ht, rfl⟩ := h
    refine ⟨fun e he hkey => ?_, fun r hr _ _ => hr⟩
    rcases (Table.mem_insert? ht).mp he with rfl | hold
    · exact absurd hkey (hsealed.effect hguard)
    · exact ⟨e.currentRevision, hold⟩
  | insertRevision n =>
    obtain ⟨⟨-, -, hactive⟩, t, effects, ⟨hadopts, ht⟩, rfl⟩ := h
    -- the trigger moves a head at most
    have hold : ∀ e ∈ effects, ∃ k, { e with currentRevision := k } ∈ v.store.ledger.effects := by
      intro e he
      cases hadopts with
      | first _ _ _ _ _ => exact ⟨e.currentRevision, he⟩
      | next _ _ _ _ _ =>
        obtain ⟨e', he', rfl⟩ := mem_moveEffectHead_iff.mp he
        refine ⟨e'.currentRevision, ?_⟩
        split <;> exact he'
    refine ⟨fun e he _ => hold e he, fun r hr hstatus ⟨e, he, hid, hkey⟩ => ?_⟩
    rcases (Table.mem_insert? ht).mp hr with rfl | hr
    · obtain ⟨effect, heffect⟩ : ∃ effect, v.effect? n.effectId = some effect := by
        cases hadopts with
        | first heffect _ _ _ _ => exact ⟨_, heffect⟩
        | next heffect _ _ _ _ => exact ⟨_, heffect⟩
      obtain ⟨hmem, hid'⟩ := Table.find?_eq_some_iff.mp (Option.filter_eq_some_iff.mp heffect).1
      obtain ⟨k, hk⟩ := hold e he
      obtain rfl := Table.eq_of_key_eq hmem hk (hid'.trans hid.symm)
      exact (hsealed.dispatch hgrounded heffect (hactive hstatus) hkey).elim
    · exact hr
  | _ =>
    obtain ⟨-, t, -, rfl⟩ := h
    exact ⟨fun e he _ => ⟨e.currentRevision, he⟩, fun _ hr _ _ => hr⟩

/-- **A sealed run stays sealed** under the discipline. -/
theorem Sealed.statement {st : Statement} {s : Store} (hquiet : st.quiet = true)
    (haccepted : st.Accepted v m s) (hgrounded : Grounded s) (h : Sealed v.store scope run) :
    Sealed s scope run := by
  rcases haccepted.checkpointing_cases hquiet with hsame | ⟨st, inserted, rfl, hcheckpoint⟩
  · refine ⟨?_, ?_⟩ <;> rw [hsame]
    · exact h.invalidated
    · exact h.noCheckpoint
  obtain ⟨_, k, -, rfl⟩ := haccepted
  obtain ⟨row, hrow, hkey, hinvalidated⟩ := h.invalidated
  cases st with
  | insertRun scope' run' harnessId harnessVersion =>
    obtain ⟨-, ⟨-, rfl⟩ | ⟨-, t, ht, rfl⟩⟩ := hcheckpoint
    · exact ⟨h.invalidated, h.noCheckpoint⟩
    · exact ⟨⟨row, (Table.mem_insert? ht).mpr (Or.inr hrow), hkey, hinvalidated⟩, h.noCheckpoint⟩
  | insertBranch scope' run' branch returning =>
    obtain ⟨-, ⟨-, rfl⟩ | ⟨-, t, ht, rfl⟩⟩ := hcheckpoint
    · exact ⟨h.invalidated, h.noCheckpoint⟩
    · exact ⟨h.invalidated, h.noCheckpoint⟩
  | insertCheckpoint n =>
    obtain ⟨⟨hactive, hwritable, -⟩, t, branch, ⟨-, ht⟩, rfl⟩ := hcheckpoint
    refine ⟨h.invalidated, fun c hc => ?_⟩
    rcases (Table.mem_insert? ht).mp hc with rfl | hold
    · exact h.checkpoint hactive hwritable (hgrounded.checkpoint (Table.mem_insert?_self ht)).anchored
    · exact h.noCheckpoint c hold
  | insertReference r =>
    obtain ⟨-, t, -, rfl⟩ := hcheckpoint
    exact ⟨h.invalidated, h.noCheckpoint⟩

end Statements

/-! ## Events -/

section Events

variable {s s' : Store} {gone : Gone} {scope run : UUID}

/-- **A purge of an effect seals its run.** -/
theorem Purged.seals (h : Purged s s' gone) (hkeys : LedgerKeys s) {e : ToolEffectRow}
    (he : e ∈ s.ledger.effects) (hgone : gone .effects e.id = true) :
    Sealed s' e.scopeId e.runId := by
  constructor
  · obtain ⟨n, hn, hkey⟩ := hkeys.effect_run.exists_parent he rfl
    rw [h.checkpointing]
    refine ⟨_, Store.mem_erase_runs.mpr ⟨n, hn, rfl⟩, ?_⟩
    rw [if_pos]
    · exact ⟨hkey, rfl⟩
    · obtain ⟨hscope, hrun⟩ := Prod.mk.inj hkey
      refine List.any_eq_true.mpr ⟨e, he, ?_⟩
      simp only [hscope, hrun, decide_true, Bool.true_and]
      exact h.coherent.earlier .runs .effects e.id (by decide) hgone
  · intro c hc hkey
    rw [h.checkpointing] at hc
    obtain ⟨hold, hkept⟩ := Table.mem_delete.mp hc
    obtain ⟨hscope, hrun⟩ := Prod.mk.inj hkey
    -- checkpoints of the run are derived from the effect
    have hderived := h.coherent.derived .effects e.id c.id (.run he hold hscope hrun) hgone
    rw [h.coherent.earlier .checkpoints .effects c.id (by decide) hderived] at hkept
    cases hkept

/-- A sealed run stays sealed over a purge. -/
theorem Purged.sealed (h : Purged s s' gone) (hsealed : Sealed s scope run) : Sealed s' scope run := by
  obtain ⟨⟨n, hn, hkey, hinvalidated⟩, hnone⟩ := hsealed
  refine ⟨?_, fun c hc => ?_⟩
  · rw [h.checkpointing]
    refine ⟨_, Store.mem_erase_runs.mpr ⟨n, hn, rfl⟩, ?_⟩
    split
    · exact ⟨hkey, rfl⟩
    · exact ⟨hkey, hinvalidated⟩
  · rw [h.checkpointing] at hc
    exact hnone c (Table.mem_delete.mp hc).1

theorem Purged.ceased (h : Purged s s' gone) : s.ledger.Ceased s'.ledger scope run := by
  rw [h.ledger]
  exact ⟨fun e he _ => ⟨e.currentRevision, (Table.mem_delete.mp he).1⟩,
    fun r hr _ _ => (Table.mem_delete.mp hr).1⟩

/-- **Sealed runs over an event**: they stay sealed, and their effects cease. -/
theorem Sound.sealed {platform : Platform} (hs : Sound s) (h : Sealed s scope run) (e : Event) :
    Sealed (e.exec platform s) scope run
      ∧ s.ledger.Ceased (e.exec platform s).ledger scope run := by
  refine Sound.transition
    (T := fun s s' => Sealed s scope run → Sealed s' scope run ∧ s.ledger.Ceased s'.ledger scope run)
    (R := fun s s' => Sealed s scope run → Sealed s' scope run ∧ s.ledger.Ceased s'.ledger scope run)
    (fun s h => ⟨h, .refl _ _ _⟩) ?_ (fun _ _ h => h)
    (fun _ _ _ _ hp h => ⟨hp.sealed h, hp.ceased⟩)
    (fun s _ h => ⟨⟨h.invalidated, h.noCheckpoint⟩, .refl _ _ _⟩) hs e h
  rintro c st m σ r σ' rfl _ hσ hgrounded hI hallow hstep h
  obtain ⟨hsealed, hceased⟩ := hI h
  have haccepted := st.accepted (step_eq_ok.mp hstep).2.1
  refine ⟨hsealed.statement hallow.quiet haccepted (hallow.grounded hσ hstep hgrounded), ?_⟩
  rcases haccepted.ledger_cases hallow.quiet with hsame | ⟨st', -, hledger⟩
  · rw [hsame]
    exact hceased
  · exact hceased.trans (hledger.ceased hgrounded hsealed)

/-- An effect is kept with its revisions, or its run is sealed. -/
def KeptOrSealed (s s' : Store) (e : ToolEffectRow) : Prop :=
  ((∃ n, { e with currentRevision := n } ∈ s'.ledger.effects)
      ∧ ∀ r ∈ s.ledger.revisionsOf e.id, r ∈ s'.ledger.revisionsOf e.id)
    ∨ Sealed s' e.scopeId e.runId

theorem Ledger.Advanced.keptOrSealed (h : s.ledger.Advanced s'.ledger) {e : ToolEffectRow}
    (he : e ∈ s.ledger.effects) : KeptOrSealed s s' e :=
  Or.inl ⟨h.effects e he, fun r hr => ⟨h.revisions r hr.1, hr.2⟩⟩

/-- **Effects over an event.** -/
theorem Sound.keptOrSealed {platform : Platform} (hs : Sound s) {e : ToolEffectRow}
    (he : e ∈ s.ledger.effects) (event : Event) : KeptOrSealed s (event.exec platform s) e := by
  refine Sound.transition (T := fun s s' => s.ledger.Advanced s'.ledger)
    (R := fun s s' => ∀ e ∈ s.ledger.effects, KeptOrSealed s s' e) (fun s => .refl _) ?_
    (fun _ _ h _ he => h.keptOrSealed he) ?_ (fun s _ _ he => (Ledger.Advanced.refl _).keptOrSealed he)
    hs event e he
  · intro c st m σ r σ' _ _ _ _ hadvanced hallow hstep
    have haccepted := st.accepted (step_eq_ok.mp hstep).2.1
    rcases haccepted.ledger_cases hallow.quiet with hsame | ⟨st', -, hledger⟩
    · rw [hsame]
      exact hadvanced
    · exact hadvanced.trans hledger.advanced
  · intro s s' gone hs hp e he
    cases hgone : gone .effects e.id with
    | true => exact Or.inr (hp.seals hs.integrity.foreign.ledger he hgone)
    | false =>
      refine Or.inl ⟨⟨e.currentRevision, ?_⟩, fun r hr => hp.effectRevisionsOf he hgone ▸ hr⟩
      rw [hp.ledger]
      exact Table.mem_delete.mpr ⟨he, hgone⟩

end Events

/-! ## Runs -/

section Runs

variable {platform : Platform} {s : Store} {scope run : UUID}

/-- **Sealed runs over a run of events.** -/
theorem Reachable.sealed (h : Reachable platform s) (hsealed : Sealed s scope run)
    (events : List Event) : Sealed (runEvents platform events s) scope run
      ∧ s.ledger.Ceased (runEvents platform events s).ledger scope run := by
  induction events generalizing s with
  | nil => exact ⟨hsealed, .refl _ _ _⟩
  | cons e events ih =>
    obtain ⟨hnext, hceased⟩ : Sealed (e.exec platform s) scope run
        ∧ s.ledger.Ceased (e.exec platform s).ledger scope run := h.sound.sealed hsealed e
    obtain ⟨hlast, hceased'⟩ := ih (.event e h) hnext
    exact ⟨hlast, hceased.trans hceased'⟩

/-- **Effects over a run of events.** -/
theorem Reachable.keptOrSealed (h : Reachable platform s) {e : ToolEffectRow}
    (he : e ∈ s.ledger.effects) (events : List Event) :
    KeptOrSealed s (runEvents platform events s) e := by
  induction events generalizing s e with
  | nil => exact (Ledger.Advanced.refl _).keptOrSealed he
  | cons event events ih =>
    have hnext : Reachable platform (event.exec platform s) := .event event h
    have hevent : KeptOrSealed s (event.exec platform s) e := h.sound.keptOrSealed he event
    rcases hevent with ⟨⟨n, hn⟩, hkept⟩ | hsealed
    · rcases ih hnext hn with ⟨⟨n', hn'⟩, hkept'⟩ | hsealed
      · exact Or.inl ⟨⟨n', hn'⟩, fun r hr => hkept' r (hkept r hr)⟩
      · exact Or.inr hsealed
    · exact Or.inr (hnext.sealed hsealed events).1

end Runs

end PgAgmemory

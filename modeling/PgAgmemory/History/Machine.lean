import PgAgmemory.History.Effects
import PgAgmemory.History.Steady

/-! # The machine of an effect

Every revision of an effect follows the one before it by the trigger's rules (`Ledger.Ruled`), so the
history of an effect is a path of the documented machine (`Ledger.Machine`): it starts planned, has at
most four revisions, and ends with an outcome. A revision that was once there never comes back after its
effect was purged, so a head is moved from a number at most once in a run (`Sound.advances_once`). -/

namespace PgAgmemory

open Keyed (HasKey Table key)

/-! ## Rules -/

/-- The receipt of a revision: there is one exactly at an outcome. -/
def ToolEffectRevisionRow.Receipted (r : ToolEffectRevisionRow) : Prop :=
  if r.status.terminal = true then r.receiptReference.isSome = true ∧ r.receiptSource.isSome = true
  else r.receiptReference = none ∧ r.receiptSource = none

/-- **A revision by the rules**: the first one is planned, and a later one follows the one before it. -/
structure Ledger.Ruled (l : Ledger) (r : ToolEffectRevisionRow) : Prop where
  first : r.revision = 1 → r.status = .planned ∧ r.origin = .api
  next : r.revision ≠ 1 → ∃ p ∈ l.revisions, p.effectId = r.effectId ∧ r.revision = p.revision + 1
    ∧ follows p.status r.status = true ∧ p.recordedAt < r.recordedAt
    ∧ (r.origin = .checkpointRestore → p.status = .dispatched ∧ r.status = .unknown)
  receipt : r.Receipted

/-- A revision keeps to the rules when the one before it stays. -/
theorem Ledger.Ruled.mono {l l' : Ledger} {r : ToolEffectRevisionRow} (h : l.Ruled r)
    (hkept : ∀ p ∈ l.revisions, p.effectId = r.effectId → p ∈ l'.revisions) : l'.Ruled r where
  first := h.first
  next hlater := by
    obtain ⟨p, hp, hid, hrest⟩ := h.next hlater
    exact ⟨p, hkept p hp hid, hid, hrest⟩
  receipt := h.receipt

/-- The check constraint on receipts. -/
theorem NewEffectRevision.receipted {n : NewEffectRevision} (h : n.checks = true) (v : View)
    (m : Moment) : (n.row v m).Receipted := by
  rw [checks, Bool.and_eq_true] at h
  obtain ⟨-, hreceipt⟩ := h
  change if n.status.terminal = true then
      n.receiptReference.isSome = true ∧ n.receiptSource.isSome = true
    else n.receiptReference = none ∧ n.receiptSource = none
  have hterminal : n.status = .confirmed ∨ n.status = .failed ↔ n.status.terminal = true := by
    cases n.status <;> simp [EffectStatus.terminal]
  split at hreceipt
  next houtcome =>
    rw [if_pos (hterminal.mp houtcome)]
    exact Bool.and_eq_true_iff.mp hreceipt
  next hopen =>
    rw [if_neg fun h => hopen (hterminal.mpr h)]
    obtain ⟨hreference, hsource⟩ := Bool.and_eq_true_iff.mp hreceipt
    exact ⟨Option.isNone_iff_eq_none.mp hreference, Option.isNone_iff_eq_none.mp hsource⟩

/-- **Statements on effects keep to the rules.** -/
theorem LedgerStatement.Accepted.ruled {v : View} {m : Moment} {l : Ledger} {st : LedgerStatement}
    (h : st.Accepted v m l) (hruled : ∀ r ∈ v.store.ledger.revisions, v.store.ledger.Ruled r) :
    ∀ r ∈ l.revisions, l.Ruled r := by
  cases st with
  | insertRevision n =>
    obtain ⟨⟨-, hchecks, -⟩, t, effects, ⟨hadopts, ht⟩, rfl⟩ := h
    have hkept : ∀ p ∈ v.store.ledger.revisions, p ∈ t := fun p hp =>
      (Table.mem_insert? ht).mpr (Or.inr hp)
    intro r hr
    rcases (Table.mem_insert? ht).mp hr with rfl | hold
    · refine ⟨fun hone => ?_, fun hlater => ?_, n.receipted hchecks v m⟩
      · cases hadopts with
        | first _ _ _ hplanned horigin => exact ⟨hplanned, horigin⟩
        | next _ hfirst _ _ _ => exact absurd hone hfirst
      · cases hadopts with
        | first _ hfirst _ _ _ => exact absurd hfirst hlater
        | @next effect previous heffect _ hprevious hadoptable hclock =>
          obtain ⟨hp, hkey⟩ := Table.find?_eq_some_iff.mp (Option.filter_eq_some_iff.mp hprevious).1
          obtain ⟨hid, hnumber⟩ := Prod.mk.inj hkey
          simp only [transitionAdoptable, Bool.and_eq_true, Bool.or_eq_true, decide_eq_true_eq]
            at hadoptable
          obtain ⟨⟨hnext, hfollows⟩, horigin⟩ := hadoptable
          refine ⟨previous, hkept _ hp, hid, ?_, hfollows, hclock, fun hrestore => ?_⟩
          · change n.revision = previous.revision + 1
            omega
          · have hrestore : n.origin = .checkpointRestore := hrestore
            exact horigin.resolve_left fun hapi => by
              rw [hrestore] at hapi
              cases hapi
    · exact (hruled r hold).mono fun p hp _ => hkept p hp
  | _ =>
    obtain ⟨-, t, -, rfl⟩ := h
    exact fun r hr => (hruled r hr).mono fun p hp _ => hp

/-- Every revision of a reachable ledger keeps to the rules. -/
theorem Reachable.ruled {platform : Platform} {s : Store} (h : Reachable platform s) :
    ∀ r ∈ s.ledger.revisions, s.ledger.Ruled r := by
  refine h.invariant (I := fun s => ∀ r ∈ s.ledger.revisions, s.ledger.Ruled r) ?_ ?_ ?_
    fun _ _ hruled => hruled
  · exact fun access r hr => absurd hr (Table.not_mem_empty r)
  · intro c st m σ r σ' _ _ _ _ hruled hallow hstep
    rcases (st.accepted (step_eq_ok.mp hstep).2.1).ledger_cases hallow.quiet with
      hsame | ⟨st', -, hledger⟩
    · rw [hsame]
      exact hruled
    · exact hledger.ruled hruled
  · intro s s' gone _ hpurged hruled r hr
    rw [hpurged.ledger] at hr ⊢
    obtain ⟨hold, hkept⟩ := Table.mem_delete.mp hr
    refine (hruled r hold).mono fun p hp hid => Table.mem_delete.mpr ⟨hp, ?_⟩
    rw [hid]
    exact hkept

/-! ## The machine -/

/-- **The history of an effect**, as the documented machine has it. -/
structure Ledger.Machine (l : Ledger) (e : ToolEffectRow) : Prop where
  /-- The revisions are `1, …, current`, each once. -/
  numbered : ∀ k, (∃ r ∈ l.revisionsOf e.id, r.revision = k) ↔ 1 ≤ k ∧ k ≤ e.currentRevision
  unique : ∀ r ∈ l.revisionsOf e.id, ∀ r' ∈ l.revisionsOf e.id, r.revision = r'.revision → r = r'
  /-- Later revisions are recorded later. -/
  increasing : ∀ r ∈ l.revisionsOf e.id, ∀ r' ∈ l.revisionsOf e.id, r.revision < r'.revision →
    r.recordedAt < r'.recordedAt
  /-- The statuses are a path from planned. -/
  planned : ∀ r ∈ l.revisionsOf e.id, r.revision = 1 → r.status = .planned
  path : ∀ r ∈ l.revisionsOf e.id, ∀ r' ∈ l.revisionsOf e.id, r'.revision = r.revision + 1 →
    r'.status ∈ transitions r.status
  /-- There are at most four revisions. -/
  short : 1 ≤ e.currentRevision ∧ e.currentRevision ≤ 4
  /-- Outcomes are never left. -/
  settled : ∀ r ∈ l.revisionsOf e.id, r.status = .confirmed ∨ r.status = .failed →
    r.revision = e.currentRevision
  /-- After unknown comes no dispatch. -/
  undispatched : ∀ r ∈ l.revisionsOf e.id, ∀ r' ∈ l.revisionsOf e.id, r.status = .unknown →
    r.revision < r'.revision → r'.status ≠ .dispatched
  /-- Receipts exist exactly at outcomes. -/
  receipts : ∀ r ∈ l.revisionsOf e.id, r.Receipted
  /-- A restore only moves from dispatched to unknown. -/
  restores : ∀ r ∈ l.revisionsOf e.id, r.origin = .checkpointRestore → r.status = .unknown
    ∧ ∃ p ∈ l.revisionsOf e.id, r.revision = p.revision + 1 ∧ p.status = .dispatched

/-- An outcome is the last stage. -/
theorem EffectStatus.stage_eq_three {status : EffectStatus}
    (h : status = .confirmed ∨ status = .failed) : status.stage = 3 := by
  rcases h with rfl | rfl <;> rfl

section Machine

variable {l : Ledger} {e : ToolEffectRow}

/-- Later revisions are recorded later. -/
theorem Ledger.Recorded.recordedAt_lt (h : l.Recorded e) (hruled : ∀ r ∈ l.revisions, l.Ruled r)
    {r r' : ToolEffectRevisionRow} (hr : r ∈ l.revisionsOf e.id) (hr' : r' ∈ l.revisionsOf e.id)
    (hlt : r.revision < r'.revision) : r.recordedAt < r'.recordedAt := by
  -- by induction on the distance, stepping back from the later revision
  obtain ⟨k, hk⟩ := Nat.exists_eq_add_of_lt hlt
  have hpositive := h.positive r hr
  induction k generalizing r' with
  | zero =>
    obtain ⟨p, hp, hid, hnumber, -, htime, -⟩ := (hruled r' hr'.1).next (by omega)
    obtain rfl : p = r := Ledger.Recorded.unique ⟨hp, hid.trans hr'.2⟩ hr (by omega)
    exact htime
  | succ k ih =>
    obtain ⟨p, hp, hid, hnumber, -, htime, -⟩ := (hruled r' hr'.1).next (by omega)
    exact (ih ⟨hp, hid.trans hr'.2⟩ (by omega) (by omega)).trans htime

/-- **Statuses strictly move forward.** -/
theorem Ledger.Recorded.stage_lt (h : l.Recorded e) {r r' : ToolEffectRevisionRow}
    (hr : r ∈ l.revisionsOf e.id) (hr' : r' ∈ l.revisionsOf e.id) (hlt : r.revision < r'.revision) :
    r.status.stage < r'.status.stage := by
  have hpositive := h.positive r hr
  obtain ⟨p, hp, hnumber, hfollows⟩ := h.previous r' hr' (by omega)
  exact Nat.lt_of_le_of_lt (h.stage_le hr hp (by omega)) (stage_lt_of_follows hfollows)

/-- **A history by the rules is one of the machine.** -/
theorem Ledger.Recorded.machine (h : l.Recorded e) (hruled : ∀ r ∈ l.revisions, l.Ruled r)
    (hcurrent : ∃ r, l.Current e r) : l.Machine e := by
  obtain ⟨c, hc, hcurrent⟩ := hcurrent
  have hnumbered : ∀ k, (∃ r ∈ l.revisionsOf e.id, r.revision = k)
      ↔ 1 ≤ k ∧ k ≤ e.currentRevision := by
    intro k
    constructor
    · rintro ⟨r, hr, rfl⟩
      exact ⟨h.positive r hr, h.bounded r hr⟩
    · rintro ⟨hone, hle⟩
      exact h.exists_revision hc hone (hle.trans_eq hcurrent.symm)
  refine {
    numbered := hnumbered
    unique := fun r hr r' hr' => Ledger.Recorded.unique hr hr'
    increasing := fun r hr r' hr' hlt => h.recordedAt_lt hruled hr hr' hlt
    planned := fun r hr hone => ((hruled r hr.1).first hone).1
    path := fun r hr r' hr' hnext => ?_
    short := ?_
    settled := fun r hr houtcome => ?_
    undispatched := fun r hr r' hr' hunknown hlt hdispatched => ?_
    receipts := fun r hr => (hruled r hr.1).receipt
    restores := fun r hr hrestore => ?_ }
  · have hpositive := h.positive r hr
    obtain ⟨p, hp, hnumber, hfollows⟩ := h.previous r' hr' (by omega)
    obtain rfl : p = r := Ledger.Recorded.unique hp hr (by omega)
    exact mem_transitions.mpr hfollows
  · have hpositive := h.positive c hc
    have hstage := h.revision_le hc
    have hlast := c.status.stage_le
    omega
  · by_contra hne
    have hbound := h.bounded r hr
    have hstage := h.stage_lt hr hc (by omega)
    have hlast := c.status.stage_le
    rw [EffectStatus.stage_eq_three houtcome] at hstage
    omega
  · have hstage := h.stage_lt hr hr' hlt
    rw [hunknown, hdispatched] at hstage
    exact absurd hstage (by decide)
  · have hlater : r.revision ≠ 1 := fun hone => by
      rw [((hruled r hr.1).first hone).2] at hrestore
      cases hrestore
    obtain ⟨p, hp, hid, hnumber, -, -, horigin⟩ := (hruled r hr.1).next hlater
    obtain ⟨hdispatched, hunknown⟩ := horigin hrestore
    exact ⟨hunknown, p, ⟨hp, hid.trans hr.2⟩, hnumber, hdispatched⟩

/-- **Every effect of a reachable store has a history of the machine.** -/
theorem Reachable.machine {platform : Platform} {s : Store} (h : Reachable platform s)
    (he : e ∈ s.ledger.effects) : s.ledger.Machine e :=
  (h.sequenced.recorded e he).machine h.ruled (h.sound.integrity.deferred.exists_current he)

end Machine

/-! ## Advances -/

/-- The store has the revision of an effect with a number. -/
def Store.HasEffectRevision (s : Store) (id : UUID) (n : Nat) : Prop :=
  ∃ r ∈ s.ledger.revisions, r.effectId = id ∧ r.revision = n

/-- **An advance** of an effect from a revision: an event that adds the next one. -/
def Event.Advances (platform : Platform) (s : Store) (e : Event) (id : UUID) (n : Nat) : Prop :=
  ¬ s.HasEffectRevision id (n + 1) ∧ (e.exec platform s).HasEffectRevision id (n + 1)

/-- An id whose effect is gone: it was taken, and no effect has it. -/
def Store.EffectGone (s : Store) (id : UUID) : Prop :=
  (∃ o ∈ s.anchor.objects, o.id = id) ∧ ∀ e ∈ s.ledger.effects, e.id ≠ id

/-- **What runs do to effects**: an effect is old or fresh, and a revision stays as long as its effect
does. -/
structure EffectsSteady (s s' : Store) : Prop where
  effects : ∀ e' ∈ s'.ledger.effects, Fresh s e'.id ∨ ∃ e ∈ s.ledger.effects, e.id = e'.id
  revisions : ∀ r ∈ s.ledger.revisions, r ∈ s'.ledger.revisions
    ∨ ∀ e' ∈ s'.ledger.effects, e'.id ≠ r.effectId

theorem EffectsSteady.refl (s : Store) : EffectsSteady s s :=
  ⟨fun e he => Or.inr ⟨e, he, rfl⟩, fun _ hr => Or.inl hr⟩

/-- **Every event keeps effects steady.** -/
theorem Sound.effectsSteady {platform : Platform} {s : Store} (hs : Sound s) (e : Event) :
    EffectsSteady s (e.exec platform s) := by
  refine Sound.transition (R := EffectsSteady) (T := fun s s' =>
    (∀ e' ∈ s'.ledger.effects, Fresh s e'.id ∨ ∃ e ∈ s.ledger.effects, e.id = e'.id)
      ∧ ∀ r ∈ s.ledger.revisions, r ∈ s'.ledger.revisions) ?_ ?_ ?_ ?_ ?_ hs e
  · exact fun s => ⟨fun e he => Or.inr ⟨e, he, rfl⟩, fun _ hr => hr⟩
  · rintro c st m σ r σ' - - - - ⟨heffects, hrevisions⟩ hallow hstep
    rcases (st.accepted (step_eq_ok.mp hstep).2.1).ledger_cases hallow.quiet with
      hsame | ⟨st', rfl, hledger⟩
    · rw [hsame]
      exact ⟨heffects, hrevisions⟩
    refine ⟨fun e' he' => ?_, fun r hr => hledger.advanced.revisions r (hrevisions r hr)⟩
    generalize σ'.store.ledger = l at hledger he'
    cases st' with
    | insertEffect n =>
      obtain ⟨-, t, ht, rfl⟩ := hledger
      rcases (Table.mem_insert? ht).mp he' with rfl | hold
      · exact Or.inl hallow
      · exact heffects e' hold
    | insertRevision n =>
      obtain ⟨-, t, effects, ⟨hadopts, -⟩, rfl⟩ := hledger
      cases hadopts with
      | first _ _ _ _ _ => exact heffects e' he'
      | next _ _ _ _ _ =>
        obtain ⟨e'', he'', rfl⟩ := mem_moveEffectHead_iff.mp he'
        have hid : (if e''.id = n.effectId then { e'' with currentRevision := n.revision }
            else e'').id = e''.id := by
          split <;> rfl
        rw [hid]
        exact heffects e'' he''
    | _ =>
      obtain ⟨-, t, -, rfl⟩ := hledger
      exact heffects e' he'
  · exact fun s s' h => ⟨h.1, fun r hr => Or.inl (h.2 r hr)⟩
  · intro s s' gone hs hpurged
    refine ⟨fun e' he' => ?_, fun r hr => ?_⟩
    · rw [hpurged.ledger] at he'
      exact Or.inr ⟨e', (Table.mem_delete.mp he').1, rfl⟩
    · obtain ⟨e, he, hid⟩ := hs.integrity.foreign.ledger.revision_effect.exists_parent hr rfl
      rw [hpurged.ledger]
      by_cases hgone : gone .effectRevisions r.effectId = true
      · -- the revisions of an effect go with their effect
        refine Or.inr fun e' he' hid' => ?_
        obtain ⟨-, hkept⟩ := Table.mem_delete.mp he'
        have hboth := hpurged.effectHeads e he
        have hid : e.id = r.effectId := hid
        rw [hid, hgone, ← hid'] at hboth
        exact absurd (hkept.symm.trans hboth) Bool.false_ne_true
      · exact Or.inl (Table.mem_delete.mpr ⟨hr, Bool.eq_false_iff.mpr hgone⟩)
  · exact fun s access => ⟨fun e he => Or.inr ⟨e, he, rfl⟩, fun _ hr => Or.inl hr⟩

section Advances

variable {platform : Platform} {s : Store} {id : UUID} {n : Nat}

/-- An effect that is gone does not come back. -/
theorem Sound.effectGone (hs : Sound s) (e : Event) (h : s.EffectGone id) :
    (e.exec platform s).EffectGone id := by
  obtain ⟨⟨o, ho, hoid⟩, hnone⟩ := h
  refine ⟨⟨o, (hs.steady e).objects o ho, hoid⟩, fun e' he' hid' => ?_⟩
  rcases (hs.effectsSteady e).effects e' he' with hfresh | ⟨e₀, he₀, hid₀⟩
  · exact hfresh o ho (hoid.trans hid'.symm)
  · exact hnone e₀ he₀ (hid₀.trans hid')

/-- A gone effect has no revisions. -/
theorem Sound.not_hasEffectRevision (hs : Sound s) (h : s.EffectGone id) (n : Nat) :
    ¬ s.HasEffectRevision id n := by
  rintro ⟨r, hr, hid, -⟩
  obtain ⟨e, he, heid⟩ := hs.integrity.foreign.ledger.revision_effect.exists_parent hr rfl
  exact h.2 e he (heid.trans hid)

/-- **A revision stays until its effect is gone for good.** -/
theorem Sound.revision_or_gone (hs : Sound s) (events : List Event)
    (h : s.HasEffectRevision id n ∨ s.EffectGone id) :
    (runEvents platform events s).HasEffectRevision id n
      ∨ (runEvents platform events s).EffectGone id := by
  induction events generalizing s with
  | nil => exact h
  | cons e events ih =>
    refine ih (hs.event e) ?_
    rcases h with ⟨r, hr, hid, hnumber⟩ | hgone
    · rcases (hs.effectsSteady e).revisions r hr with hkept | hnone
      · exact Or.inl ⟨r, hkept, hid, hnumber⟩
      · refine Or.inr ⟨?_, fun e' he' hid' => hnone e' he' (hid'.trans hid.symm)⟩
        obtain ⟨e₀, he₀, heid⟩ := hs.integrity.foreign.ledger.revision_effect.exists_parent hr rfl
        obtain ⟨o, ho, hkey⟩ := hs.integrity.foreign.ledger.effect_object.exists_parent he₀ rfl
        exact ⟨o, (hs.steady e).objects o ho, (Prod.mk.inj hkey).1.trans (heid.trans hid)⟩
    · exact Or.inr (hs.effectGone e hgone)

/-- **At most one event of a run advances an effect from a revision.** -/
theorem Sound.advances_once (hs : Sound s) {e e' : Event} (h : e.Advances platform s id n)
    (between : List Event) :
    ¬ e'.Advances platform (runEvents platform between (e.exec platform s)) id n := by
  rintro ⟨hnone, hhas⟩
  rcases (hs.event e).revision_or_gone between (Or.inl h.2) with hkept | hgone
  · exact hnone hkept
  · have hs' : Sound (runEvents platform between (e.exec platform s)) := (hs.event e).run between
    exact (hs'.event e').not_hasEffectRevision (hs'.effectGone e' hgone) (n + 1) hhas

end Advances

end PgAgmemory

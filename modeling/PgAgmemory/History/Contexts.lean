import PgAgmemory.Guarantees.AccessLog
import PgAgmemory.History.Steady

/-! # The context of a tenant

Every change of a membership advances the access epoch, and every purge the deletion epoch. So two
stores of a run with the same epochs have the same memberships and the same tombstones
(`Sound.dated_run`): a worker that compares epochs learns that nothing was revoked or deleted. -/

namespace PgAgmemory

/-- **The same context**: nobody's access has changed, and nothing was deleted. -/
structure SameContext (s s' : Store) : Prop where
  access : s'.access = s.access
  tombstones : s'.anchor.tombstones = s.anchor.tombstones

/-- **Epochs date the context**: they only grow, and stay only while the context does. -/
structure Dated (s s' : Store) : Prop where
  accessEpoch : s.access.accessEpoch ≤ s'.access.accessEpoch
  deletionEpoch : s.access.deletionEpoch ≤ s'.access.deletionEpoch
  same : s'.access.accessEpoch = s.access.accessEpoch →
    s'.access.deletionEpoch = s.access.deletionEpoch → SameContext s s'

theorem SameContext.refl (s : Store) : SameContext s s := ⟨rfl, rfl⟩

theorem SameContext.trans {s s' s'' : Store} (h : SameContext s s') (h' : SameContext s' s'') :
    SameContext s s'' := ⟨h'.access.trans h.access, h'.tombstones.trans h.tombstones⟩

theorem SameContext.dated {s s' : Store} (h : SameContext s s') : Dated s s' :=
  ⟨h.access ▸ Nat.le_refl _, h.access ▸ Nat.le_refl _, fun _ _ => h⟩

namespace Dated

variable {s s' s'' : Store}

theorem refl (s : Store) : Dated s s := (SameContext.refl s).dated

theorem trans (h : Dated s s') (h' : Dated s' s'') : Dated s s'' where
  accessEpoch := h.accessEpoch.trans h'.accessEpoch
  deletionEpoch := h.deletionEpoch.trans h'.deletionEpoch
  same haccess hdeletion := by
    -- epochs that are the same at both ends are the same between them
    have haccess₁ := h.accessEpoch
    have haccess₂ := h'.accessEpoch
    have hdeletion₁ := h.deletionEpoch
    have hdeletion₂ := h'.deletionEpoch
    exact (h.same (by omega) (by omega)).trans (h'.same (by omega) (by omega))

end Dated

variable {platform : Platform} {s : Store}

/-- A committed request that does not delete keeps the context. -/
theorem Sound.sameContext {c : Call} {response : Response} {s' : Store} (hs : Sound s)
    (hdeletes : c.request.deletes = false)
    (h : PgAgmemory.attempt platform c.timeline c.principal (c.request.program platform) s
      = .ok (response, s')) : SameContext s s' := by
  obtain ⟨n, σ, rfl, -, hgrown, -⟩ := Request.attempt_invariant (c := c.setting platform s)
    (I := fun σ => Grown s σ.store) hs.integrity.foreign hdeletes rfl (.refl s)
    (fun st n σ r σ' _ hgrown hallow hrun => hgrown.trans (step_grown hallow.quiet hrun)) h
  exact ⟨hgrown.access, hgrown.tombstones⟩

/-- **Every event dates the context.** -/
theorem Sound.dated (hs : Sound s) (e : Event) : Dated s (e.exec platform s) := by
  cases e with
  | call c =>
    show Dated s (c.exec platform s).2
    rcases c.exec_cases platform s with ⟨fault, hexec⟩ | ⟨response, s', hok, hexec⟩
    · rw [hexec]
      exact .refl s
    · rw [hexec]
      rcases hs.attempt_cases hok with hdeletes | rfl | ⟨gone, hpurged⟩
      · exact (hs.sameContext hdeletes hok).dated
      · exact .refl s'
      · show Dated s s'
        have haccess := hpurged.access
        constructor
        · rw [haccess]
        · rw [haccess]
          exact Nat.le_succ _
        · intro _ hsame
          rw [haccess] at hsame
          exact absurd hsame (Nat.succ_ne_self _)
  | access request now recordedAt =>
    rw [Event.exec]
    cases hrun : request.run now recordedAt s with
    | error fault => exact .refl s
    | ok result =>
      obtain ⟨r, s'⟩ := result
      show Dated s s'
      have hruns := ScopeAccessRequest.runs hrun
      cases hchanged : r.changed with
      | false =>
        rw [hruns.stays hchanged]
        exact .refl s
      | true =>
        obtain ⟨-, -, -, event, hevent, -⟩ := hruns.changes hchanged
        constructor
        · rw [hevent.epoch]
          exact Nat.le_succ _
        · rw [hevent.others.1]
        · intro hsame _
          rw [hevent.epoch] at hsame
          exact absurd hsame (Nat.succ_ne_self _)

/-- **Every run dates the context.** -/
theorem Sound.dated_run (hs : Sound s) (events : List Event) :
    Dated s (runEvents platform events s) := by
  induction events generalizing s with
  | nil => exact .refl s
  | cons e events ih => exact (hs.dated e).trans (ih (hs.event e))

end PgAgmemory

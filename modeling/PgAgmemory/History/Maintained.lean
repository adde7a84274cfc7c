import PgAgmemory.History.Orderly
import PgAgmemory.Operations.Parts

/-! # Properties that operations maintain

What the parts of operations and purges keep holds of every reachable store (`Reachable.maintained`);
what they keep when purges are wholesale holds of every store of an orderly run (`Orderly.maintained`). -/

namespace PgAgmemory

/-- A property of stores, in a session whose store meets the foreign keys. -/
structure Holding (J : Store → Prop) (σ : Session) : Prop where
  foreign : ForeignKeys σ.store
  holds : J σ.store

/-- **A property of stores that every part of an operation maintains.** -/
structure Maintained (platform : Platform) (J : Store → Prop) : Prop where
  provisioned : ∀ access, J (.provisioned access)
  parts : ∀ timeline, Parts platform timeline (Holding J)
  access : ∀ s access, access.dedupSecret = s.access.dedupSecret → J s → J { s with access := access }

namespace Maintained

variable {platform : Platform} {J : Store → Prop} {s s' : Store} (h : Maintained platform J)

include h

/-- A committed request that does not delete. -/
theorem attempt {c : Call} {response : Response} (hs : Sound s) (hJ : J s)
    (hdeletes : c.request.deletes = false)
    (hok : PgAgmemory.attempt platform c.timeline c.principal (c.request.program platform) s
      = .ok (response, s')) : J s' := by
  have hstart : Holding J (.start c.principal s) := ⟨hs.integrity.foreign, hJ⟩
  obtain ⟨n, σ, hrun, hcommit⟩ := attempt_eq_ok.mp hok
  obtain ⟨-, rfl⟩ := commit_eq_ok.mp hcommit
  exact (((h.parts c.timeline).request hdeletes hstart).of_run hrun).holds

/-- An event, where committed requests keep the property. -/
theorem event (hJ : J s) {e : Event}
    (hcall : ∀ c response s', e = .call c →
      PgAgmemory.attempt platform c.timeline c.principal (c.request.program platform) s
        = .ok (response, s') → J s') : J (e.exec platform s) := by
  cases e with
  | call c =>
    change J (c.exec platform s).2
    rcases c.exec_cases platform s with ⟨fault, hexec⟩ | ⟨response, s', hok, hexec⟩
    · rw [hexec]
      exact hJ
    · rw [hexec]
      exact hcall c response s' rfl hok
  | access request now recordedAt =>
    obtain ⟨access, hsecret, hexec⟩ := Event.exec_secret platform request now recordedAt s
    rw [hexec]
    exact h.access s access hsecret hJ

/-- **Every reachable store** has what purges keep as well. -/
theorem reachable (hpurge : ∀ s s' gone, Sound s' → J s → Purged s s' gone → J s')
    (hs : Reachable platform s) : J s := by
  induction hs with
  | provisioned access => exact h.provisioned access
  | event e hreachable ih =>
    refine h.event ih fun c response s' _ hok => ?_
    rcases hreachable.sound.attempt_cases hok with hdeletes | rfl | ⟨gone, hpurged⟩
    · exact h.attempt hreachable.sound ih hdeletes hok
    · exact ih
    · exact hpurge _ s' gone (hreachable.sound.attempt hok) ih hpurged

/-- **Every store of an orderly run** has what wholesale purges keep as well. -/
theorem orderly (hpurge : ∀ s s' erased, Orderly platform s → Sound s' → J s →
      Wholesale s s' erased → J s')
    (hs : Orderly platform s) : J s := by
  induction hs with
  | provisioned access => exact h.provisioned access
  | event e horderly hlasting ih =>
    have hsound := horderly.reachable.sound
    refine h.event ih fun c response s' he hok => ?_
    subst he
    rcases hsound.lasting_cases hlasting hok with hdeletes | rfl | ⟨erased, hwholesale⟩
    · exact h.attempt hsound ih hdeletes hok
    · exact ih
    · exact hpurge _ s' erased horderly (hsound.attempt hok) ih hwholesale

end Maintained

end PgAgmemory

import PgAgmemory.Forgetting.Lasting
import PgAgmemory.History.Kept
import PgAgmemory.History.Seals

/-! # Orderly runs

A run is orderly (`Orderly`) when every purge of it fails or lasts: its caller's membership does not
expire between the selection of the targets and their marking. Then every purge is wholesale, and every
store of the run is intact (`Orderly.intact`): no object has lost a part of what it was created
with. -/

namespace PgAgmemory

open Keyed (HasKey Table key)

/-- **A lasting event**: a purge that is admitted fails, or its membership lasts. -/
def Event.Lasting (platform : Platform) (s : Store) : Event → Prop
  | .call ⟨principal, timeline, .forget data key⟩ => data.mode = .purge →
    Admits platform timeline principal s data key →
      Fails timeline principal s data ∨ Lasts timeline principal s data
  | _ => True

/-- A run of lasting events. -/
def LastingRun (platform : Platform) : List Event → Store → Prop
  | [], _ => True
  | e :: events, s => e.Lasting platform s ∧ LastingRun platform events (e.exec platform s)

/-- **The stores of orderly runs.** -/
inductive Orderly (platform : Platform) : Store → Prop where
  | provisioned (access : Access) : Orderly platform (.provisioned access)
  | event {s : Store} (e : Event) (h : Orderly platform s) (hlasting : e.Lasting platform s) :
    Orderly platform (e.exec platform s)

section Orderly

variable {platform : Platform} {s s' : Store}

theorem Orderly.reachable (h : Orderly platform s) : Reachable platform s := by
  induction h with
  | provisioned access => exact .provisioned access
  | event e _ _ ih => exact .event e ih

/-- An orderly store and a lasting run from it. -/
theorem Orderly.run (h : Orderly platform s) {events : List Event}
    (hlasting : LastingRun platform events s) : Orderly platform (runEvents platform events s) := by
  induction events generalizing s with
  | nil => exact h
  | cons e events ih => exact ih (.event e h hlasting.1) hlasting.2

/-- **The three kinds of committed requests of an orderly run**: a purge is wholesale. -/
theorem Sound.lasting_cases {c : Call} {response : Response} (hs : Sound s)
    (hlasting : Event.Lasting platform s (.call c))
    (h : PgAgmemory.attempt platform c.timeline c.principal (c.request.program platform) s
      = .ok (response, s')) :
    c.request.deletes = false ∨ s' = s ∨ ∃ erased, Wholesale s s' erased := by
  obtain ⟨principal, timeline, request⟩ := c
  cases request with
  | forget data key =>
    right
    rcases attempt_forget hs.grounded hs.integrity hs.auditFresh h with
      hsame | ⟨hmode, hadmits, hrefused, -, hleaves⟩
    · exact Or.inl hsame
    · rcases hlasting hmode hadmits with hfails | hlasts
      · exact absurd ((purgeRefused_iff hs.grounded).mpr hfails) hrefused
      · exact Or.inr ⟨_, hleaves.wholesale hs.grounded hadmits hrefused hlasts⟩
  | _ => exact Or.inl rfl

/-! ## Intact stores -/

namespace Wholesale

variable {erased : UUID → Bool} {id : UUID}

/-- Rows that a wholesale purge leaves alone. -/
theorem hasRow (h : Wholesale s s' erased) (hkept : erased id = false) {kind : ObjectKind}
    (hrow : HasRow s id kind) : HasRow s' id kind := by
  cases kind with
  | episode =>
    obtain ⟨r, hr, rfl⟩ := hrow
    exact ⟨r, h.purged.contents ▸ Table.mem_delete.mpr ⟨hr, hkept⟩, rfl⟩
  | assertion =>
    obtain ⟨r, hr, rfl⟩ := hrow
    exact ⟨r, h.purged.contents ▸ Table.mem_delete.mpr ⟨hr, hkept⟩, rfl⟩
  | checkpoint =>
    obtain ⟨r, hr, rfl⟩ := hrow
    exact ⟨r, h.purged.checkpointing ▸ Table.mem_delete.mpr ⟨hr, hkept⟩, rfl⟩
  | toolEffect =>
    obtain ⟨r, hr, rfl⟩ := hrow
    exact ⟨r, h.purged.ledger ▸ Table.mem_delete.mpr ⟨hr, hkept⟩, rfl⟩
  | entity =>
    obtain ⟨r, hr, rfl⟩ := hrow
    exact ⟨r, h.purged.graph ▸ Table.mem_delete.mpr ⟨hr, hkept⟩, rfl⟩
  | job =>
    obtain ⟨r, hr, rfl⟩ := hrow
    exact ⟨r, h.purged.queue ▸ Table.mem_delete.mpr ⟨hr, hkept⟩, rfl⟩

/-- The references of a checkpoint that a wholesale purge leaves. -/
theorem refsOf (h : Wholesale s s' erased) (hkept : erased id = false) :
    s'.checkpointing.refsOf id = s.checkpointing.refsOf id := by
  have hrows : s'.checkpointing.references.rows.filter (·.checkpointId = id)
      = s.checkpointing.references.rows.filter (·.checkpointId = id) := by
    rw [h.purged.checkpointing]
    change (List.filter _ (List.filter _ _)) = _
    rw [List.filter_filter]
    refine List.filter_congr fun r _ => ?_
    by_cases hid : r.checkpointId = id
    · rw [decide_eq_true hid, Bool.true_and]
      change (!erased r.checkpointId) = true
      rw [hid, hkept]
      rfl
    · rw [decide_eq_false hid]
      rfl
  rw [Checkpointing.refsOf, Checkpointing.refsOf, hrows]

/-- **A wholesale purge keeps every object whole**: what it erases has nothing left. -/
theorem whole (h : Wholesale s s' erased) (hwhole : Whole platform s id) : Whole platform s' id := by
  have hp := h.purged
  constructor
  -- An object without a tombstone was not erased: every erased id has one.
  · intro o ho hid hlive
    have hkept : erased id = false := by
      by_contra hgone
      obtain ⟨t, ht, hmark⟩ := h.marked id (Bool.not_eq_false _ |>.mp hgone)
      exact hlive t ht hmark
    refine h.hasRow hkept (hwhole.row o (hp.objects ▸ ho) hid fun t ht => hlive t (hp.marked t ht))
  -- A purge erases by id, so what counts the parts of a kept object counts as many as before.
  · intro e he hid
    rw [hp.ledger] at he ⊢
    obtain ⟨hold, hkept⟩ := Table.mem_delete.mp he
    refine (Table.countP_delete fun r _ hr => ?_).trans (hwhole.effect e hold hid)
    rw [of_decide_eq_true hr, ← hid]
    exact hkept
  · intro e he hid
    rw [hp.graph] at he ⊢
    obtain ⟨hold, hkept⟩ := Table.mem_delete.mp he
    refine (Table.countP_delete fun r _ hr => ?_).trans (hwhole.entity e hold hid)
    rw [of_decide_eq_true hr, ← hid]
    exact hkept
  · intro j hj hid
    rw [hp.queue] at hj ⊢
    obtain ⟨hold, hkept⟩ := Table.mem_delete.mp hj
    refine (Table.countP_delete fun r _ hr => ?_).trans (hwhole.job j hold hid)
    rw [of_decide_eq_true hr, ← hid]
    exact hkept
  · intro k hk hid
    have hmem : k ∈ (s.erase fun _ => erased).checkpointing.checkpoints := hp.checkpointing ▸ hk
    obtain ⟨hold, hkept⟩ := Table.mem_delete.mp hmem
    have hkept : erased id = false := hid ▸ hkept
    obtain ⟨hcount, hvalid, n, hn, hkey, hsigned⟩ := hwhole.checkpoint k hold hid
    rw [h.refsOf hkept]
    refine ⟨hcount, hvalid, ?_⟩
    have hdigest : s'.digest platform = s.digest platform := by
      funext text
      rw [Store.digest, Store.digest, hp.access]
    refine ⟨_, hp.checkpointing ▸ Store.mem_erase_runs.mpr ⟨n, hn, rfl⟩, ?_, ?_⟩
    · split <;> exact hkey
    · rw [hdigest, hsigned]
      split <;> rfl
  · intro a ha hid hrelation
    have hmem : a ∈ (s.erase fun _ => erased).contents.assertions := hp.contents ▸ ha
    obtain ⟨hold, hkept⟩ := Table.mem_delete.mp hmem
    have hkept : erased id = false := hid ▸ hkept
    obtain ⟨⟨l, hl, hlid⟩, htargets⟩ := hwhole.relation a hold hid hrelation
    rw [hp.graph]
    refine ⟨⟨l, Table.mem_delete.mpr ⟨hl, hlid ▸ hkept⟩, hlid⟩, fun r hr hof => ?_⟩
    have hrmem : r ∈ (s.erase fun _ => erased).contents.revisions := hp.contents ▸ hr
    obtain ⟨t, ht, hkey⟩ := htargets r (Table.mem_delete.mp hrmem).1 hof
    refine ⟨t, Table.mem_delete.mpr ⟨ht, ?_⟩, hkey⟩
    rw [(Prod.mk.inj hkey).1, hof]
    exact hkept

end Wholesale

/-- A committed request that does not delete keeps a store intact. -/
theorem Intact.attempt {c : Call} {response : Response} (hs : Sound s)
    (hdeletes : c.request.deletes = false) (hintact : Intact platform s)
    (hok : PgAgmemory.attempt platform c.timeline c.principal (c.request.program platform) s
      = .ok (response, s')) : Intact platform s' := by
  have hkept : Kept platform (.start c.principal s) := ⟨hs.integrity.foreign, hintact⟩
  obtain ⟨n, σ, hrun, hcommit⟩ := attempt_eq_ok.mp hok
  obtain ⟨-, rfl⟩ := commit_eq_ok.mp hcommit
  exact ((Request.keeps hdeletes hkept).of_run hrun).intact

/-- Access does not count, but for the secret. -/
theorem Intact.with_access (hintact : Intact platform s) {access : Access}
    (hsecret : access.dedupSecret = s.access.dedupSecret) :
    Intact platform { s with access := access } := by
  intro id
  have hwhole := hintact id
  have hdigest : Store.digest platform { s with access := access } = s.digest platform := by
    funext text
    rw [Store.digest, Store.digest, hsecret]
  exact { hwhole with checkpoint := hdigest ▸ hwhole.checkpoint }

/-- A lasting event keeps a store intact. -/
theorem Intact.event (hs : Sound s) (hintact : Intact platform s) (e : Event)
    (hlasting : e.Lasting platform s) : Intact platform (e.exec platform s) := by
  cases e with
  | call c =>
    change Intact platform (c.exec platform s).2
    rcases c.exec_cases platform s with ⟨fault, hexec⟩ | ⟨response, s', hok, hexec⟩
    · rw [hexec]
      exact hintact
    · rw [hexec]
      rcases hs.lasting_cases hlasting hok with hdeletes | rfl | ⟨erased, hwholesale⟩
      · exact hintact.attempt hs hdeletes hok
      · exact hintact
      · exact fun id => hwholesale.whole (hintact id)
  | access request now recordedAt =>
    obtain ⟨access, hsecret, hexec⟩ := Event.exec_secret platform request now recordedAt s
    rw [hexec]
    exact hintact.with_access hsecret

/-- A store without content is intact. -/
theorem intact_provisioned (access : Access) : Intact platform (.provisioned access) := by
  intro id
  constructor
  · exact fun o ho => absurd ho (Table.not_mem_empty o)
  · exact fun e he => absurd he (Table.not_mem_empty e)
  · exact fun e he => absurd he (Table.not_mem_empty e)
  · exact fun j hj => absurd hj (Table.not_mem_empty j)
  · exact fun k hk => absurd hk (Table.not_mem_empty k)
  · exact fun a ha => absurd ha (Table.not_mem_empty a)

/-- **Every store of an orderly run is intact.** -/
theorem Orderly.intact (h : Orderly platform s) : Intact platform s := by
  induction h with
  | provisioned access => exact intact_provisioned access
  | event e h hlasting ih => exact ih.event h.reachable.sound e hlasting

/-! ## Transitions -/

/-- **Transition rule for lasting events**: what the discipline keeps between the start of a transaction
and its end, and wholesale purges keep between two stores. -/
theorem Sound.lasting_transition {T R : Store → Store → Prop} (hrefl : ∀ s, T s s)
    (hstep : ∀ (c : Setting) st m (σ : Session) r σ', c.platform = platform → Sound c.start →
      Underway c σ → Grounded σ.store → T c.start σ.store → Writes c σ st →
      step platform st m σ = .ok (r, σ') → T c.start σ'.store)
    (hquiet : ∀ s s', T s s' → R s s')
    (hpurge : ∀ s s' erased, Sound s → Wholesale s s' erased → R s s')
    (haccess : ∀ s access, R s { s with access := access }) (hs : Sound s) (e : Event)
    (hlasting : e.Lasting platform s) : R s (e.exec platform s) := by
  cases e with
  | call c =>
    change R s (c.exec platform s).2
    rcases c.exec_cases platform s with ⟨fault, hexec⟩ | ⟨response, s', hok, hexec⟩
    · rw [hexec]
      exact hquiet s s (hrefl s)
    rw [hexec]
    rcases hs.lasting_cases hlasting hok with hdeletes | rfl | ⟨erased, hwholesale⟩
    · obtain ⟨n, σ, rfl, -, hσ, -⟩ := Request.attempt_invariant (c := c.setting platform s)
        (I := fun σ => Grounded σ.store ∧ T s σ.store) hs.integrity.foreign hdeletes
        rfl ⟨hs.grounded, hrefl s⟩
        (fun st n σ r σ' hσ hI hallow hrun => ⟨hallow.grounded hσ hrun hI.1,
          hstep _ st _ σ r σ' rfl hs hσ hI.1 hI.2 hallow hrun⟩) hok
      exact hquiet s σ.store hσ.2
    · exact hquiet s' s' (hrefl s')
    · exact hpurge s s' erased hs hwholesale
  | access request now recordedAt =>
    obtain ⟨access, -, hexec⟩ := Event.exec_secret platform request now recordedAt s
    rw [hexec]
    exact haccess s access

end Orderly

end PgAgmemory

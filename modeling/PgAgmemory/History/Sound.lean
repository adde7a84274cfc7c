import PgAgmemory.Forgetting.Purged
import PgAgmemory.Operations.Requests

/-! # Every reachable store is sound

Content belongs to objects that are not deleted, references name content, and the ids of the audit log
are below its next id: together with the constraints of the schema this is what the analysis of a
purge assumes (`Sound`). Statements outside a purge keep it because they only give rows to objects
that their transaction creates, a purge because it marks nothing that it has not erased. -/

namespace PgAgmemory

open Keyed (HasKey Table key)
open Keyed.Table (References)
open Interactive (Program)

/-! ## Owners -/

/-- The objects with content: the owner of every row of the six tables of objects. -/
inductive Owns (s : Store) : UUID → Prop where
  | episode {r : EpisodeRow} (h : r ∈ s.contents.episodes) : Owns s r.id
  | assertion {r : AssertionRow} (h : r ∈ s.contents.assertions) : Owns s r.id
  | entity {r : EntityRow} (h : r ∈ s.graph.entities) : Owns s r.id
  | checkpoint {r : CheckpointRow} (h : r ∈ s.checkpointing.checkpoints) : Owns s r.id
  | effect {r : ToolEffectRow} (h : r ∈ s.ledger.effects) : Owns s r.id
  | job {r : JobRow} (h : r ∈ s.queue.jobs) : Owns s r.id

/-- Content is not deleted, said of owners. -/
theorem clean_iff {s : Store} : Clean s ↔ ∀ id, Owns s id → Untombstoned s id := by
  constructor
  · intro h id howns
    cases howns with
    | episode hr => exact h.episodes _ hr
    | assertion hr => exact h.assertions _ hr
    | entity hr => exact h.entities _ hr
    | checkpoint hr => exact h.checkpoints _ hr
    | effect hr => exact h.effects _ hr
    | job hr => exact h.jobs _ hr
  · intro h
    exact ⟨fun _ hr => h _ (.episode hr), fun _ hr => h _ (.assertion hr),
      fun _ hr => h _ (.entity hr), fun _ hr => h _ (.checkpoint hr), fun _ hr => h _ (.effect hr),
      fun _ hr => h _ (.job hr)⟩

/-- Moving a head keeps the ids. -/
theorem mem_moveHead {t : Table AssertionRow} {id : UUID} {revision : Nat} {r : AssertionRow}
    (h : r ∈ moveHead t id revision) : ∃ r' ∈ t, r'.id = r.id := by
  obtain ⟨r', hr', rfl⟩ := Table.mem_update.mp h
  refine ⟨r', hr', ?_⟩
  split <;> rfl

theorem mem_moveEffectHead {t : Table ToolEffectRow} {id : UUID} {revision : Nat}
    {r : ToolEffectRow} (h : r ∈ moveEffectHead t id revision) : ∃ r' ∈ t, r'.id = r.id := by
  obtain ⟨r', hr', rfl⟩ := Table.mem_update.mp h
  refine ⟨r', hr', ?_⟩
  split <;> rfl

/-- Replacing a job keeps the ids. -/
theorem mem_replaceJob {t : Table JobRow} {id : UUID} {row : JobRow} (hid : row.id = id) {r : JobRow}
    (h : r ∈ replaceJob t id row hid) : ∃ r' ∈ t, r'.id = r.id := by
  obtain ⟨r', hr', rfl⟩ := Table.mem_update.mp h
  refine ⟨r', hr', ?_⟩
  split
  next hmatch =>
    rw [if_pos (of_decide_eq_true hmatch), hid]
    exact of_decide_eq_true hmatch
  next => rfl

/-- The owners among contents, after a statement on contents. -/
theorem ContentStatement.Accepted.owns {v : View} {m : Moment} {st : ContentStatement} {c : Contents}
    (h : st.Accepted v m c) :
    (∀ r ∈ c.episodes, r ∈ v.store.contents.episodes ∨ st = .insertEpisode r)
      ∧ ∀ r ∈ c.assertions, (∃ r' ∈ v.store.contents.assertions, r'.id = r.id)
        ∨ ∃ scope subject predicate isRelation,
          st = .insertAssertion r.id scope subject predicate isRelation := by
  cases st with
  | insertEpisode row =>
    obtain ⟨-, t, ht, rfl⟩ := h
    refine ⟨fun r hr => ?_, fun r hr => Or.inl ⟨r, hr, rfl⟩⟩
    rcases (Table.mem_insert? ht).mp hr with rfl | hold
    · exact Or.inr rfl
    · exact Or.inl hold
  | insertAssertion id scope subject predicate isRelation =>
    obtain ⟨-, t, ht, rfl⟩ := h
    refine ⟨fun r hr => Or.inl hr, fun r hr => ?_⟩
    rcases (Table.mem_insert? ht).mp hr with rfl | hold
    · exact Or.inr ⟨scope, subject, predicate, isRelation, rfl⟩
    · exact Or.inl ⟨r, hold, rfl⟩
  | insertRevision n =>
    obtain ⟨-, t, c', ⟨hadopts, -⟩, rfl⟩ := h
    cases hadopts with
    | first _ _ _ => exact ⟨fun r hr => Or.inl hr, fun r hr => Or.inl ⟨r, hr, rfl⟩⟩
    | next _ _ _ _ _ _ => exact ⟨fun r hr => Or.inl hr, fun r hr => Or.inl (mem_moveHead hr)⟩
  | _ =>
    obtain ⟨-, t, -, rfl⟩ := h
    exact ⟨fun r hr => Or.inl hr, fun r hr => Or.inl ⟨r, hr, rfl⟩⟩

/-- **New owners are new objects.** -/
theorem Writes.owns {c : Setting} {σ : Session} {m : Moment} {st : Statement} {s : Store}
    (hallow : Writes c σ st) (h : st.Accepted (σ.view m) m s) {id : UUID} (howns : Owns s id) :
    Owns σ.store id ∨ Fresh c.start id := by
  -- Each part of the store owns its own tables: only the insertion of an owning row adds an owner.
  cases st with
  | insertObject id scope kind =>
    obtain ⟨-, t, -, rfl⟩ := h
    left
    cases howns <;> constructor <;> assumption
  | content st =>
    obtain ⟨contents, haccepted, rfl⟩ := h
    obtain ⟨hepisodes, hassertions⟩ := haccepted.owns
    cases howns with
    | episode hr =>
      rcases hepisodes _ hr with hold | rfl
      · exact Or.inl (.episode hold)
      · exact Or.inr hallow
    | assertion hr =>
      rcases hassertions _ hr with ⟨r', hr', hid⟩ | ⟨_, _, _, _, rfl⟩
      · exact Or.inl (hid ▸ .assertion hr')
      · exact Or.inr hallow
    | entity hr => exact Or.inl (.entity hr)
    | checkpoint hr => exact Or.inl (.checkpoint hr)
    | effect hr => exact Or.inl (.effect hr)
    | job hr => exact Or.inl (.job hr)
  | graph st =>
    obtain ⟨g, haccepted, rfl⟩ := h
    cases howns with
    | entity hr =>
      cases st with
      | insertEntity row =>
        obtain ⟨-, t, ht, rfl⟩ := haccepted
        rcases (Table.mem_insert? ht).mp hr with rfl | hold
        · exact Or.inr hallow
        · exact Or.inl (.entity hold)
      | _ =>
        obtain ⟨-, t, -, rfl⟩ := haccepted
        exact Or.inl (.entity hr)
    | episode hr => exact Or.inl (.episode hr)
    | assertion hr => exact Or.inl (.assertion hr)
    | checkpoint hr => exact Or.inl (.checkpoint hr)
    | effect hr => exact Or.inl (.effect hr)
    | job hr => exact Or.inl (.job hr)
  | checkpoint st =>
    obtain ⟨inserted, checkpointing, haccepted, rfl⟩ := h
    cases howns with
    | checkpoint hr =>
      cases st with
      | insertCheckpoint n =>
        obtain ⟨-, t, branch, ⟨-, ht⟩, rfl⟩ := haccepted
        rcases (Table.mem_insert? ht).mp hr with rfl | hold
        · exact Or.inr hallow
        · exact Or.inl (.checkpoint hold)
      | insertReference row =>
        obtain ⟨-, t, -, rfl⟩ := haccepted
        exact Or.inl (.checkpoint hr)
      | _ =>
        obtain ⟨-, ⟨-, rfl⟩ | ⟨-, t, -, rfl⟩⟩ := haccepted
        · exact Or.inl (.checkpoint hr)
        · exact Or.inl (.checkpoint hr)
    | episode hr => exact Or.inl (.episode hr)
    | assertion hr => exact Or.inl (.assertion hr)
    | entity hr => exact Or.inl (.entity hr)
    | effect hr => exact Or.inl (.effect hr)
    | job hr => exact Or.inl (.job hr)
  | ledger st =>
    obtain ⟨l, haccepted, rfl⟩ := h
    cases howns with
    | effect hr =>
      cases st with
      | insertEffect n =>
        obtain ⟨-, t, ht, rfl⟩ := haccepted
        rcases (Table.mem_insert? ht).mp hr with rfl | hold
        · exact Or.inr hallow
        · exact Or.inl (.effect hold)
      | insertRevision n =>
        obtain ⟨-, t, effects, ⟨hadopts, -⟩, rfl⟩ := haccepted
        cases hadopts with
        | first _ _ _ _ _ => exact Or.inl (.effect hr)
        | next _ _ _ _ _ =>
          obtain ⟨r', hr', hid⟩ := mem_moveEffectHead hr
          exact Or.inl (hid ▸ .effect hr')
      | _ =>
        obtain ⟨-, t, -, rfl⟩ := haccepted
        exact Or.inl (.effect hr)
    | episode hr => exact Or.inl (.episode hr)
    | assertion hr => exact Or.inl (.assertion hr)
    | entity hr => exact Or.inl (.entity hr)
    | checkpoint hr => exact Or.inl (.checkpoint hr)
    | job hr => exact Or.inl (.job hr)
  | queue st =>
    obtain ⟨row, q, haccepted, rfl⟩ := h
    cases howns with
    | job hr =>
      cases st with
      | insertJob n =>
        obtain ⟨-, t, ht, rfl⟩ := haccepted
        rcases (Table.mem_insert? ht).mp hr with rfl | hold
        · exact Or.inr hallow
        · exact Or.inl (.job hold)
      | updateJob id change =>
        obtain ⟨-, rfl⟩ | ⟨old, new, hid, -, -, rfl⟩ := haccepted
        · exact Or.inl (.job hr)
        · obtain ⟨r', hr', hid'⟩ := mem_replaceJob hid hr
          exact Or.inl (hid' ▸ .job hr')
      | _ =>
        obtain ⟨-, t, -, rfl⟩ := haccepted
        exact Or.inl (.job hr)
    | episode hr => exact Or.inl (.episode hr)
    | assertion hr => exact Or.inl (.assertion hr)
    | entity hr => exact Or.inl (.entity hr)
    | checkpoint hr => exact Or.inl (.checkpoint hr)
    | effect hr => exact Or.inl (.effect hr)
  | operation st =>
    obtain ⟨o, -, rfl⟩ := h
    left
    cases howns <;> constructor <;> assumption
  | purge purgeStep targets => exact hallow.elim
  | insertTombstones targets => exact hallow.elim
  | bumpDeletionEpoch => exact hallow.elim

/-- **Content stays undeleted** under the discipline. -/
theorem Writes.clean {c : Setting} {σ σ' : Session} {m : Moment} {st : Statement} {r : Returned}
    (hσ : Underway c σ) (hallow : Writes c σ st)
    (hstep : step c.platform st m σ = .ok (r, σ')) (h : Clean σ.store) : Clean σ'.store := by
  have hσ' := hσ.follows (hallow.follows hstep)
  have hgrown := (hallow.follows hstep).grown
  refine clean_iff.mpr fun id howns => ?_
  rcases hallow.owns (st.accepted (step_eq_ok.mp hstep).2.1) howns with hold | hfresh
  · exact (clean_iff.mp h id hold).of_grown hgrown
  · exact hσ'.untombstoned hfresh

/-- The kinds that the check constraints of references admit. -/
theorem referable_of_checks {kind : ObjectKind} {revision : Nat}
    (h : referenceChecks kind revision = true) : referable kind := by
  simp only [referenceChecks, Bool.and_eq_true, Bool.or_eq_true, decide_eq_true_eq] at h
  rcases h.2 with h | ⟨-, h | h⟩
  · exact Or.inr (Or.inl h)
  · exact Or.inl h
  · exact Or.inr (Or.inr h)

/-- **References keep naming content.** -/
theorem Statement.Accepted.sourced {v : View} {m : Moment} {st : Statement} {s : Store}
    (hquiet : st.quiet = true) (haccepted : st.Accepted v m s) (h : Sourced v.store) :
    Sourced s := by
  obtain ⟨hcheckpoint, heffect⟩ := h
  -- Only the two insertions of references add a row, and the engine has checked its kind.
  cases st with
  | checkpoint st =>
    obtain ⟨inserted, c, haccepted, rfl⟩ := haccepted
    refine ⟨fun r hr => ?_, heffect⟩
    cases st with
    | insertReference row =>
      obtain ⟨⟨-, hchecks⟩, t, ht, rfl⟩ := haccepted
      rcases (Table.mem_insert? ht).mp hr with rfl | hold
      · exact referable_of_checks hchecks
      · exact hcheckpoint r hold
    | insertCheckpoint n =>
      obtain ⟨-, t, branch, -, rfl⟩ := haccepted
      exact hcheckpoint r hr
    | _ =>
      obtain ⟨-, ⟨-, rfl⟩ | ⟨-, t, -, rfl⟩⟩ := haccepted
      · exact hcheckpoint r hr
      · exact hcheckpoint r hr
  | ledger st =>
    obtain ⟨l, haccepted, rfl⟩ := haccepted
    refine ⟨hcheckpoint, fun r hr => ?_⟩
    cases st with
    | insertReference row =>
      obtain ⟨⟨-, hchecks⟩, t, ht, rfl⟩ := haccepted
      rcases (Table.mem_insert? ht).mp hr with rfl | hold
      · exact referable_of_checks hchecks
      · exact heffect r hold
    | insertRevision n =>
      obtain ⟨-, t, effects, -, rfl⟩ := haccepted
      exact heffect r hr
    | _ =>
      obtain ⟨-, t, -, rfl⟩ := haccepted
      exact heffect r hr
  | insertObject id scope kind =>
    obtain ⟨-, t, -, rfl⟩ := haccepted
    exact ⟨hcheckpoint, heffect⟩
  | queue st =>
    obtain ⟨row, q, -, rfl⟩ := haccepted
    exact ⟨hcheckpoint, heffect⟩
  | content st =>
    obtain ⟨x, -, rfl⟩ := haccepted
    exact ⟨hcheckpoint, heffect⟩
  | graph st =>
    obtain ⟨x, -, rfl⟩ := haccepted
    exact ⟨hcheckpoint, heffect⟩
  | operation st =>
    obtain ⟨x, -, rfl⟩ := haccepted
    exact ⟨hcheckpoint, heffect⟩
  | purge purgeStep targets => exact absurd hquiet (by simp [Statement.quiet])
  | insertTombstones targets => exact absurd hquiet (by simp [Statement.quiet])
  | bumpDeletionEpoch => exact absurd hquiet (by simp [Statement.quiet])

/-- **The audit log stays below its next id.** -/
theorem Statement.Accepted.auditFresh {v : View} {m : Moment} {st : Statement} {s : Store}
    (hquiet : st.quiet = true) (haccepted : st.Accepted v m s) (h : AuditFresh v.store) :
    AuditFresh s := by
  cases st with
  | operation st =>
    obtain ⟨o, haccepted, rfl⟩ := haccepted
    cases st with
    | audit action target =>
      obtain ⟨-, t, ht, rfl⟩ := haccepted
      intro r hr
      rcases (Table.mem_insert? ht).mp hr with rfl | hold
      · exact Nat.lt_succ_self _
      · exact Nat.lt_succ_of_lt (h r hold)
    | _ =>
      obtain ⟨-, t, -, rfl⟩ := haccepted
      exact h
  | insertObject id scope kind =>
    obtain ⟨-, t, -, rfl⟩ := haccepted
    exact h
  | checkpoint st =>
    obtain ⟨inserted, c, -, rfl⟩ := haccepted
    exact h
  | queue st =>
    obtain ⟨row, q, -, rfl⟩ := haccepted
    exact h
  | content st =>
    obtain ⟨x, -, rfl⟩ := haccepted
    exact h
  | graph st =>
    obtain ⟨x, -, rfl⟩ := haccepted
    exact h
  | ledger st =>
    obtain ⟨x, -, rfl⟩ := haccepted
    exact h
  | purge purgeStep targets => exact absurd hquiet (by simp [Statement.quiet])
  | insertTombstones targets => exact absurd hquiet (by simp [Statement.quiet])
  | bumpDeletionEpoch => exact absurd hquiet (by simp [Statement.quiet])

/-! ## Purges -/

/-- What a purge leaves is not marked. -/
theorem Purged.untombstoned {s s' : Store} {gone : Gone} (h : Purged s s' gone) {id : UUID}
    (hfree : Untombstoned s id) {p : PurgeStep} (hkept : gone p id = false) : Untombstoned s' id := by
  intro t ht hid
  rcases h.marks t ht with hold | hgone
  · exact hfree t hold hid
  · rw [← hid, hgone p] at hkept
    exact Bool.noConfusion hkept

/-- **Content stays undeleted** over a purge. -/
theorem Purged.clean {s s' : Store} {gone : Gone} (h : Purged s s' gone) (hs : Clean s) :
    Clean s' where
  episodes r hr := by
    rw [h.contents] at hr
    obtain ⟨hold, hkept⟩ := Table.mem_delete.mp hr
    exact h.untombstoned (hs.episodes r hold) hkept
  assertions r hr := by
    rw [h.contents] at hr
    obtain ⟨hold, hkept⟩ := Table.mem_delete.mp hr
    exact h.untombstoned (hs.assertions r hold) hkept
  entities r hr := by
    rw [h.graph] at hr
    obtain ⟨hold, hkept⟩ := Table.mem_delete.mp hr
    exact h.untombstoned (hs.entities r hold) hkept
  checkpoints r hr := by
    rw [h.checkpointing] at hr
    obtain ⟨hold, hkept⟩ := Table.mem_delete.mp hr
    exact h.untombstoned (hs.checkpoints r hold) hkept
  effects r hr := by
    rw [h.ledger] at hr
    obtain ⟨hold, hkept⟩ := Table.mem_delete.mp hr
    exact h.untombstoned (hs.effects r hold) hkept
  jobs r hr := by
    rw [h.queue] at hr
    obtain ⟨hold, hkept⟩ := Table.mem_delete.mp hr
    exact h.untombstoned (hs.jobs r hold) hkept

theorem Purged.sourced {s s' : Store} {gone : Gone} (h : Purged s s' gone) (hs : Sourced s) :
    Sourced s' where
  checkpoint r hr := by
    rw [h.checkpointing] at hr
    exact hs.checkpoint r (Table.mem_delete.mp hr).1
  effect r hr := by
    rw [h.ledger] at hr
    exact hs.effect r (Table.mem_delete.mp hr).1

theorem Purged.auditFresh {s s' : Store} {gone : Gone} (h : Purged s s' gone) (hs : AuditFresh s) :
    AuditFresh s' := by
  intro r hr
  obtain ⟨entry, hid, hmem⟩ := h.audit
  rw [h.nextAudit]
  rcases (hmem r).mp hr with rfl | hold
  · exact hid ▸ Nat.lt_succ_self _
  · exact Nat.lt_succ_of_lt (hs r hold)

/-! ## Soundness -/

/-- **A sound store**: it meets its constraints, no content is deleted, references name content, and
the audit log is below its next id. -/
structure Sound (s : Store) : Prop where
  integrity : Integrity s
  clean : Clean s
  sourced : Sourced s
  auditFresh : AuditFresh s

theorem Sound.grounded {s : Store} (h : Sound s) : Grounded s :=
  ⟨h.integrity.foreign, h.clean, h.sourced⟩

theorem sound_provisioned (access : Access) : Sound (.provisioned access) where
  integrity := integrity_provisioned access
  clean := by constructor <;> exact fun r hr => absurd hr (Table.not_mem_empty r)
  sourced := by constructor <;> exact fun r hr => absurd hr (Table.not_mem_empty r)
  auditFresh := fun r hr => absurd hr (Table.not_mem_empty r)

theorem Sound.with_access {s : Store} (h : Sound s) (access : Access) :
    Sound { s with access := access } where
  integrity := h.integrity.with_access access
  clean := by
    cases h.clean
    constructor <;> assumption
  sourced := by
    cases h.sourced
    constructor <;> assumption
  auditFresh := h.auditFresh

/-- **The three kinds of committed requests**: those that do not delete, those that change nothing, and
purges. -/
theorem Sound.attempt_cases {platform : Platform} {timeline : Timeline} {principal : UUID}
    {request : Request} {s s' : Store} {response : Response} (hs : Sound s)
    (h : attempt platform timeline principal (request.program platform) s = .ok (response, s')) :
    request.deletes = false ∨ s' = s ∨ ∃ gone, Purged s s' gone := by
  cases request with
  | forget data key =>
    right
    rcases attempt_forget hs.grounded hs.integrity hs.auditFresh h with
      hsame | ⟨-, hadmits, hrefused, -, hleaves⟩
    · exact Or.inl hsame
    · exact Or.inr ⟨_, hleaves.purged hs.grounded hadmits hrefused⟩
  | _ => exact Or.inl rfl

/-- The setting of a request, when digests are not at stake. -/
def Call.setting (platform : Platform) (c : Call) (s : Store) : Setting :=
  ⟨platform, c.request, Set.univ, c.timeline, s⟩

/-- **Content stays grounded** under the discipline. -/
theorem Writes.grounded {c : Setting} {σ σ' : Session} {m : Moment} {st : Statement} {r : Returned}
    (hσ : Underway c σ) (hallow : Writes c σ st)
    (hstep : step c.platform st m σ = .ok (r, σ')) (h : Grounded σ.store) : Grounded σ'.store where
  foreign := (step_eq_ok.mp hstep).2.2.1.1
  clean := hallow.clean hσ hstep h.clean
  sourced := (st.accepted (step_eq_ok.mp hstep).2.1).sourced hallow.quiet h.sourced

/-- **A committed request keeps a store sound.** -/
theorem Sound.attempt {platform : Platform} {timeline : Timeline} {principal : UUID}
    {request : Request} {s s' : Store} {response : Response} (hs : Sound s)
    (h : attempt platform timeline principal (request.program platform) s = .ok (response, s')) :
    Sound s' := by
  have hintegrity := hs.integrity.attempt h
  rcases hs.attempt_cases h with hquiet | rfl | ⟨gone, hpurged⟩
  · obtain ⟨n, σ, rfl, -, ⟨hgrounded, haudit⟩, -⟩ := Request.attempt_invariant
      (c := ⟨platform, request, Set.univ, timeline, s⟩)
      (I := fun σ => Grounded σ.store ∧ AuditFresh σ.store)
      hs.integrity.foreign hquiet rfl ⟨hs.grounded, hs.auditFresh⟩
      (fun st n σ r σ' hσ hI hallow hstep => ⟨hallow.grounded hσ hstep hI.1,
        (st.accepted (step_eq_ok.mp hstep).2.1).auditFresh hallow.quiet hI.2⟩) h
    exact ⟨hintegrity, hgrounded.clean, hgrounded.sourced, haudit⟩
  · exact hs
  · exact ⟨hintegrity, hpurged.clean hs.clean, hpurged.sourced hs.sourced,
      hpurged.auditFresh hs.auditFresh⟩

/-- **Every event keeps a store sound.** -/
theorem Sound.event {platform : Platform} {s : Store} (hs : Sound s) (e : Event) :
    Sound (e.exec platform s) :=
  Event.preserves (fun _ _ _ _ h hok => h.attempt hok) (fun _ access h => h.with_access access) e hs

/-- **Every reachable store is sound.** -/
theorem Reachable.sound {platform : Platform} {s : Store} (h : Reachable platform s) : Sound s := by
  induction h with
  | provisioned access => exact sound_provisioned access
  | event e _ ih => exact ih.event e

/-! ## The rules for events -/

/-- **Transition rule**: what the statements of the discipline keep relative to their start, and what
purges and changes of access establish, every event of a sound store establishes. -/
theorem Sound.transition {platform : Platform} {T R : Store → Store → Prop} (hrefl : ∀ s, T s s)
    (hstep : ∀ (c : Setting) st m (σ : Session) r σ', c.platform = platform → Sound c.start →
      Underway c σ → Grounded σ.store → T c.start σ.store → Writes c σ st →
      step platform st m σ = .ok (r, σ') → T c.start σ'.store)
    (hquiet : ∀ s s', T s s' → R s s') (hpurge : ∀ s s' gone, Sound s → Purged s s' gone → R s s')
    (haccess : ∀ s access, R s { s with access := access })
    {s : Store} (hs : Sound s) (e : Event) : R s (e.exec platform s) := by
  cases e with
  | call call =>
    change R s (call.exec platform s).2
    rcases call.exec_cases platform s with ⟨fault, h⟩ | ⟨response, s', hok, h⟩
    · rw [h]
      exact hquiet s s (hrefl s)
    rw [h]
    rcases hs.attempt_cases hok with hdeletes | rfl | ⟨gone, hpurged⟩
    · obtain ⟨n, σ, rfl, -, hσ, -⟩ := Request.attempt_invariant (c := call.setting platform s)
        (I := fun σ => Grounded σ.store ∧ T s σ.store) hs.integrity.foreign hdeletes
        rfl ⟨hs.grounded, hrefl s⟩
        (fun st n σ r σ' hσ hI hallow hrun => ⟨hallow.grounded hσ hrun hI.1,
          hstep _ st _ σ r σ' rfl hs hσ hI.1 hI.2 hallow hrun⟩) hok
      exact hquiet s σ.store hσ.2
    · exact hquiet s' s' (hrefl s')
    · exact hpurge s s' gone hs hpurged
  | access request now recordedAt =>
    obtain ⟨access, h⟩ := Event.exec_access platform request now recordedAt s
    rw [h]
    exact haccess s access

/-- **Invariant rule**: what the discipline, purges and changes of access keep, every event of a sound
store keeps. -/
theorem Sound.invariant {platform : Platform} {I : Store → Prop}
    (hstep : ∀ (c : Setting) st m (σ : Session) r σ', c.platform = platform → Sound c.start →
      Underway c σ → Grounded σ.store → I σ.store → Writes c σ st →
      step platform st m σ = .ok (r, σ') → I σ'.store)
    (hpurge : ∀ s s' gone, Sound s → Purged s s' gone → I s → I s')
    (haccess : ∀ s access, I s → I { s with access := access })
    {s : Store} (hs : Sound s) (hI : I s) (e : Event) : I (e.exec platform s) :=
  Sound.transition (T := fun s s' => I s → I s') (R := fun s s' => I s → I s') (fun _ hI => hI)
    (fun c st m σ r σ' hplatform hs hσ hgrounded hR hallow hrun hI =>
      hstep c st m σ r σ' hplatform hs hσ hgrounded (hR hI) hallow hrun) (fun _ _ hR => hR) hpurge haccess
    hs e hI

/-- **Reachability rule**: an invariant that holds of stores without content, and that the discipline,
purges and changes of access keep, holds of every reachable store. -/
theorem Reachable.invariant {platform : Platform} {I : Store → Prop}
    (hstart : ∀ access, I (.provisioned access))
    (hstep : ∀ (c : Setting) st m (σ : Session) r σ', c.platform = platform → Sound c.start →
      Underway c σ → Grounded σ.store → I σ.store → Writes c σ st →
      step platform st m σ = .ok (r, σ') → I σ'.store)
    (hpurge : ∀ s s' gone, Sound s → Purged s s' gone → I s → I s')
    (haccess : ∀ s access, I s → I { s with access := access })
    {s : Store} (h : Reachable platform s) : I s := by
  induction h with
  | provisioned access => exact hstart access
  | event e h ih => exact h.sound.invariant hstep hpurge haccess ih e

end PgAgmemory

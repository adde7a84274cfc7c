import PgAgmemory.History.Contexts
import PgAgmemory.History.Machine
import PgAgmemory.History.Quotes
import PgAgmemory.Operations.Turns
import PgAgmemory.System.Calls

/-! # The machine of a job

An event queues jobs, or turns one job by a licensed change, or purges some (`Sound.jobs_cases`). So a
job keeps what it was queued with, its attempts only grow, and an outcome is never left
(`JobRow.Becomes`); at every time it is in one of the documented states (`JobRow.Lawful`). -/

namespace PgAgmemory

open Keyed (HasKey Table key)
open Interactive.Program (Sends)

/-! ## Events and the queue -/

/-- **A new job** of a call, as the insertion writes it. -/
def JobRow.Queued (access : Access) (c : Call) (j : JobRow) : Prop :=
  ∃ (n : NewJob) (v : View) (m : Moment), v.store.access = access ∧ v.principal = c.principal
    ∧ j = n.row v m ∧ j.checks = true
    ∧ ∃ memory retryOf, c.request.Enqueues memory retryOf ∧ n.Asks memory retryOf

/-- **A turn of a call**: a licensed change of one job. -/
structure Call.Turns (platform : Platform) (s : Store) (c : Call) (change : JobChange)
    (old new : JobRow) : Prop where
  licensed : c.request.Licenses c.timeline (.start c.principal s) old change
  turned : ∃ σ', σ'.store = (c.exec platform s).2
    ∧ Turned c.timeline (.start c.principal s) σ' change old new

/-- **What an event does to the queue.** -/
inductive Event.Queues (platform : Platform) (s : Store) : Event → Prop where
  /-- Jobs stay, and new ones come. -/
  | queued {c : Call} (kept : ∀ j ∈ s.queue.jobs, j ∈ (c.exec platform s).2.queue.jobs)
    (new : ∀ j ∈ (c.exec platform s).2.queue.jobs, j ∈ s.queue.jobs
      ∨ Fresh s j.id ∧ j.Queued s.access c) : Event.Queues platform s (.call c)
  /-- One job is turned. -/
  | turned {c : Call} {change : JobChange} {old new : JobRow}
    (turns : c.Turns platform s change old new) : Event.Queues platform s (.call c)
  /-- Jobs are purged. -/
  | purged {e : Event} (fewer : ∀ j ∈ (e.exec platform s).queue.jobs, j ∈ s.queue.jobs) :
    Event.Queues platform s e

section Cases

variable {platform : Platform} {s : Store}

/-- QueuesOnly keeps jobs. -/
structure QueuesOnly (s : Store) (c : Call) (σ : Session) : Prop where
  principal : σ.principal = c.principal
  kept : ∀ j ∈ s.queue.jobs, j ∈ σ.store.queue.jobs
  new : ∀ j ∈ σ.store.queue.jobs, j ∈ s.queue.jobs ∨ Fresh s j.id ∧ j.Queued s.access c

/-- **Statements of the discipline that turn no job** keep jobs and add new ones. -/
theorem QueuesOnly.step {c : Setting} {call : Call} {areas : List Area} {st : Statement} {m : Moment}
    {σ σ' : Session} {r : Returned} (hareas : .turn ∉ areas) (hwithin : Within areas st)
    (hadmits : QueuesFor call.request.Enqueues st) (hallow : Writes c σ st)
    (haccess : σ.store.access = c.start.access) (h : QueuesOnly c.start call σ)
    (hstep : PgAgmemory.step c.platform st m σ = .ok (r, σ')) : QueuesOnly c.start call σ' := by
  obtain ⟨-, hexec, -, hprincipal, -⟩ := step_eq_ok.mp hstep
  refine ⟨hprincipal.trans h.principal, ?_, ?_⟩
  all_goals
    rcases (st.accepted hexec).queue_cases hallow.quiet with hsame | ⟨st', row, rfl, hqueue⟩
  · rw [hsame]
    exact h.kept
  · intro j hj
    cases st' with
    | insertJob n =>
      obtain ⟨-, t, ht, hqueue⟩ := hqueue
      rw [hqueue]
      exact (Table.mem_insert? ht).mpr (Or.inr (h.kept j hj))
    | updateJob id change => exact absurd hwithin hareas
    | _ =>
      obtain ⟨-, t, -, hqueue⟩ := hqueue
      rw [hqueue]
      exact h.kept j hj
  · rw [hsame]
    exact h.new
  · intro j hj
    cases st' with
    | insertJob n =>
      obtain ⟨⟨-, hchecks⟩, t, ht, hqueue⟩ := hqueue
      rw [hqueue] at hj
      rcases (Table.mem_insert? ht).mp hj with rfl | hold
      · exact Or.inr ⟨hallow, n, σ.view m, m, haccess, h.principal, rfl, hchecks, hadmits⟩
      · exact h.new j hold
    | updateJob id change => exact absurd hwithin hareas
    | _ =>
      obtain ⟨-, t, -, hqueue⟩ := hqueue
      rw [hqueue] at hj
      exact h.new j hj

/-- **A request that turns no job** queues. -/
theorem Sound.queueing {c : Call} {response : Response} {s' : Store} (hs : Sound s)
    (hdeletes : c.request.deletes = false) (hareas : .turn ∉ c.request.areas)
    (h : PgAgmemory.attempt platform c.timeline c.principal (c.request.program platform) s
      = .ok (response, s')) :
    (∀ j ∈ s.queue.jobs, j ∈ s'.queue.jobs)
      ∧ ∀ j ∈ s'.queue.jobs, j ∈ s.queue.jobs ∨ Fresh s j.id ∧ j.Queued s.access c := by
  obtain ⟨n, σ, hrun, hcommit⟩ := attempt_eq_ok.mp h
  obtain ⟨-, rfl⟩ := commit_eq_ok.mp hcommit
  have hdoes : Does (c.setting platform s) (c.request.program platform) (fun _ _ => True) 0
      (.start c.principal s) :=
    Request.does rfl (.start hs.integrity.foreign c.principal) hdeletes
  have hboth := hdoes.sending (I := fun σ => Grown s σ.store ∧ QueuesOnly s c σ)
    ((Request.within platform c.request hdeletes).and (c.request.queuesOwn platform hdeletes))
    ⟨.refl s, rfl, fun _ hj => hj, fun _ hj => Or.inl hj⟩ ?_
  · have hend := (hboth.of_run hrun).2.2.2
    exact ⟨hend.kept, hend.new⟩
  · rintro st m σ r σ' hallow ⟨hwithin, hadmits⟩ ⟨hgrown, hqueues⟩ hstep
    exact ⟨hgrown.trans (step_grown hallow.quiet hstep),
      hqueues.step hareas hwithin hadmits hallow hgrown.access hstep⟩

/-- A turn of a request, or none, is one of its event. -/
theorem Call.queues_of_outcome {c : Call} {α : Type} {wrap : α → Response} {p : Tx α}
    (hbody : c.request.body platform = respond wrap p)
    (h : ∀ n, Outcome platform c.timeline p
      (fun _ _ σ' => MayTurn c.timeline c.request (.start c.principal s) σ') (fun _ => True) n
      (.start c.principal s)) : Event.Queues platform s (.call c) := by
  rcases c.exec_cases platform s with ⟨fault, hexec⟩ | ⟨response, s', hok, hexec⟩
  · refine .purged fun j hj => ?_
    change j ∈ (c.exec platform s).2.queue.jobs at hj
    rwa [hexec] at hj
  have hprogram : Outcome platform c.timeline (c.request.program platform)
      (fun _ _ σ' => MayTurn c.timeline c.request (.start c.principal s) σ') (fun _ => True) 0
      (.start c.principal s) := by
    unfold Request.program
    rw [hbody]
    refine outcome_bind outcome_bindIdentity ?_
    rintro - m σ' - ⟨rfl, rfl⟩
    exact outcome_bind (h _) fun _ _ _ _ hturn => outcome_pure hturn
  obtain ⟨m, σ, hturn, hstore⟩ := Call.exec_returns (congrArg Prod.fst hexec) hprogram
  rcases hturn with hsame | ⟨change, old, new, hlicensed, hturned⟩
  · refine .purged fun j hj => ?_
    change j ∈ (c.exec platform s).2.queue.jobs at hj
    rwa [← hstore, hsame] at hj
  · exact .turned ⟨hlicensed, σ, hstore, hturned⟩

/-- A call of a request that turns no job. -/
theorem Sound.queues_quietly (hs : Sound s) {c : Call} (hdeletes : c.request.deletes = false)
    (hareas : .turn ∉ c.request.areas) : Event.Queues platform s (.call c) := by
  rcases c.exec_cases platform s with ⟨fault, hexec⟩ | ⟨response, s', hok, hexec⟩
  · refine .purged fun j hj => ?_
    change j ∈ (c.exec platform s).2.queue.jobs at hj
    rwa [hexec] at hj
  · obtain ⟨hkept, hnew⟩ := hs.queueing hdeletes hareas hok
    refine .queued ?_ ?_ <;> rwa [hexec]

/-- A call that deletes only purges jobs. -/
theorem Sound.queues_deleting (hs : Sound s) {c : Call} (hdeletes : c.request.deletes = true) :
    Event.Queues platform s (.call c) := by
  refine .purged fun j hj => ?_
  change j ∈ (c.exec platform s).2.queue.jobs at hj
  rcases c.exec_cases platform s with ⟨fault, hexec⟩ | ⟨response, s', hok, hexec⟩
  · rwa [hexec] at hj
  · rw [hexec] at hj
    rcases hs.attempt_cases hok with hquiet | rfl | ⟨gone, hpurged⟩
    · rw [hdeletes] at hquiet
      cases hquiet
    · exact hj
    · change j ∈ s'.queue.jobs at hj
      rw [hpurged.queue] at hj
      exact (Table.mem_delete.mp hj).1

/-- **Every event of a sound store** queues jobs, turns one, or purges some. -/
theorem Sound.jobs_cases (hs : Sound s) (e : Event) : e.Queues platform s := by
  cases e with
  | access request now recordedAt =>
    obtain ⟨access, hexec⟩ := Event.exec_access platform request now recordedAt s
    refine .purged fun j hj => ?_
    rwa [hexec] at hj
  | call c =>
    obtain ⟨principal, timeline, request⟩ := c
    cases request with
    | cancel id data key => exact Call.queues_of_outcome rfl fun n => outcome_cancel id data key
    | heartbeat id token => exact Call.queues_of_outcome rfl fun n => outcome_heartbeat id token
    | fail id token code retry => exact Call.queues_of_outcome rfl fun n => outcome_fail id token code retry
    | claim seconds =>
      refine Call.queues_of_outcome rfl fun n => (outcome_claim seconds).mono ?_ fun _ h => h
      intro result m σ' _ hclaims
      cases result with
      | none => exact Or.inl hclaims
      | some result =>
        cases result with
        | failed id =>
          rcases hclaims with hsame | ⟨old, new, -, hfive, hturned⟩
          · exact Or.inl hsame
          · exact Or.inr ⟨.exhaust, old, new, ⟨⟨seconds, rfl⟩, hfive⟩, hturned⟩
        | claimed new =>
          obtain ⟨hseconds, old, hfive, hturned⟩ := hclaims
          exact Or.inr ⟨.claim seconds, old, new, ⟨rfl, hfive, hseconds⟩, hturned⟩
    | publish id token prepared =>
      refine Call.queues_of_outcome rfl fun n => (outcome_publish id token prepared hs.integrity.foreign).mono ?_ fun _ h => h
      rintro receipt m σ' - ⟨old, new, result, -, rfl, hleased, hpayload, hturned, -⟩
      exact Or.inr ⟨.publish token result, old, new, ⟨prepared, rfl, hleased, hpayload⟩, hturned⟩
    | forget data key => exact hs.queues_deleting rfl
    | _ => exact hs.queues_quietly rfl (of_decide_eq_false rfl)

end Cases

/-! ## Changes -/

/-- What a job was queued with, and keeps. -/
def JobRow.admission (j : JobRow) : UUID × UUID × UUID × Digest × Option UUID × Nat × Time :=
  (j.id, j.scopeId, j.principalId, j.intentDigest, j.retryOf, j.referenceCount, j.createdAt)

/-- **What becomes of a job**: it keeps what it was queued with, its attempts only grow, an outcome is
never left, and the request is kept as long as the job waits for publication. -/
structure JobRow.Becomes (j j' : JobRow) : Prop where
  admission : j'.admission = j.admission
  attempt : j.attempt ≤ j'.attempt
  settled : j.state.active = false → j' = j
  payload : j'.state.active = true → j'.payload = j.payload

theorem JobRow.Becomes.refl (j : JobRow) : j.Becomes j := ⟨rfl, Nat.le_refl _, fun _ => rfl, fun _ => rfl⟩

theorem JobRow.Becomes.trans {j j' j'' : JobRow} (h : j.Becomes j') (h' : j'.Becomes j'') :
    j.Becomes j'' where
  admission := h'.admission.trans h.admission
  attempt := h.attempt.trans h'.attempt
  settled hsettled := by
    obtain rfl := h.settled hsettled
    exact h'.settled hsettled
  payload hactive := by
    by_cases hbefore : j'.state.active = true
    · exact (h'.payload hactive).trans (h.payload hbefore)
    · -- an outcome between them would have stayed
      have hsettled := Bool.eq_false_iff.mpr hbefore
      obtain rfl := h'.settled hsettled
      exact absurd hactive hbefore

section Changes

variable {v : View} {m : Moment} {id : UUID} {change : JobChange} {old new : JobRow}

/-- A changed job was waiting for publication. -/
theorem ChangesJob.active (h : ChangesJob v m id change old new) : old.state.active = true := by
  have hguarded := h.guarded
  simp only [guardUpdate, Bool.and_eq_true] at hguarded
  exact hguarded.1.1.1.1

/-- **What a change does to a job.** -/
theorem ChangesJob.becomes (h : ChangesJob v m id change old new) : old.Becomes new where
  admission := by
    rw [h.stamped]
    cases change <;> rfl
  attempt := by
    rw [h.stamped]
    cases change <;> first | exact Nat.le_refl _ | exact Nat.le_succ _
  settled hsettled := absurd h.active (Bool.eq_false_iff.mp hsettled)
  payload hactive := (h.request hactive).2.1

/-- **A claim** takes a job that is due, under a token that it did not have, for at most five
minutes. -/
theorem ChangesJob.claimed {seconds : Nat} (h : ChangesJob v m id (.claim seconds) old new) :
    ((old.state = .pending ∧ old.availableAt ≤ m.clock 1)
        ∨ (old.state = .running ∧ old.expired (m.clock 1) = true))
      ∧ some m.uuid ≠ old.leaseToken ∧ new.state = .running ∧ new.attempt = old.attempt + 1
      ∧ new.leaseToken = some m.uuid
      ∧ new.capturedAccessEpoch = v.store.access.accessEpoch
      ∧ new.capturedDeletionEpoch = v.store.access.deletionEpoch := by
  have hguarded := h.guarded
  have hstamped := h.stamped
  subst hstamped
  simp only [guardUpdate, JobChange.apply, claimable, extendable, Bool.and_eq_true, Bool.or_eq_true,
    decide_eq_true_eq] at hguarded
  obtain ⟨⟨⟨-, hrunning⟩, -⟩, -⟩ := hguarded
  rcases hrunning with ⟨⟨-, htoken⟩, hdue⟩ | ⟨⟨⟨⟨-, hsame⟩, -⟩, -⟩, -⟩
  · exact ⟨hdue, of_decide_eq_true htoken, rfl, rfl, rfl, rfl, rfl⟩
  · exact absurd (of_decide_eq_true hsame) (Nat.succ_ne_self _)

/-- **Every other change but a cancellation** is one of a running job. -/
theorem ChangesJob.running (h : ChangesJob v m id change old new)
    (hcancel : ∀ running attempt, change ≠ .cancel running attempt)
    (hclaim : ∀ seconds, change ≠ .claim seconds) : old.state = .running := by
  have hguarded := h.guarded
  have hstamped := h.stamped
  subst hstamped
  simp only [guardUpdate, Bool.and_eq_true] at hguarded
  obtain ⟨⟨⟨-, hstate⟩, -⟩, -⟩ := hguarded
  cases change with
  | cancel running attempt => exact absurd rfl (hcancel _ _)
  | claim seconds => exact absurd rfl (hclaim _)
  | exhaust => exact of_decide_eq_true (Bool.and_eq_true_iff.mp hstate).1
  | publish token result => exact of_decide_eq_true (Bool.and_eq_true_iff.mp hstate).1
  | fail again code =>
    cases again with
    | true => exact of_decide_eq_true (Bool.and_eq_true_iff.mp hstate).1
    | false => exact of_decide_eq_true (Bool.and_eq_true_iff.mp hstate).1
  | heartbeat =>
    -- the state stays, so a heartbeat of another one would not be a step of the machine
    have hactive := h.active
    cases hold : old.state with
    | running => rfl
    | pending => simp [JobChange.apply, hold] at hstate
    | _ => simp [JobState.active, hold] at hactive

/-- **The lease of a changed job** has not expired, and ends within five minutes. -/
theorem ChangesJob.leased (h : ChangesJob v m id change old new) (hrunning : new.state = .running) {t : Time}
    (ht : new.leaseUntil = some t) : new.updatedAt < t ∧ t ≤ new.updatedAt + 300 * second := by
  have hguarded := h.guarded
  simp only [guardUpdate, Bool.and_eq_true] at hguarded
  have hbounded := hguarded.2
  have hstamp : new.updatedAt = m.clock 1 := by rw [h.stamped]
  rw [leaseBounded, hrunning, ht] at hbounded
  simp only [ne_eq, not_true, decide_false, Bool.false_or, Option.all_some, Bool.and_eq_true,
    decide_eq_true_eq] at hbounded
  rw [hstamp]
  exact hbounded

end Changes

/-! ## Runs -/

section Turns

variable {platform : Platform} {s : Store} {c : Call} {change : JobChange} {old new : JobRow}

theorem Call.Turns.stored (h : c.Turns platform s change old new) : old ∈ s.queue.jobs := by
  obtain ⟨σ', -, hturned⟩ := h.turned
  exact hturned.stored

theorem Call.Turns.id (h : c.Turns platform s change old new) : new.id = old.id := by
  obtain ⟨σ', -, hturned⟩ := h.turned
  exact hturned.id

/-- **The jobs after a turn.** -/
theorem Call.Turns.mem_iff (h : c.Turns platform s change old new) {j : JobRow} :
    j ∈ (Event.exec platform (.call c) s).queue.jobs ↔ j = new ∨ (j ∈ s.queue.jobs ∧ j.id ≠ old.id) := by
  obtain ⟨σ', hstore, hturned⟩ := h.turned
  have hqueue : (Event.exec platform (.call c) s).queue
      = (Session.start c.principal s).store.queue.withJob old.id new hturned.id :=
    (congrArg Store.queue hstore.symm).trans hturned.queue
  rw [hqueue]
  refine (mem_replaceJob_iff hturned.id).trans ?_
  exact or_congr_left (and_iff_left ⟨old, hturned.stored, rfl⟩)

/-- The statement that made a turn. -/
theorem Call.Turns.changes (h : c.Turns platform s change old new) :
    ∃ k v, v.store.queue = s.queue ∧ v.store.access = s.access ∧ v.principal = c.principal
      ∧ ChangesJob v (c.timeline.moment k) old.id change old new := by
  obtain ⟨σ', -, hturned⟩ := h.turned
  obtain ⟨k, σ₁, habreast, hchanges⟩ := hturned.changed
  exact ⟨k, _, habreast.queue, habreast.access, habreast.principal, hchanges⟩

end Turns

section Runs

variable {platform : Platform} {s : Store} {j j' : JobRow}

/-- **A job after an event** is new, or became of one before. -/
theorem Sound.job_before (hs : Sound s) (e : Event) (hj' : j' ∈ (e.exec platform s).queue.jobs) :
    (Fresh s j'.id ∧ ∃ c, e = .call c ∧ j'.Queued s.access c) ∨ ∃ j ∈ s.queue.jobs, j.Becomes j' := by
  have hcases : e.Queues platform s := hs.jobs_cases e
  cases hcases with
  | queued kept new =>
    rcases new j' hj' with hold | ⟨hfresh, hqueued⟩
    · exact Or.inr ⟨j', hold, .refl j'⟩
    · exact Or.inl ⟨hfresh, _, rfl, hqueued⟩
  | turned turns =>
    rcases turns.mem_iff.mp hj' with rfl | ⟨hold, -⟩
    · obtain ⟨k, v, -, -, -, hchanges⟩ := turns.changes
      exact Or.inr ⟨_, turns.stored, hchanges.becomes⟩
    · exact Or.inr ⟨j', hold, .refl j'⟩
  | purged fewer => exact Or.inr ⟨j', fewer j' hj', .refl j'⟩

/-- The id of a job that became of another. -/
theorem JobRow.Becomes.id (h : j.Becomes j') : j'.id = j.id := congrArg Prod.fst h.admission

/-- **One event of a job.** -/
theorem Sound.job_becomes (hs : Sound s) (e : Event) (hj : j ∈ s.queue.jobs)
    (hj' : j' ∈ (e.exec platform s).queue.jobs) (hid : j'.id = j.id) : j.Becomes j' := by
  rcases hs.job_before e hj' with ⟨hfresh, -⟩ | ⟨i, hi, hbecomes⟩
  · obtain ⟨o, ho, hkey⟩ := hs.integrity.foreign.queue.job_object.exists_parent hj rfl
    exact absurd ((Prod.mk.inj hkey).1.trans hid.symm) (hfresh o ho)
  · obtain rfl : i = j := Table.eq_of_key_eq hi hj (hbecomes.id.symm.trans hid)
    exact hbecomes

/-- An id whose job is gone: it was taken, and no job has it. -/
def Store.JobGone (s : Store) (id : UUID) : Prop :=
  (∃ o ∈ s.anchor.objects, o.id = id) ∧ ∀ j ∈ s.queue.jobs, j.id ≠ id

/-- A job that is gone does not come back. -/
theorem Sound.jobGone {id : UUID} (hs : Sound s) (e : Event) (h : s.JobGone id) :
    (e.exec platform s).JobGone id := by
  obtain ⟨⟨o, ho, hoid⟩, hnone⟩ := h
  refine ⟨⟨o, (hs.steady e).objects o ho, hoid⟩, fun j' hj' hid => ?_⟩
  rcases hs.job_before e hj' with ⟨hfresh, -⟩ | ⟨j, hj, hbecomes⟩
  · exact hfresh o ho (hoid.trans hid.symm)
  · exact hnone j hj (hbecomes.id.symm.trans hid)

theorem Sound.jobGone_run {id : UUID} (hs : Sound s) (events : List Event) (h : s.JobGone id) :
    (runEvents platform events s).JobGone id := by
  induction events generalizing s with
  | nil => exact h
  | cons e events ih => exact ih (hs.event e) (hs.jobGone e h)

/-- **A job along a run.** -/
theorem Sound.job_run (hs : Sound s) (events : List Event) (hj : j ∈ s.queue.jobs)
    (hj' : j' ∈ (runEvents platform events s).queue.jobs) (hid : j'.id = j.id) : j.Becomes j' := by
  induction events generalizing s j with
  | nil =>
    obtain rfl : j' = j := Table.eq_of_key_eq hj' hj hid
    exact .refl _
  | cons e events ih =>
    by_cases hthere : ∃ i ∈ (e.exec platform s).queue.jobs, i.id = j.id
    · obtain ⟨i, hi, hiid⟩ := hthere
      exact (hs.job_becomes e hj hi hiid).trans (ih (hs.event e) hi hj' (hid.trans hiid.symm))
    · -- a job that is gone after the first event stays gone
      obtain ⟨o, ho, hkey⟩ := hs.integrity.foreign.queue.job_object.exists_parent hj rfl
      have hgone : (e.exec platform s).JobGone j.id :=
        ⟨⟨o, (hs.steady e).objects o ho, (Prod.mk.inj hkey).1⟩, fun i hi hiid => hthere ⟨i, hi, hiid⟩⟩
      exact absurd hid (((hs.event e).jobGone_run events hgone).2 j' hj')

end Runs

/-! ## States -/

/-- **The states of a job**, as documented. -/
structure JobRow.Lawful (access : Access) (j : JobRow) : Prop where
  /-- There are at most five attempts, and a pending job has one left. -/
  attempts : j.attempt ≤ 5
  pending : j.state = .pending → j.attempt ≤ 4
  running : j.state = .running → 1 ≤ j.attempt
  /-- Exactly the running jobs have a token and a lease. -/
  leased : j.state = .running → j.leaseToken.isSome = true ∧ j.leaseUntil.isSome = true
  unleased : j.state ≠ .running → j.leaseToken = none ∧ j.leaseUntil = none
  /-- A lease had not expired when it was given, and ends within five minutes. -/
  lease : ∀ t, j.leaseUntil = some t → j.updatedAt < t ∧ t ≤ j.updatedAt + 300 * second
  /-- The request is kept exactly until an outcome. -/
  payload : j.payload.isSome = true ↔ j.state.active = true
  /-- Exactly the succeeded jobs have a result. -/
  result : j.resultId.isSome = true ↔ j.state = .succeeded
  /-- A failed job has an error, and only failed and pending ones do. -/
  failed : j.state = .failed → j.errorCode.isSome = true
  error : j.errorCode.isSome = true → j.state = .failed ∨ j.state = .pending
  references : 1 ≤ j.referenceCount ∧ j.referenceCount ≤ 32
  /-- It was queued or claimed in this context or an earlier one. -/
  context : j.capturedAccessEpoch ≤ access.accessEpoch ∧ j.capturedDeletionEpoch ≤ access.deletionEpoch

section Lawful

variable {platform : Platform} {s : Store} {access access' : Access} {j : JobRow}

/-- **The check constraints** give most of the states; attempts, lease and context are the machine's. -/
theorem JobRow.lawful_of_checks (hchecks : j.checks = true)
    (hpending : j.state = .pending → j.attempt ≤ 4) (hrunning : j.state = .running → 1 ≤ j.attempt)
    (hlease : j.state = .running → ∀ t, j.leaseUntil = some t →
      j.updatedAt < t ∧ t ≤ j.updatedAt + 300 * second)
    (hcontext : j.capturedAccessEpoch ≤ access.accessEpoch
      ∧ j.capturedDeletionEpoch ≤ access.deletionEpoch) : j.Lawful access := by
  simp only [JobRow.checks, Bool.and_eq_true, decide_eq_true_eq, beq_iff_eq] at hchecks
  obtain ⟨⟨⟨⟨⟨⟨⟨hreferences, hattempts⟩, hleased⟩, hunleased⟩, hresult⟩, hpayload⟩, hfailed⟩, herror⟩ :=
    hchecks
  have hnoLease : j.state ≠ .running → j.leaseToken = none ∧ j.leaseUntil = none := by
    intro hstate
    rw [decide_eq_false hstate, Bool.false_or, Bool.and_eq_true] at hunleased
    exact ⟨Option.isNone_iff_eq_none.mp hunleased.1, Option.isNone_iff_eq_none.mp hunleased.2⟩
  refine {
    attempts := hattempts
    pending := hpending
    running := hrunning
    leased := fun hstate => ?_
    unleased := hnoLease
    lease := fun t ht => ?_
    payload := ?_
    result := ?_
    failed := fun hstate => ?_
    error := fun herr => ?_
    references := hreferences
    context := hcontext }
  · rw [decide_eq_true hstate] at hleased
    exact Bool.and_eq_true_iff.mp hleased.symm
  · by_cases hstate : j.state = .running
    · exact hlease hstate t ht
    · rw [(hnoLease hstate).2] at ht
      cases ht
  · split at hpayload
    next hactive =>
      refine iff_of_true ?_ hactive
      obtain ⟨body, hbody, -⟩ := (Option.any_eq_true _ _).mp hpayload
      rw [hbody]
      rfl
    next hsettled =>
      refine iff_of_false ?_ hsettled
      rw [Option.isNone_iff_eq_none.mp hpayload]
      exact Bool.false_ne_true
  · rw [← hresult]
    exact decide_eq_true_iff
  · rw [decide_eq_false (not_not_intro hstate), Bool.false_or] at hfailed
    exact hfailed
  · rw [Option.isNone_eq_false_iff.mpr herr, Bool.false_or] at herror
    cases hstate : j.state <;> simp [hstate] at herror ⊢

/-- A later context does not matter. -/
theorem JobRow.Lawful.later (h : j.Lawful access) (haccess : access.accessEpoch ≤ access'.accessEpoch)
    (hdeletion : access.deletionEpoch ≤ access'.deletionEpoch) : j.Lawful access' :=
  { h with context := ⟨h.context.1.trans haccess, h.context.2.trans hdeletion⟩ }

/-- A new job is lawful. -/
theorem JobRow.Queued.lawful {c : Call} (h : j.Queued access c) : j.Lawful access := by
  obtain ⟨n, v, m, rfl, -, rfl, hchecks, -⟩ := h
  refine JobRow.lawful_of_checks hchecks (fun _ => Nat.zero_le _) ?_ ?_ ⟨Nat.le_refl _, Nat.le_refl _⟩
  · intro hstate
    cases hstate
  · intro hstate
    cases hstate

/-- **A licensed turn keeps a job lawful.** -/
theorem Call.Turns.lawful {c : Call} {change : JobChange} {old new : JobRow}
    (h : c.Turns platform s change old new) (hold : old.Lawful s.access) : new.Lawful s.access := by
  obtain ⟨k, v, -, haccess, -, hchanges⟩ := h.changes
  have hlicensed := h.licensed
  have hstamped := hchanges.stamped
  refine JobRow.lawful_of_checks hchanges.checked ?_ ?_ (fun hstate t ht => hchanges.leased hstate ht) ?_
  · -- back to pending only with an attempt left
    intro hstate
    rw [hstamped] at hstate ⊢
    cases change with
    | fail again code =>
      obtain ⟨token, retry, -, -, hagain⟩ := hlicensed
      cases hagain' : again with
      | false =>
        rw [hagain'] at hstate
        cases hstate
      | true =>
        rw [hagain'] at hagain
        have hroom := of_decide_eq_true (Bool.and_eq_true_iff.mp hagain.symm).2
        show old.attempt ≤ 4
        omega
    | heartbeat =>
      have hrunning := hchanges.running (fun _ _ h => by cases h) fun _ h => by cases h
      have hstate : old.state = .pending := hstate
      rw [hrunning] at hstate
      cases hstate
    | _ => cases hstate
  · intro hstate
    rw [hstamped] at hstate ⊢
    cases change with
    | claim seconds => exact Nat.succ_pos _
    | heartbeat => exact hold.running hstate
    | fail again code =>
      cases again with
      | true => cases hstate
      | false => cases hstate
    | _ => cases hstate
  · rw [hstamped]
    cases change with
    | claim seconds =>
      show v.store.access.accessEpoch ≤ _ ∧ v.store.access.deletionEpoch ≤ _
      rw [haccess]
      exact ⟨Nat.le_refl _, Nat.le_refl _⟩
    | _ => exact hold.context

/-- An event keeps jobs lawful. -/
theorem Sound.lawful (hs : Sound s) (e : Event) (h : ∀ j ∈ s.queue.jobs, j.Lawful s.access) :
    ∀ j ∈ (e.exec platform s).queue.jobs, j.Lawful (e.exec platform s).access := by
  intro j hj
  have hdated : Dated s (e.exec platform s) := hs.dated e
  suffices hbefore : j.Lawful s.access from hbefore.later hdated.accessEpoch hdated.deletionEpoch
  have hcases : e.Queues platform s := hs.jobs_cases e
  cases hcases with
  | queued kept new =>
    rcases new j hj with hold | ⟨-, hqueued⟩
    · exact h j hold
    · exact hqueued.lawful
  | turned turns =>
    rcases turns.mem_iff.mp hj with rfl | ⟨hold, -⟩
    · exact turns.lawful (h _ turns.stored)
    · exact h j hold
  | purged fewer => exact h j (fewer j hj)

/-- **Every job of a reachable store is lawful.** -/
theorem Reachable.lawful (h : Reachable platform s) : ∀ j ∈ s.queue.jobs, j.Lawful s.access := by
  induction h with
  | provisioned access => exact fun j hj => absurd hj (Table.not_mem_empty j)
  | event e h ih => exact h.sound.lawful e ih

/-- **Every job of a reachable store meets its check constraints.** -/
theorem Reachable.checked (h : Reachable platform s) : ∀ j ∈ s.queue.jobs, j.checks = true := by
  induction h with
  | provisioned access => exact fun j hj => absurd hj (Table.not_mem_empty j)
  | @event s e h ih =>
    intro j hj
    have hcases : e.Queues platform s := h.sound.jobs_cases e
    cases hcases with
    | queued kept new =>
      rcases new j hj with hold | ⟨-, n, v, m, -, -, -, hchecks, -⟩
      · exact ih j hold
      · exact hchecks
    | turned turns =>
      rcases turns.mem_iff.mp hj with rfl | ⟨hold, -⟩
      · obtain ⟨k, v, -, -, -, hchanges⟩ := turns.changes
        exact hchanges.checked
      · exact ih j hold
    | purged fewer => exact ih j (fewer j hj)

end Lawful

/-! ## The quota -/

/-- The jobs of a scope that wait for publication. -/
def Store.activeJobs (s : Store) (scope : UUID) : Nat :=
  s.queue.jobs.rows.countP fun j => decide (j.scopeId = scope) && j.state.active

section Quota

variable {platform : Platform} {s : Store} {σ σ' : Session} {m : Moment} {r : Returned}

/-- Inserting a job is refused where a hundred of its scope wait, as the caller sees them. -/
theorem insertJob_room {n : NewJob}
    (hstep : step platform (.queue (.insertJob n)) m σ = .ok (r, σ')) :
    ((σ.view m).activeJobs n.scopeId).length < 100 ∧ (σ.view m).writable n.id = true
      ∧ σ'.store.anchor = σ.store.anchor
      ∧ ∃ t, σ.store.queue.jobs.insert? (n.row (σ.view m) m) = some t ∧ σ'.store.queue.jobs = t := by
  obtain ⟨-, hexec, -⟩ := step_eq_ok.mp hstep
  simp only [Statement.exec, QueueStatement.exec, bind_eq_ok, require_eq_ok, insertRow_eq_ok] at hexec
  obtain ⟨⟨row, q⟩, ⟨-, hroom, -, hwritable, -, -, t, ht, hpure⟩, hpure'⟩ := hexec
  cases hpure
  obtain ⟨-, hstore⟩ := Prod.mk.inj (Except.ok.inj hpure')
  refine ⟨of_decide_eq_true hroom, hwritable, ?_, t, ht, ?_⟩
  · rw [← hstore]
    rfl
  · rw [← hstore]

/-- **A writer sees every job of the scope**, so that the quota counts them all. -/
theorem View.length_activeJobs {v : View} (hgrounded : Grounded v.store) {scope : UUID}
    (hread : v.permitted scope .read = true) :
    (v.activeJobs scope).length = v.store.activeJobs scope := by
  rw [View.activeJobs, View.jobs, List.filter_filter, Store.activeJobs, List.countP_eq_length_filter]
  refine congrArg List.length (List.filter_congr fun j hj => ?_)
  by_cases hscope : j.scopeId = scope
  · have hvisible : v.visible j.id = true :=
      ((hgrounded.job hj).visible hgrounded.foreign.marked rfl).mpr (hscope ▸ hread)
    rw [hvisible, Bool.and_true]
  · rw [decide_eq_false hscope, Bool.false_and, Bool.false_and]

/-- A replaced row counts no more than the row before it. -/
theorem countP_replaceJob_le {t : Table JobRow} {id : UUID} {old new : JobRow} (hid : new.id = id)
    (hold : t.find? id = some old) {p : JobRow → Bool} (hp : p new = true → p old = true) :
    (replaceJob t id new hid).rows.countP p ≤ t.rows.countP p := by
  obtain ⟨hmem, hkey⟩ := Table.find?_eq_some_iff.mp hold
  rw [replaceJob, Table.update, List.countP_map]
  refine List.countP_mono_left fun j hj hcount => ?_
  have hcount : p (if decide (j.id = id) = true then if j.id = id then new else j else j) = true :=
    hcount
  by_cases hmatch : j.id = id
  · obtain rfl : j = old := Table.eq_of_key_eq hj hmem (hmatch.trans hkey.symm)
    rw [if_pos (decide_eq_true hmatch), if_pos hmatch] at hcount
    exact hp hcount
  · rwa [if_neg (by simpa using hmatch)] at hcount

/-- **Statements keep the quota.** -/
theorem Writes.quota {c : Setting} {st : Statement} (hallow : Writes c σ st)
    (hgrounded : Grounded σ.store) (h : ∀ scope, σ.store.activeJobs scope ≤ 100)
    (hstep : step platform st m σ = .ok (r, σ')) : ∀ scope, σ'.store.activeJobs scope ≤ 100 := by
  obtain ⟨-, hexec, hkeys, -⟩ := step_eq_ok.mp hstep
  intro scope
  rcases (st.accepted hexec).queue_cases hallow.quiet with hsame | ⟨st', row, rfl, hqueue⟩
  · rw [Store.activeJobs, hsame]
    exact h scope
  cases st' with
  | insertJob n =>
    obtain ⟨hroom, hwritable, hanchor, t, ht, hjobs⟩ := insertJob_room hstep
    rw [Store.activeJobs, hjobs, Table.countP_insert? ht]
    by_cases hscope : n.scopeId = scope
    · subst hscope
      -- the new job's object has its scope, which the caller can read
      have hnew : n.row (σ.view m) m ∈ σ'.store.queue.jobs := hjobs ▸ Table.mem_insert?_self ht
      obtain ⟨o, ho, hkey⟩ := hkeys.1.queue.job_object.exists_parent hnew rfl
      obtain ⟨hid, hrest⟩ := Prod.mk.inj hkey
      rw [hanchor] at ho
      have hid : o.id = n.id := hid
      rw [← hid] at hwritable
      have hread := ((View.writable_object (v := σ.view m) hgrounded.foreign.marked ho).mp hwritable).1.1
      rw [(Prod.mk.inj hrest).1] at hread
      have hcount : (σ.view m).store.activeJobs n.scopeId < 100 :=
        (View.length_activeJobs (v := σ.view m) hgrounded hread) ▸ hroom
      have hcount : σ.store.activeJobs n.scopeId < 100 := hcount
      rw [Store.activeJobs] at hcount
      split <;> omega
    · have hother : (decide ((n.row (σ.view m) m).scopeId = scope)
          && (n.row (σ.view m) m).state.active) = false :=
        Bool.and_eq_false_iff.mpr (Or.inl (decide_eq_false hscope))
      rw [hother]
      exact h scope
  | updateJob id change =>
    rcases hqueue with ⟨-, hsame⟩ | ⟨old, new, hid, hchanges, -, hsame⟩
    · rw [Store.activeJobs, hsame]
      exact h scope
    · rw [Store.activeJobs, hsame]
      refine (countP_replaceJob_le hid hchanges.found fun hcount => ?_).trans (h scope)
      obtain ⟨hscope, -⟩ := Bool.and_eq_true_iff.mp hcount
      have hsame := congrArg (fun a => a.2.1) hchanges.becomes.admission
      have hsame : new.scopeId = old.scopeId := hsame
      rw [hsame] at hscope
      exact Bool.and_eq_true_iff.mpr ⟨hscope, hchanges.active⟩
  | _ =>
    obtain ⟨-, t, -, hsame⟩ := hqueue
    rw [Store.activeJobs, hsame]
    exact h scope

/-- **At most a hundred jobs of a scope wait for publication**, in every reachable store. -/
theorem Reachable.quota (h : Reachable platform s) : ∀ scope, s.activeJobs scope ≤ 100 := by
  refine h.invariant (I := fun s => ∀ scope, s.activeJobs scope ≤ 100) ?_ ?_ ?_ fun _ _ hquota => hquota
  · exact fun access scope => Nat.zero_le _
  · exact fun c st m σ r σ' _ _ _ hgrounded hquota hallow hstep => hallow.quota hgrounded hquota hstep
  · intro s s' gone _ hpurged hquota scope
    rw [Store.activeJobs, hpurged.queue]
    exact (List.Sublist.countP_le List.filter_sublist).trans (hquota scope)

end Quota

end PgAgmemory

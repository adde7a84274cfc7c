import PgAgmemory.Guarantees.Listings
import PgAgmemory.Guarantees.Quotes
import PgAgmemory.History.Acceptance
import PgAgmemory.History.Jobs

/-! # Claims make progress

What the service checks of a job before it updates it is what `guard_job` checks again, at a clock
reading of its own (`JobRow.Lawful.accepts`), and a job of an orderly store lacks nothing that the
update looks up. So the claim of a worker whose membership lasts never fails on the job at the head of
its queue. -/

namespace PgAgmemory

open Keyed (HasKey Table key)
open Keyed.Table (References)
open Interactive (Program)
open MemoryService

/-! ## What the trigger accepts -/

/-- **A change that is due** at a moment: the conditions under which the service sends it, as the clock
of the trigger finds them. -/
def JobChange.Due (m : Moment) (old : JobRow) : JobChange → Prop
  | .cancel _ _ => old.state.active = true
  | .exhaust => old.state = .running
  | .claim seconds => (1 ≤ seconds ∧ seconds ≤ 300) ∧ old.attempt ≠ 5 ∧ some m.uuid ≠ old.leaseToken
    ∧ m.clock 1 < m.clock 0 + seconds * second
    ∧ ((old.state = .pending ∧ old.availableAt ≤ m.clock 1)
      ∨ (old.state = .running ∧ old.expired (m.clock 1) = true))
  | .heartbeat => old.state = .running ∧ old.updatedAt < m.clock 1 ∧ old.expired (m.clock 1) = false
  | .publish _ _ => old.state = .running ∧ old.expired (m.clock 1) = false
  | .fail again _ => old.state = .running ∧ (again = true → old.expired (m.clock 1) = false)

/-- The row that a change writes, as the trigger has stamped it. -/
def JobChange.written (change : JobChange) (v : View) (m : Moment) (old : JobRow) : JobRow :=
  { change.apply v m old with updatedAt := m.clock 1 }

section Guard

variable {v : View} {m : Moment} {old : JobRow} {access : Access} {change : JobChange}

/-- A running job has a lease. -/
theorem JobRow.Lawful.exists_lease (h : old.Lawful access) (hrunning : old.state = .running) :
    ∃ token t, old.leaseToken = some token ∧ old.leaseUntil = some t := by
  obtain ⟨htoken, huntil⟩ := h.leased hrunning
  obtain ⟨token, htoken⟩ := Option.isSome_iff_exists.mp htoken
  obtain ⟨t, huntil⟩ := Option.isSome_iff_exists.mp huntil
  exact ⟨token, t, htoken, huntil⟩

/-- **What is due, the trigger accepts.** -/
theorem JobRow.Lawful.accepts (h : old.Lawful access) (hticks : m.clock 0 ≤ m.clock 1)
    (hactive : old.state.active = true) (hdue : change.Due m old) :
    guardUpdate (m.clock 1) old (change.written v m old) = true := by
  have hsecond : (0 : Int) < second := by decide
  have hrunningActive : JobState.running.active = true := rfl
  cases change with
  | cancel running attempt =>
    simp [guardUpdate, JobChange.written, JobChange.apply, leaseBounded, hactive]
  | exhaust =>
    have hrunning : old.state = .running := hdue
    simp [guardUpdate, JobChange.written, JobChange.apply, leaseBounded, hrunningActive, hrunning]
  | claim seconds =>
    obtain ⟨⟨-, hseconds⟩, -, htoken, hlease, hready⟩ := hdue
    have hready : ((decide (old.state = .pending) && decide (old.availableAt ≤ m.clock 1))
        || (decide (old.state = .running) && old.expired (m.clock 1))) = true := by
      rcases hready with ⟨hpending, havailable⟩ | ⟨hrunning, hexpired⟩
      · rw [decide_eq_true hpending, decide_eq_true havailable]
        rfl
      · rw [decide_eq_true hrunning, hexpired, Bool.or_eq_true]
        exact Or.inr rfl
    have hbound : m.clock 0 + seconds * second ≤ m.clock 1 + 300 * second := by
      have hmul : (seconds : Int) * second ≤ 300 * second :=
        mul_le_mul_of_nonneg_right (by omega) hsecond.le
      exact add_le_add hticks hmul
    simp [guardUpdate, JobChange.written, JobChange.apply, leaseBounded, claimable, hactive, hready,
      htoken, hlease, hbound]
  -- The trigger reads the clock later than the update; a lease grows by one tick at the least.
  | heartbeat =>
    obtain ⟨hrunning, hlater, hexpired⟩ := hdue
    obtain ⟨token, t, htoken, huntil⟩ := h.exists_lease hrunning
    obtain ⟨-, hbound⟩ := h.lease t huntil
    have hopen : m.clock 1 < t := by
      rw [JobRow.expired, huntil] at hexpired
      exact not_le.mp (of_decide_eq_false hexpired)
    have hlonger : t < max (t + 1) (m.clock 0 + 30 * second) := lt_max_of_lt_left (Int.lt_succ t)
    have hshort : max (t + 1) (m.clock 0 + 30 * second) ≤ m.clock 1 + 300 * second := by
      refine max_le (Int.add_one_le_of_lt ?_) (add_le_add hticks ?_)
      · exact hbound.trans_lt (add_lt_add_of_lt_of_le hlater le_rfl)
      · exact mul_le_mul_of_nonneg_right (show (30 : Int) ≤ 300 by decide) hsecond.le
    simp [guardUpdate, JobChange.written, JobChange.apply, leaseBounded, extendable, hrunningActive, hrunning,
      htoken, huntil, hopen, hshort, hopen.trans hlonger]
  | publish token result =>
    obtain ⟨hrunning, hexpired⟩ := hdue
    simp [guardUpdate, JobChange.written, JobChange.apply, leaseBounded, hrunningActive, hrunning, hexpired]
  | fail again code =>
    obtain ⟨hrunning, hexpired⟩ := hdue
    cases again with
    | true =>
      simp [guardUpdate, JobChange.written, JobChange.apply, leaseBounded, hrunningActive, hrunning,
        hexpired rfl]
    | false =>
      simp [guardUpdate, JobChange.written, JobChange.apply, leaseBounded, hrunningActive, hrunning]

/-- **What is due meets the check constraints.** -/
theorem JobRow.Lawful.checked (h : old.Lawful access) (hchecks : old.checks = true)
    (hactive : old.state.active = true) (hdue : change.Due m old) :
    (change.written v m old).checks = true := by
  have hrequest : old.payload.any isObject = true := by
    simp only [JobRow.checks, hactive, Bool.and_eq_true] at hchecks
    exact hchecks.1.1.2
  have hresult : old.resultId = none := by
    by_contra hsome
    have hsucceeded := h.result.mp (Option.isSome_iff_ne_none.mpr hsome)
    rw [hsucceeded] at hactive
    cases hactive
  have hreferences := h.references
  have hattempts := h.attempts
  cases change with
  | cancel running attempt =>
    simp [JobChange.written, JobChange.apply, JobRow.checks, JobState.active, hresult, hreferences, hattempts]
  | exhaust =>
    simp [JobChange.written, JobChange.apply, JobRow.checks, JobState.active, hresult, hreferences, hattempts]
  | claim seconds =>
    obtain ⟨-, hfive, -⟩ := hdue
    have hnext : old.attempt + 1 ≤ 5 := by omega
    simp [JobChange.written, JobChange.apply, JobRow.checks, JobState.active, hresult, hreferences,
      hnext, hrequest]
  | heartbeat =>
    obtain ⟨hrunning, -⟩ := hdue
    obtain ⟨token, t, htoken, huntil⟩ := h.exists_lease hrunning
    have herror : old.errorCode = none := by
      by_contra hsome
      rcases h.error (Option.isSome_iff_ne_none.mpr hsome) with hfailed | hpending
      · rw [hrunning] at hfailed
        cases hfailed
      · rw [hrunning] at hpending
        cases hpending
    simp [JobChange.written, JobChange.apply, JobRow.checks, JobState.active, hresult, hreferences,
      hattempts, hrequest, hrunning, htoken, herror]
  | publish token result =>
    simp [JobChange.written, JobChange.apply, JobRow.checks, JobState.active, hreferences, hattempts]
  | fail again code =>
    cases again <;>
    simp [JobChange.written, JobChange.apply, JobRow.checks, JobState.active, hresult, hreferences,
      hattempts, hrequest]

end Guard

/-! ## What the tables accept -/

/-- **A row in place of another one** with the same identity, whose result, if it has one, is an
assertion of its scope and nobody's result. -/
structure Replaces (s : Store) (old new : JobRow) : Prop where
  stored : old ∈ s.queue.jobs
  admission : new.admission = old.admission
  result : ∀ a, new.resultId = some a → (∃ b ∈ s.contents.assertions, (b.id, b.scopeId) = (a, old.scopeId))
    ∧ ∀ j ∈ s.queue.jobs, j.resultId ≠ some a

section Replaces

variable {s : Store} {old new : JobRow}

theorem Replaces.id (h : Replaces s old new) : new.id = old.id := congrArg (fun a => a.1) h.admission

theorem Replaces.scopeId (h : Replaces s old new) : new.scopeId = old.scopeId :=
  congrArg (fun a => a.2.1) h.admission

theorem Replaces.retryOf (h : Replaces s old new) : new.retryOf = old.retryOf :=
  congrArg (fun a => a.2.2.2.2.1) h.admission

/-- A job after the replacement. -/
theorem Replaces.mem (h : Replaces s old new) {j : JobRow} (hj : j ∈ replaceJob s.queue.jobs old.id new h.id) :
    j = new ∨ j ∈ s.queue.jobs := by
  rcases (mem_replaceJob_iff h.id).mp hj with ⟨rfl, -⟩ | ⟨hold, -⟩
  · exact Or.inl rfl
  · exact Or.inr hold

/-- The foreign keys of jobs after a replacement. -/
theorem Replaces.queueKeys (h : Replaces s old new) (hkeys : QueueKeys s) :
    QueueKeys { s with queue := s.queue.withJob old.id new h.id } where
  job_object := by
    intro j hj k hk
    rcases h.mem hj with rfl | hold
    · refine hkeys.job_object old h.stored k ?_
      show some (old.id, old.scopeId, ObjectKind.job) = some k
      rw [← h.id, ← h.scopeId]
      exact hk
    · exact hkeys.job_object j hold k hk
  job_retryOf := by
    intro j hj k hk
    rcases h.mem hj with rfl | hold
    · refine hkeys.job_retryOf old h.stored k ?_
      show old.retryOf.map (fun p => (p, old.scopeId, ObjectKind.job)) = some k
      rw [← h.retryOf, ← h.scopeId]
      exact hk
    · exact hkeys.job_retryOf j hold k hk
  job_result := by
    intro j hj k hk
    rcases h.mem hj with rfl | hold
    · obtain ⟨a, ha, rfl⟩ := Option.map_eq_some_iff.mp hk
      rw [h.scopeId]
      exact (h.result a ha).1
    · exact hkeys.job_result j hold k hk
  input_job := by
    intro i hi k hk
    obtain ⟨j, hj, hkey⟩ := hkeys.input_job i hi k hk
    by_cases hmoved : j.id = old.id
    · obtain rfl : j = old := Table.eq_of_key_eq hj h.stored hmoved
      refine ⟨new, (mem_replaceJob_iff h.id).mpr (Or.inl ⟨rfl, j, hj, rfl⟩), ?_⟩
      show (new.id, new.scopeId) = k
      rw [h.id, h.scopeId]
      exact hkey
    · exact ⟨j, (mem_replaceJob_iff h.id).mpr (Or.inr ⟨hj, hmoved⟩), hkey⟩
  input_source := hkeys.input_source
  identity_object := hkeys.identity_object
  sourceEvent_object := hkeys.sourceEvent_object

/-- The results of jobs stay distinct. -/
theorem Replaces.nodup_results (h : Replaces s old new)
    (hunique : (s.queue.jobs.rows.filterMap JobRow.resultId).Nodup) :
    ((replaceJob s.queue.jobs old.id new h.id).rows.filterMap JobRow.resultId).Nodup := by
  have hids : s.queue.jobs.rows.Pairwise fun a b => a.id ≠ b.id := List.pairwise_map.mp s.queue.jobs.nodup
  have hresults := List.pairwise_filterMap.mp hunique
  rw [replaceJob, Table.update]
  refine List.pairwise_filterMap.mpr (List.pairwise_map.mpr ((hids.and hresults).imp_of_mem ?_))
  intro a b ha hb hdistinct x hx y hy hxy
  subst hxy
  -- at most one of the two rows was replaced
  by_cases hmoved : a.id = old.id
  · have hother : b.id ≠ old.id := fun hid => hdistinct.1 (hmoved.trans hid.symm)
    rw [if_pos (decide_eq_true hmoved), if_pos hmoved] at hx
    rw [if_neg (by simpa using hother)] at hy
    exact (h.result x hx).2 b hb hy
  · rw [if_neg (by simpa using hmoved)] at hx
    by_cases hmoved' : b.id = old.id
    · rw [if_pos (decide_eq_true hmoved'), if_pos hmoved'] at hy
      exact (h.result x hy).2 a ha hx
    · rw [if_neg (by simpa using hmoved')] at hy
      exact hdistinct.2 x hx x hy rfl

/-- **A replacement meets the keys.** -/
theorem Replaces.keys (h : Replaces s old new) (hforeign : ForeignKeys s) (hunique : UniqueKeys s) :
    ForeignKeys { s with queue := s.queue.withJob old.id new h.id }
      ∧ UniqueKeys { s with queue := s.queue.withJob old.id new h.id } := by
  obtain ⟨hcontent, hgraph, hcheckpoint, hledger, hqueue⟩ := hforeign
  refine ⟨⟨?_, ?_, ?_, ?_, h.queueKeys hqueue⟩, ?_⟩
  · cases hcontent
    constructor <;> assumption
  · cases hgraph
    constructor <;> assumption
  · cases hcheckpoint
    constructor <;> assumption
  · cases hledger
    constructor <;> assumption
  · obtain ⟨hrevision, hcheckpoint, heffect, hjob⟩ := hunique
    exact ⟨hrevision, hcheckpoint, heffect, h.nodup_results hjob⟩

end Replaces

section Updates

variable {platform : Platform} {σ : Session} {m : Moment} {old : JobRow} {change : JobChange}

/-- A change keeps what a job was queued with. -/
theorem JobChange.written_admission (change : JobChange) (v : View) (m : Moment) (j : JobRow) :
    (change.written v m j).admission = j.admission := by
  cases change <;> rfl

/-- **An update that is due is accepted**, and replaces the row. -/
theorem step_written (hforeign : ForeignKeys σ.store) (hunique : UniqueKeys σ.store)
    (hreplaces : Replaces σ.store old (change.written (σ.view m) m old))
    (hupdatable : (σ.view m).jobUpdatable old = true)
    (happlies : change.applies (σ.view m) m old = true)
    (hguard : guardUpdate (m.clock 1) old (change.written (σ.view m) m old) = true)
    (hchecks : (change.written (σ.view m) m old).checks = true) :
    step platform (.queue (.updateJob old.id change)) m σ
      = .ok (.job (some (change.written (σ.view m) m old)), { σ with
          store.queue := σ.store.queue.withJob old.id (change.written (σ.view m) m old) hreplaces.id
          deferred := σ.deferred ++ [.jobInputs old.id] }) := by
  refine step_eq_ok.mpr ⟨rfl, ?_, hreplaces.keys hforeign hunique, rfl, rfl⟩
  have hfind : (σ.view m).store.queue.jobs.find? old.id = some old :=
    Table.find?_eq_some_iff.mpr ⟨hreplaces.stored, rfl⟩
  have hupdate : updateJob (σ.view m) m old.id change
      = .ok (some (change.written (σ.view m) m old),
        σ.store.queue.withJob old.id (change.written (σ.view m) m old) hreplaces.id) := by
    unfold updateJob
    split
    next hnone => rw [hfind] at hnone; cases hnone
    next j hsome =>
      obtain rfl : old = j := Option.some.inj (hfind.symm.trans hsome)
      rw [if_pos (Bool.and_eq_true_iff.mpr ⟨hupdatable, happlies⟩)]
      exact bind_eq_ok.mpr ⟨(), require_eq_ok.mpr hguard, bind_eq_ok.mpr ⟨(), require_eq_ok.mpr hchecks, rfl⟩⟩
  exact bind_eq_ok.mpr ⟨_, hupdate, rfl⟩

end Updates

/-- What is due waits for publication. -/
theorem JobChange.Due.active {m : Moment} {old : JobRow} {change : JobChange} (h : change.Due m old) :
    old.state.active = true := by
  have hrunning : old.state = .running → old.state.active = true := fun hstate => by rw [hstate]; rfl
  cases change with
  | cancel running attempt => exact h
  | exhaust => exact hrunning h
  | claim seconds =>
    rcases h.2.2.2.2 with ⟨hpending, -⟩ | ⟨hstate, -⟩
    · rw [hpending]
      rfl
    · exact hrunning hstate
  | heartbeat => exact hrunning h.1
  | publish token result => exact hrunning h.1
  | fail again code => exact hrunning h.1

/-! ## The deferred check of a job -/

/-- The items of a request's evidence. -/
theorem evidenceItems_dump (r : Remember) : evidenceItems r.dump = r.evidence.map Evidence.dump := by
  have hget : r.dump.get? "evidence" = some (jsonList Evidence.dump r.evidence) := rfl
  rw [evidenceItems, hget]
  exact Json.Items.toList_ofList _

section Checks

variable {s : Store} {v : View} {j : JobRow}

/-- An input of a job in a readable scope is seen. -/
theorem View.mem_inputsOf (hgrounded : Grounded v.store) (hj : j ∈ v.store.queue.jobs)
    (hread : v.permitted j.scopeId .read = true) {i : JobInputRow} (hi : i ∈ v.store.queue.inputs)
    (hof : i.jobId = j.id) : i ∈ v.inputsOf j.id := by
  have hscope : i.scopeId = j.scopeId :=
    (hgrounded.inputJob hi).anchored.unique (hof ▸ (hgrounded.job hj).anchored)
  have hmarked := hgrounded.foreign.marked
  refine List.mem_filter.mpr ⟨List.mem_filter.mpr ⟨hi, Bool.and_eq_true_iff.mpr ⟨?_, ?_⟩⟩, decide_eq_true hof⟩
  · exact ((hgrounded.inputJob hi).visible hmarked rfl).mpr (hscope ▸ hread)
  · exact ((hgrounded.inputSource hi).visible hmarked rfl).mpr (hscope ▸ hread)

/-- **The check of a job passes** where its inputs are complete and are the episodes of its request. -/
theorem View.checkJobInputs_eq_true (hgrounded : Grounded v.store)
    (hcomplete : v.store.queue.Complete j.id) (hj : j ∈ v.store.queue.jobs)
    (hrequested : j.payload.isSome = true → ∃ r, v.store.Requested j r) :
    v.checkJobInputs j.id = true := by
  rw [View.checkJobInputs, Option.all_eq_true]
  intro i hi
  obtain ⟨hfind, hvisible⟩ := Option.filter_eq_some_iff.mp hi
  obtain ⟨hi, hid⟩ := Table.find?_eq_some_iff.mp hfind
  obtain rfl : i = j := Table.eq_of_key_eq hi hj hid
  have hread := View.permitted_of_visible hvisible (hgrounded.job hj).anchored
  have hlength : (v.inputsOf i.id).length = i.referenceCount :=
    (View.length_inputsOf hgrounded hj hread).trans (hcomplete i hj rfl)
  rw [Bool.and_eq_true, decide_eq_true_eq, Option.all_eq_true]
  refine ⟨hlength, fun body hbody => ?_⟩
  obtain ⟨r, hr⟩ := hrequested (by rw [hbody]; rfl)
  obtain rfl : r.dump = body := Option.some.inj (hr.payload.symm.trans hbody)
  rw [evidenceItems_dump, List.length_map, Bool.and_eq_true, decide_eq_true_eq, List.all_map,
    List.all_eq_true]
  refine ⟨hr.count.symm, fun e he => ?_⟩
  obtain ⟨input, hinput, hof, hsource⟩ :=
    (hr.sources hj hcomplete e.memoryId).mpr (List.mem_map_of_mem he)
  refine List.any_eq_true.mpr ⟨input, View.mem_inputsOf hgrounded hj hread hinput hof, decide_eq_true ?_⟩
  rw [hsource]
  rfl

/-- **The check passes after an update** that keeps the request or drops it. -/
theorem View.checkJobInputs_updated {new : JobRow} {hid : new.id = j.id} (hgrounded : Grounded v.store)
    (hcontents : v.store.contents = s.contents) (hqueue : v.store.queue = s.queue.withJob j.id new hid)
    (hstored : j ∈ s.queue.jobs) (hcomplete : s.queue.Complete j.id)
    (hrequested : ∃ r, s.Requested j r) (hadmission : new.admission = j.admission)
    (hpayload : new.payload = none ∨ new.payload = j.payload) : v.checkJobInputs j.id = true := by
  have hnew : new ∈ v.store.queue.jobs := by
    rw [hqueue]
    exact (mem_replaceJob_iff hid).mpr (Or.inl ⟨rfl, j, hstored, rfl⟩)
  have hcount : new.referenceCount = j.referenceCount := congrArg (fun a => a.2.2.2.2.2.1) hadmission
  have hscope : new.scopeId = j.scopeId := congrArg (fun a => a.2.1) hadmission
  rw [← hid]
  refine View.checkJobInputs_eq_true hgrounded ?_ hnew fun hsome => ?_
  · intro i hi hiid
    obtain rfl : i = new := Table.eq_of_key_eq hi hnew hiid
    rw [hcount, hid, hqueue]
    exact hcomplete j hstored rfl
  · obtain ⟨r, hr⟩ := hrequested
    rcases hpayload with hnone | hkept
    · rw [hnone] at hsome
      cases hsome
    · refine ⟨r, hkept.trans hr.payload, hr.scope.trans hscope.symm, hcount.trans hr.count, ?_, ?_⟩
      · intro x hx
        rw [Store.Cites, hcontents]
        exact hr.quoted x hx
      · intro i hi hof
        rw [hqueue] at hi
        exact hr.inputs i hi (hof.trans hid)

end Checks

/-! ## Claims -/

/-- **A workable job**: one of the caller that waits for publication and lacks nothing, in a scope that
the caller may read and write in all the time. -/
structure Workable (timeline : Timeline) (σ : Session) (j : JobRow) : Prop where
  grounded : Grounded σ.store
  unique : UniqueKeys σ.store
  stored : j ∈ σ.store.queue.jobs
  lawful : j.Lawful σ.store.access
  checked : j.checks = true
  active : j.state.active = true
  complete : σ.store.queue.Complete j.id
  owner : j.principalId = σ.principal
  reads : Holds timeline σ j.scopeId .read
  writes : Holds timeline σ j.scopeId .write

section Workable

variable {platform : Platform} {timeline : Timeline} {n : Nat} {σ : Session} {j : JobRow}

/-- **A job of the caller in a held scope** may be updated at any time. -/
theorem Workable.updatable (h : Workable timeline σ j) (k : Nat) :
    (σ.view (timeline.moment k)).jobUpdatable j = true := by
  obtain ⟨hgrounded, -, hj, -, -, -, -, howner, hread, hwrite⟩ := h
  obtain ⟨o, ho, hkey⟩ := hgrounded.foreign.queue.job_object.exists_parent hj rfl
  obtain ⟨hid, hrest⟩ := Prod.mk.inj hkey
  obtain ⟨hscope, -⟩ := Prod.mk.inj hrest
  have hvisible : (σ.view (timeline.moment k)).visible j.id = true :=
    ((hgrounded.job hj).visible hgrounded.foreign.marked rfl).mpr (hread k)
  have hwritable : (σ.view (timeline.moment k)).writable j.id = true := by
    rw [← hid]
    refine (View.writable_object (v := σ.view (timeline.moment k)) hgrounded.foreign.marked ho).mpr ?_
    rw [hscope]
    exact ⟨⟨hread k, hid ▸ (hgrounded.job hj).free⟩, hwrite k⟩
  rw [View.jobUpdatable, hvisible, hwritable]
  exact decide_eq_true howner

/-- **A workable job is loaded**, also for an update. -/
theorem Workable.load (h : Workable timeline σ j) (lock : Bool) :
    Outcome platform timeline (Jobs.load j.id .write lock)
      (fun loaded _ σ' => σ' = σ ∧ loaded.row = j) (fun _ => False) n σ := by
  have hupdatable := h.updatable
  obtain ⟨hgrounded, -, hj, -, -, -, hcomplete, -, hread, hwrite⟩ := h
  refine outcome_bind ((outcome_object_holds hgrounded
    (hgrounded.foreign.queue.job_object.exists_parent hj rfl) (hgrounded.job hj).free hread
    hwrite).mono (fun _ _ _ _ h => h) fun _ h => h) ?_
  rintro o m σ' - ⟨rfl, -, hkind⟩
  refine outcome_demand (fun _ => outcome_read ?_) fun hfail => by simp [hkind] at hfail
  have hvisible : (σ'.view (timeline.moment m)).visible j.id = true :=
    ((hgrounded.job hj).visible hgrounded.foreign.marked rfl).mpr (hread m)
  have hrow : ((σ'.view (timeline.moment m)).job? j.id).filter
      (fun k => !lock || (σ'.view (timeline.moment m)).jobUpdatable k) = some j := by
    refine Option.filter_eq_some_iff.mpr ⟨Option.filter_eq_some_iff.mpr
      ⟨Table.find?_eq_some_iff.mpr ⟨hj, rfl⟩, hvisible⟩, ?_⟩
    rw [hupdatable m, Bool.or_true]
  refine outcome_found (fun row hfound => ?_) fun hnone => by rw [hrow] at hnone; cases hnone
  obtain rfl : j = row := Option.some.inj (hrow.symm.trans hfound)
  have hcount : ((((σ'.view (timeline.moment (m + 1))).inputsOf j.id).map
      JobInputRow.sourceId).insertionSort (· ≤ ·)).length = j.referenceCount := by
    rw [List.length_insertionSort, List.length_map]
    exact (View.length_inputsOf (v := σ'.view (timeline.moment (m + 1))) hgrounded hj
      (hread (m + 1))).trans (hcomplete j hj rfl)
  exact outcome_read (outcome_demand (fun _ => outcome_pure ⟨rfl, rfl⟩) fun hfail =>
    absurd hcount (of_decide_eq_false hfail))

/-- An active job has no result. -/
theorem Workable.resultId (h : Workable timeline σ j) : j.resultId = none := by
  by_contra hsome
  have hsucceeded := h.lawful.result.mp (Option.isSome_iff_ne_none.mpr hsome)
  have hactive := h.active
  rw [hsucceeded] at hactive
  cases hactive

/-- A change without a result replaces the row. -/
theorem Workable.replaces (h : Workable timeline σ j) {change : JobChange} {m : Moment}
    (hresult : (change.written (σ.view m) m j).resultId = j.resultId) :
    Replaces σ.store j (change.written (σ.view m) m j) where
  stored := h.stored
  admission := change.written_admission _ _ _
  result a ha := by
    rw [hresult, h.resultId] at ha
    cases ha

/-- The session after an update of a job. -/
def Session.updated (σ : Session) (id : UUID) (row : JobRow) (hid : row.id = id) : Session :=
  { σ with store.queue := σ.store.queue.withJob id row hid, deferred := σ.deferred ++ [.jobInputs id] }

/-- **A workable job takes every change that is due.** -/
theorem Workable.update (h : Workable timeline σ j) {change : JobChange}
    (hticks : (timeline.moment n).clock 0 ≤ (timeline.moment n).clock 1)
    (hresult : ∀ v m, (change.written v m j).resultId = j.resultId)
    (happlies : ∀ v m, change.applies v m j = true) (hdue : change.Due (timeline.moment n) j) :
    Outcome platform timeline (Jobs.update j.id change)
      (fun row _ σ' => (ForeignKeys σ'.store ∧ UniqueKeys σ'.store) ∧ ∃ new, ∃ hid : new.id = j.id,
        new = change.written (σ.view (timeline.moment n)) (timeline.moment n) j
          ∧ row = some new ∧ σ' = σ.updated j.id new hid) (fun _ => False) n σ := by
  have hreplaces := h.replaces (hresult (σ.view (timeline.moment n)) (timeline.moment n))
  have hstep : step platform (.queue (.updateJob j.id change)) (timeline.moment n) σ = .ok (_, _) :=
    step_written h.grounded.foreign h.unique hreplaces (h.updatable n) (happlies _ _)
      (h.lawful.accepts hticks h.active hdue) (h.lawful.checked h.checked h.active hdue)
  refine outcome_sendReturning (fun returned σ' hrun => ?_) fun fault hfault => ?_
  · cases hstep.symm.trans hrun
    exact outcome_pure ⟨(step_eq_ok.mp hstep).2.2.1, _, hreplaces.id, rfl, rfl, rfl⟩
  · cases hstep.symm.trans hfault

/-- An audit entry is always accepted. -/
theorem outcome_audit_kept (hforeign : ForeignKeys σ.store) (hunique : UniqueKeys σ.store)
    (haudit : AuditFresh σ.store) (action : String) (target : UUID) :
    Outcome platform timeline (audit action target)
      (fun _ _ σ' => ∃ o, σ' = { σ with store.operations := o }) (fun _ => False) n σ := by
  obtain ⟨entry, t, -, -, hstep⟩ := step_audit platform hforeign hunique haudit action target
    (timeline.moment n)
  refine outcome_send_last (fun r σ' hrun => ?_) fun fault hfault => ?_
  · cases hstep.symm.trans hrun
    exact ⟨_, rfl⟩
  · cases hstep.symm.trans hfault

/-- **A punctual worker**: its clock never runs backwards, the trigger reads the clock before the lease
of a claim is over, and the tokens that it draws are new. -/
structure Punctual (timeline : Timeline) (s : Store) (seconds : Nat) : Prop where
  forward : ∀ n m i k, (n < m ∨ n = m ∧ i ≤ k) → (timeline.moment n).clock i ≤ (timeline.moment m).clock k
  prompt : ∀ n, (timeline.moment n).clock 1 < (timeline.moment n).clock 0 + seconds * second
  fresh : ∀ n, ∀ j ∈ s.queue.jobs, j.leaseToken ≠ some (timeline.moment n).uuid

/-- A job that was due is due later. -/
theorem JobRow.due_later {now later : Time} (hle : now ≤ later) (hdue : j.due now = true) :
    (j.state = .pending ∧ j.availableAt ≤ later) ∨ (j.state = .running ∧ j.expired later = true) := by
  simp only [JobRow.due, Bool.or_eq_true, Bool.and_eq_true, decide_eq_true_eq] at hdue
  rcases hdue with ⟨hpending, havailable⟩ | ⟨hrunning, hexpired⟩
  · exact Or.inl ⟨hpending, havailable.trans hle⟩
  · refine Or.inr ⟨hrunning, ?_⟩
    obtain ⟨t, ht, hend⟩ := (Option.any_eq_true _ _).mp hexpired
    exact (Option.any_eq_true _ _).mpr ⟨t, ht, decide_eq_true ((of_decide_eq_true hend).trans hle)⟩

/-- **How a claim turns the job at the head**: the next attempt under a new token, or, after five
attempts, a failure. -/
def Heads (timeline : Timeline) (seconds : Nat) (σ σ' : Session) (j : JobRow) (result : Option ClaimResult) :
    Prop :=
  ∃ (k : Nat) (change : JobChange) (new : JobRow) (hid : new.id = j.id) (o : Operations),
    new = change.written (σ.view (timeline.moment k)) (timeline.moment k) j
      ∧ σ' = { σ.updated j.id new hid with store.operations := o }
      ∧ (change = .exhaust ∧ j.attempt = 5 ∧ result = some (.failed j.id)
        ∨ change = .claim seconds ∧ j.attempt ≠ 5 ∧ result = some (.claimed new))

/-- **A claim takes the job at the head.** -/
theorem outcome_claim_head {seconds : Nat} (hseconds : 1 ≤ seconds ∧ seconds ≤ 300)
    (hpunctual : Punctual timeline σ.store seconds) (haudit : AuditFresh σ.store)
    (hhead : (Jobs.waiting (timeline.moment n) (σ.view (timeline.moment n))).head? = some j)
    (h : Workable timeline σ j) :
    Outcome platform timeline (Jobs.claim seconds)
      (fun result _ σ' => Heads timeline seconds σ σ' j result) (fun _ => False) n σ := by
  obtain ⟨hstored, -, i, hdue⟩ := mem_waiting (List.mem_of_head? hhead)
  have hticks : ∀ k, (timeline.moment k).clock 0 ≤ (timeline.moment k).clock 1 := fun k =>
    hpunctual.forward k k 0 1 (Or.inr ⟨rfl, Nat.zero_le _⟩)
  unfold Jobs.claim
  rw [if_pos hseconds]
  refine outcome_readAt ?_
  rw [hhead]
  refine outcome_bind (h.load false) ?_
  rintro loaded m σ' hle ⟨rfl, rfl⟩
  have hready := JobRow.due_later (hpunctual.forward n m i 1 (Or.inl hle)) hdue
  split
  next hfive =>
    -- a pending job has an attempt left, so the head runs
    have hrunning : loaded.row.state = .running := by
      rcases hready with ⟨hpending, -⟩ | ⟨hrunning, -⟩
      · have := h.lawful.pending hpending
        omega
      · exact hrunning
    refine outcome_bind (h.update (hticks m) (fun _ _ => rfl) (fun _ _ => rfl) hrunning) ?_
    rintro row m' τ - ⟨⟨hforeign, hunique⟩, new, hid, hnew, -, rfl⟩
    refine outcome_bind (outcome_audit_kept hforeign hunique haudit _ _) ?_
    rintro - m₂ τ₂ - ⟨o, rfl⟩
    exact outcome_pure ⟨m, .exhaust, new, hid, o, hnew, rfl, Or.inl ⟨rfl, hfive, rfl⟩⟩
  next hfive =>
    have hdue : (JobChange.claim seconds).Due (timeline.moment m) loaded.row :=
      ⟨hseconds, hfive, fun htoken => hpunctual.fresh m _ hstored htoken.symm, hpunctual.prompt m, hready⟩
    refine outcome_bind (h.update (hticks m) (fun _ _ => rfl) (fun _ _ => rfl) hdue) ?_
    rintro row m' τ - ⟨⟨hforeign, hunique⟩, new, hid, hnew, rfl, rfl⟩
    refine outcome_found (fun claimed hclaimed => ?_) fun hnone => by cases hnone
    obtain rfl : new = claimed := Option.some.inj hclaimed
    refine outcome_bind (outcome_audit_kept hforeign hunique haudit _ _) ?_
    rintro - m₂ τ₂ - ⟨o, rfl⟩
    exact outcome_pure ⟨m, .claim seconds, new, hid, o, hnew, rfl, Or.inr ⟨rfl, hfive, rfl⟩⟩

/-- A claim that finds nothing to do changes nothing. -/
theorem outcome_claim_idle {seconds : Nat} (hseconds : 1 ≤ seconds ∧ seconds ≤ 300)
    (hidle : Jobs.waiting (timeline.moment n) (σ.view (timeline.moment n)) = []) :
    Outcome platform timeline (Jobs.claim seconds) (fun result _ σ' => result = none ∧ σ' = σ)
      (fun _ => False) n σ := by
  unfold Jobs.claim
  rw [if_pos hseconds]
  refine outcome_readAt ?_
  rw [hidle]
  exact outcome_pure ⟨rfl, rfl⟩

/-- **A job of the caller that is due** is waiting. -/
theorem Workable.mem_waiting (h : Workable timeline σ j)
    (hdue : ∀ i, j.due ((timeline.moment n).clock i) = true) :
    j ∈ Jobs.waiting (timeline.moment n) (σ.view (timeline.moment n)) := by
  rw [Jobs.waiting, List.mem_insertionSort, List.mem_map]
  have hvisible : (σ.view (timeline.moment n)).visible j.id = true :=
    ((h.grounded.job h.stored).visible h.grounded.foreign.marked rfl).mpr (h.reads n)
  have hseen : j ∈ (σ.view (timeline.moment n)).jobs := List.mem_filter.mpr ⟨h.stored, hvisible⟩
  obtain ⟨i, hi, hget⟩ := List.mem_iff_getElem.mp hseen
  refine ⟨(j, i), List.mem_filter.mpr ⟨?_, ?_⟩, rfl⟩
  · rw [← hget]
    exact List.mem_zipIdx_iff_getElem?.mpr (List.getElem?_eq_getElem hi)
  · simp only [Bool.and_eq_true, decide_eq_true_eq]
    exact ⟨⟨⟨h.owner, h.writes n⟩, hdue i⟩, h.updatable n⟩

end Workable

/-! ## Calls -/

section Calls

variable {platform : Platform} {timeline : Timeline} {s : Store} {principal : UUID} {seconds : Nat}
  {j : JobRow}

/-- **A job of an orderly store** is workable for its owner. -/
theorem Orderly.workable (h : Orderly platform s) (hj : j ∈ s.queue.jobs) (hactive : j.state.active = true)
    (howner : j.principalId = principal) (hread : Holds timeline (.start principal s) j.scopeId .read)
    (hwrite : Holds timeline (.start principal s) j.scopeId .write) :
    Workable timeline (.start principal s) j where
  grounded := h.reachable.sound.grounded
  unique := h.reachable.sound.integrity.unique
  stored := hj
  lawful := h.reachable.lawful j hj
  checked := h.reachable.checked j hj
  active := hactive
  complete := (h.intact j.id).job
  owner := howner
  reads := hread
  writes := hwrite

/-- **A claim that finds nothing to do** is committed, and changes nothing. -/
theorem Orderly.attempt_idle (h : Orderly platform s)
    (hknown : (s.access.principals.find? principal).isSome = true)
    (hseconds : 1 ≤ seconds ∧ seconds ≤ 300)
    (hidle : Jobs.waiting (timeline.moment 1) ((Session.start principal s).view (timeline.moment 1)) = []) :
    attempt platform timeline principal ((Request.claim seconds).program platform) s
      = .ok (.claimed none, s) := by
  have hprogram : Outcome platform timeline ((Request.claim seconds).program platform)
      (fun response _ σ' => response = .claimed none ∧ σ' = .start principal s) (fun _ => False) 0
      (.start principal s) := by
    refine outcome_bind (outcome_bindIdentity_known hknown) ?_
    rintro - m σ' - ⟨rfl, rfl⟩
    refine outcome_bind (outcome_claim_idle hseconds hidle) ?_
    rintro result m σ' - ⟨rfl, rfl⟩
    exact outcome_pure ⟨rfl, rfl⟩
  obtain ⟨response, n, σ', hrun, rfl, rfl⟩ := hprogram.exists_run
  exact attempt_eq_ok.mpr ⟨n, _, hrun,
    commit_eq_ok.mpr ⟨⟨rfl, h.reachable.sound.integrity.deferred⟩, rfl⟩⟩

/-- **The deferred check of a claimed job** passes. -/
theorem Heads.check {σ' : Session} {result : Option ClaimResult}
    (h : Heads timeline seconds (.start principal s) σ' j result) (hquotes : Quotes s)
    (hwork : Workable timeline (.start principal s) j) (hgrounded : Grounded σ'.store) (m : Moment) :
    σ'.deferred.all (Deferred.check (σ'.view m)) = true := by
  obtain ⟨k, change, new, hid, o, hnew, rfl, hchange⟩ := h
  have hadmission : new.admission = j.admission := by
    rw [hnew]
    exact change.written_admission _ _ _
  have hpayload : new.payload = none ∨ new.payload = j.payload := by
    rw [hnew]
    rcases hchange with ⟨rfl, -⟩ | ⟨rfl, -⟩
    · exact Or.inl rfl
    · exact Or.inr rfl
  have hcheck := View.checkJobInputs_updated (s := s) (v := Session.view
    { Session.updated (.start principal s) j.id new hid with store.operations := o } m) hgrounded rfl rfl
    hwork.stored hwork.complete (hquotes.jobs j hwork.stored hwork.active) hadmission hpayload
  show (List.all ([] ++ [Deferred.jobInputs j.id]) _) = true
  rw [List.nil_append, List.all_cons, List.all_nil, Bool.and_true]
  exact hcheck

/-- **The job at the head of an orderly queue is claimed**, and the claim is committed. -/
theorem Orderly.attempt_claim (h : Orderly platform s)
    (hknown : (s.access.principals.find? principal).isSome = true)
    (hseconds : 1 ≤ seconds ∧ seconds ≤ 300) (hpunctual : Punctual timeline s seconds)
    (hhead : (Jobs.waiting (timeline.moment 1) ((Session.start principal s).view (timeline.moment 1))).head?
      = some j) (hwork : Workable timeline (.start principal s) j) :
    ∃ result σ', Heads timeline seconds (.start principal s) σ' j result
      ∧ attempt platform timeline principal ((Request.claim seconds).program platform) s
        = .ok (.claimed result, σ'.store) := by
  have hs := h.reachable.sound
  have hprogram : Outcome platform timeline ((Request.claim seconds).program platform)
      (fun response _ σ' => ∃ result, response = .claimed result
        ∧ Heads timeline seconds (.start principal s) σ' j result) (fun _ => False) 0
      (.start principal s) := by
    refine outcome_bind (outcome_bindIdentity_known hknown) ?_
    rintro - m σ' - ⟨rfl, rfl⟩
    refine outcome_bind (outcome_claim_head hseconds hpunctual hs.auditFresh hhead hwork) ?_
    exact fun result m σ' _ hheads => outcome_pure ⟨result, rfl, hheads⟩
  obtain ⟨response, n, σ', hrun, result, rfl, hheads⟩ := hprogram.exists_run
  -- what the statements of the run have kept
  obtain ⟨-, hgrounded⟩ := Request.run_invariant
    (c := ⟨platform, .claim seconds, Set.univ, timeline, s⟩) (I := fun σ => Grounded σ.store)
    hs.integrity.foreign (rfl : (Request.claim seconds).deletes = false) rfl hs.grounded
    (fun st m σ r σ' hσ hI hallow hstep => hallow.grounded hσ hstep hI) hrun
  have hcheck := hheads.check h.quotes hwork hgrounded (timeline.moment n)
  refine ⟨result, σ', hheads, attempt_eq_ok.mpr ⟨n, σ', hrun, commit_eq_ok.mpr ⟨⟨hcheck, ?_⟩, rfl⟩⟩⟩
  obtain ⟨k, change, new, hid, o, -, rfl, -⟩ := hheads
  obtain ⟨hcurrent, heffect⟩ := hs.integrity.deferred
  exact ⟨hcurrent, heffect⟩

end Calls

end PgAgmemory

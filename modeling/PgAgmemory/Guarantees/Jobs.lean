import PgAgmemory.History.Leases
import PgAgmemory.History.Progress

/-! # The job queue

In every run of a provisioned tenant, whatever its workers, clients and administrators do in whatever
order: the jobs stay in the documented states, below the quota (`queue_lawful`); a job keeps what it was
queued with, and an outcome is never left (`jobs_become`); its claims are numbered, five at most
(`claims_numbered`); and it is published at most once, under its last claim, in the context of that
claim and with the request that was queued (`publications_fenced`). -/

namespace PgAgmemory

/-! ## The states of jobs -/

/-- **Every job is in a documented state**, and at most a hundred jobs of a scope wait for
publication. -/
theorem queue_lawful (platform : Platform) (access : Access) (events : List Event) :
    (∀ j ∈ (runEvents platform events (.provisioned access)).queue.jobs,
        j.Lawful (runEvents platform events (.provisioned access)).access)
      ∧ ∀ scope, (runEvents platform events (.provisioned access)).activeJobs scope ≤ 100 :=
  have hreachable : Reachable platform _ := (Reachable.provisioned access).run events
  ⟨hreachable.lawful, hreachable.quota⟩

/-- **A job along a run** keeps its identity, scope, owner, intent and request, its attempts only grow,
and an outcome is never left: of a cancellation and a publication that race, the second changes nothing.
A job that is gone stays gone. -/
theorem jobs_become (platform : Platform) (access : Access) (before after : List Event) {j : JobRow}
    (hj : j ∈ (runEvents platform before (.provisioned access)).queue.jobs) :
    (∀ j' ∈ (runEvents platform (before ++ after) (.provisioned access)).queue.jobs,
        j'.id = j.id → j.Becomes j')
      ∧ ((∀ j' ∈ (runEvents platform (before ++ after) (.provisioned access)).queue.jobs, j'.id ≠ j.id) →
        ∀ later, ∀ j' ∈ (runEvents platform (before ++ after ++ later) (.provisioned access)).queue.jobs,
          j'.id ≠ j.id) := by
  have hsound : Sound (runEvents platform before (.provisioned access)) :=
    ((Reachable.provisioned access).run before).sound
  rw [runEvents_append] at *
  refine ⟨fun j' hj' hid => hsound.job_run after hj hj' hid, fun hnone later j' hj' => ?_⟩
  rw [runEvents_append, runEvents_append] at hj'
  obtain ⟨o, ho, hkey⟩ := hsound.integrity.foreign.queue.job_object.exists_parent hj rfl
  have hsteady : Steady _ (runEvents platform after _) := hsound.steady_run after
  have hthere := hsteady.objects o ho
  exact ((hsound.run after).jobGone_run later ⟨⟨o, hthere, (Prod.mk.inj hkey).1⟩, hnone⟩).2 j' hj'

/-- The small tenant queues a job, the object 312. -/
def Event.queueing : List Event := [
  .call ⟨1, .ticking 0 100, .observe (.brief 2) "key"⟩,
  .call ⟨1, .ticking 200 300, .enqueue ⟨.brief⟩ "key" none⟩]

/-- A worker claims the job under the token 406, and publishes it. -/
def Event.working : List Event := [
  .call ⟨1, .ticking 400 400, .claim 30⟩,
  .call ⟨1, .ticking 600 500, .publish 312 406 .brief⟩]

set_option maxRecDepth 10000 in
/-- The job of the small tenant is the same one after it was published. -/
theorem jobs_become_small : ∃ j ∈ (runEvents .plain Event.queueing (.provisioned (.sole 1 2 none))).queue.jobs,
    (∀ j' ∈ (runEvents .plain (Event.queueing ++ Event.working) (.provisioned (.sole 1 2 none))).queue.jobs,
      j'.id = j.id → j.Becomes j') := by
  have hone : ((runEvents .plain Event.queueing (.provisioned (.sole 1 2 none))).queue.jobs.rows.map
      JobRow.id) = [312] := by decide +kernel
  obtain ⟨j, hj, -⟩ := List.mem_map.mp (hone ▸ List.mem_singleton_self 312)
  exact ⟨j, hj, (jobs_become .plain (.sole 1 2 none) Event.queueing Event.working hj).1⟩

/-! ## Claims and publications -/

/-- **The claims of a job are numbered**: each claim of a run is a later attempt than those before it,
and there are at most five. -/
theorem claims_numbered (platform : Platform) (access : Access) (events : List Event) (id : UUID) :
    (claimsOf platform id events (.provisioned access)).Pairwise (fun r r' => r.attempt < r'.attempt)
      ∧ (claimsOf platform id events (.provisioned access)).length ≤ 5 :=
  have hreachable : Reachable platform _ := .provisioned access
  ⟨hreachable.sound.claims_increase events, hreachable.claims_le events⟩

/-- **A job is published at most once, and every publication is fenced**: the run has a call of the
publisher that was answered and put the job with exactly this request on the queue, under an id that was
free, and after it a claim of the publisher that answered with the request and the token; since that claim
nobody has claimed the job, and no access was changed and nothing deleted at any time. The result records
the request, word for word. -/
theorem publications_fenced (platform : Platform) (access : Access) (history : List Event) (id : UUID) :
    (publicationsOf platform id history (.provisioned access)).length ≤ 1
      ∧ ∀ before e after result, history = before ++ e :: after →
        e.published? platform (runEvents platform before (.provisioned access)) id = some result →
        ∃ c token prepared p, e = .call c
          ∧ Published platform (runEvents platform before (.provisioned access)) c id token result prepared
          ∧ Provenance.Backs platform (.provisioned access) before c.principal id token prepared p := by
  have hsound : Sound (.provisioned access) := Reachable.sound (.provisioned access : Reachable platform _)
  refine ⟨hsound.published_once history, ?_⟩
  rintro before e after result - hpublished
  exact hsound.publication_backed (fun j hj => absurd hj (Keyed.Table.not_mem_empty j)) hpublished

set_option maxRecDepth 10000 in
/-- The publication of the job of the small tenant is backed by its queueing and its claim. -/
theorem publications_fenced_small : ∃ (e : Event) (result : UUID) (c : Call) (token : UUID) (prepared : Remember)
    (p : Provenance), e = .call c
    ∧ Published .plain (runEvents .plain (Event.queueing ++ Event.working.take 1)
      (.provisioned (.sole 1 2 none))) c 312 token result prepared
    ∧ Provenance.Backs .plain (.provisioned (.sole 1 2 none)) (Event.queueing ++ Event.working.take 1)
      c.principal 312 token prepared p := by
  obtain ⟨result, hresult⟩ : ∃ result, (Event.call ⟨1, .ticking 600 500, .publish 312 406 .brief⟩).published?
      .plain (runEvents .plain (Event.queueing ++ Event.working.take 1) (.provisioned (.sole 1 2 none))) 312
      = some result := Option.isSome_iff_exists.mp (by decide +kernel)
  exact ⟨_, result, (publications_fenced .plain (.sole 1 2 none) (Event.queueing ++ Event.working) 312).2
    (Event.queueing ++ Event.working.take 1) _ [] result rfl hresult⟩

/-! ## Progress -/

/-- Later statements have later clocks. -/
theorem step_le_step (start : Time) (n m : Nat) (hle : n ≤ m) : start + n ≤ start + m :=
  Int.add_le_add_left (Int.ofNat_le.mpr hle) start

/-- A timeline whose clock stands still within a statement. -/
def Timeline.stepping (start : Time) (drawn : Nat) : Timeline where
  moment n := { (Timeline.ticking start drawn).moment n with clock := fun _ => start + n }
  mono := step_le_step start

/-- A worker on such a timeline is punctual where no job has a token. -/
theorem punctual_stepping {start : Time} {drawn seconds : Nat} {s : Store} (hseconds : 1 ≤ seconds)
    (hnone : s.queue.jobs.rows.all (fun j => j.leaseToken.isNone) = true) :
    Punctual (.stepping start drawn) s seconds where
  forward n m i k hle := step_le_step start n m (hle.elim Nat.le_of_lt fun h => h.1.le)
  prompt n := lt_add_of_pos_right _ (mul_pos (Int.natCast_pos.mpr hseconds) (by decide))
  fresh n j hj htoken := by
    have hfree := List.all_eq_true.mp hnone j hj
    rw [htoken] at hfree
    cases hfree

/-- The small tenant after its job was queued. -/
def Store.queued : Store := runEvents .plain Event.queueing (.provisioned (.sole 1 2 none))

/-- The run in which the small tenant queues its job is orderly. -/
theorem orderly_queued : Orderly .plain .queued := (Orderly.provisioned _).run ⟨trivial, trivial, trivial⟩

/-- **How the service comes to send an update** of a job: before it has written anything, or, for a
publication, when it has recorded the request that the job stores under the id of the result. -/
inductive JobChange.Sent (platform : Platform) (timeline : Timeline) (s : Store) (principal : UUID)
    (j : JobRow) : JobChange → Nat → Session → Prop
  | first {change : JobChange} {n : Nat} (hother : ∀ token result, change ≠ .publish token result) :
    Sent platform timeline s principal j change n (.start principal s)
  | recorded {token result : UUID} {prepared : Remember} {k n : Nat} {σ : Session}
    (hpayload : j.payload = some prepared.dump)
    (hrun : runFrom platform timeline (MemoryService.publishAssertion platform prepared) k
      (.start principal s) = .ok (.assertion result 1, n, σ)) :
    Sent platform timeline s principal j (.publish token result) n σ

section Sent

variable {platform : Platform} {timeline : Timeline} {s : Store} {principal : UUID} {j : JobRow}
  {change : JobChange} {n : Nat} {σ : Session}

/-- An update is sent in a session with the queue of the transaction, where the keys hold. -/
theorem JobChange.Sent.session (h : change.Sent platform timeline s principal j n σ)
    (hs : Integrity s) :
    (Session.start principal s).Abreast σ ∧ ForeignKeys σ.store ∧ UniqueKeys σ.store := by
  cases h with
  | first hother => exact ⟨.refl _, hs.foreign, hs.unique⟩
  | @recorded token result prepared k n σ hpayload hrun =>
    have hwithin := within_publishAssertion platform prepared
    have habreast := (outcome_abreast hwithin (by decide)).of_run hrun
    have hkeys : Outcome platform timeline (MemoryService.publishAssertion platform prepared)
        (fun _ _ σ' => ForeignKeys σ'.store ∧ UniqueKeys σ'.store) (fun _ => True) k
        (.start principal s) :=
      hwithin.yields ⟨hs.foreign, hs.unique⟩ fun _ _ _ _ _ _ _ hstep => (step_eq_ok.mp hstep).2.2.1
    exact ⟨habreast, hkeys.of_run hrun⟩

/-- **The result of a publication** is an assertion of the job's scope, and no job has it. -/
theorem JobChange.Sent.result (h : change.Sent platform timeline s principal j n σ)
    (hs : Reachable platform s) (hj : j ∈ s.queue.jobs) {token result : UUID}
    (hpublish : change = .publish token result) :
    (∃ a ∈ σ.store.contents.assertions, (a.id, a.scopeId) = (result, j.scopeId))
      ∧ ∀ i ∈ s.queue.jobs, i.resultId ≠ some result := by
  have hforeign := hs.sound.integrity.foreign
  cases h with
  | first hother => exact absurd hpublish (hother token result)
  | @recorded token' result' prepared k n σ hpayload hrun =>
    obtain ⟨-, rfl⟩ := JobChange.publish.inj hpublish
    obtain ⟨id, hreceipt, hfresh, hrecords⟩ := (outcome_publishAssertion prepared hforeign).of_run hrun
    obtain ⟨rfl, -⟩ := Receipt.assertion.inj hreceipt
    refine ⟨⟨_, hrecords.assertion, ?_⟩, fun i hi hresult => ?_⟩
    · rw [hs.scope_of_payload j hj prepared hpayload]
    · -- a job's result is an assertion, and so an object
      obtain ⟨a, ha, hkey⟩ := hforeign.queue.job_result.exists_parent hi (by rw [hresult]; rfl)
      exact bare_of_fresh hforeign hfresh .assertion ⟨a, ha, (Prod.mk.inj hkey).1⟩

/-- **What the service sends, the trigger accepts**: in a reachable store every update of a job that is
due, as the trigger's own clock finds it, is accepted from the owner that may write there, also that of a
publication, whose result is new in the same transaction. -/
theorem updates_accepted (h : Reachable platform s) (hj : j ∈ s.queue.jobs)
    (hsent : change.Sent platform timeline s principal j n σ)
    (hupdatable : (σ.view (timeline.moment n)).jobUpdatable j = true)
    (happlies : change.applies (σ.view (timeline.moment n)) (timeline.moment n) j = true)
    (hticks : (timeline.moment n).clock 0 ≤ (timeline.moment n).clock 1)
    (hdue : change.Due (timeline.moment n) j) :
    ∃ σ', step platform (.queue (.updateJob j.id change)) (timeline.moment n) σ
      = .ok (.job (some (change.written (σ.view (timeline.moment n)) (timeline.moment n) j)), σ') := by
  have hlawful := h.lawful j hj
  obtain ⟨habreast, hforeign, hunique⟩ := hsent.session h.sound.integrity
  have hqueue : σ.store.queue = s.queue := habreast.queue
  have hreplaces : Replaces σ.store j
      (change.written (σ.view (timeline.moment n)) (timeline.moment n) j) := by
    refine ⟨hqueue ▸ hj, change.written_admission _ _ _, fun a ha => ?_⟩
    cases change with
    | publish token result =>
      obtain rfl : result = a := Option.some.inj ha
      rw [hqueue]
      exact hsent.result h hj rfl
    | _ =>
      -- an active job has no result
      have hsucceeded := hlawful.result.mp (Option.isSome_iff_exists.mpr ⟨a, ha⟩)
      have hactive := hdue.active
      rw [hsucceeded] at hactive
      cases hactive
  exact ⟨_, step_written hforeign hunique hreplaces hupdatable happlies
    (hlawful.accepts hticks hdue.active hdue) (hlawful.checked (h.checked j hj) hdue.active hdue)⟩

end Sent

/-- The small tenant after a worker claimed the job under the token 406. -/
def Store.claimed : Store := runEvents .plain (Event.working.take 1) .queued

/-- The session of the worker that has recorded the request, and then sends the publication. -/
def Session.recording : Except Fault (Receipt × Nat × Session) :=
  runFrom .plain (.ticking 600 500) (MemoryService.publishAssertion .plain .brief) 0 (.start 1 .claimed)

set_option maxRecDepth 10000 in
/-- A running job takes a heartbeat, and the publication under the result 504 that it has recorded. -/
theorem updates_accepted_small : ∃ j ∈ Store.claimed.queue.jobs,
    (∃ σ', step .plain (.queue (.updateJob j.id .heartbeat)) ((Timeline.ticking 600 500).moment 0)
      (.start 1 .claimed) = .ok (.job (some (JobChange.heartbeat.written
        ((Session.start 1 .claimed).view ((Timeline.ticking 600 500).moment 0))
        ((Timeline.ticking 600 500).moment 0) j)), σ'))
    ∧ ∃ n σ, Session.recording = .ok (.assertion 504 1, n, σ)
      ∧ ∃ σ', step .plain (.queue (.updateJob j.id (.publish 406 504))) ((Timeline.ticking 600 500).moment n) σ
        = .ok (.job (some ((JobChange.publish 406 504).written (σ.view ((Timeline.ticking 600 500).moment n))
          ((Timeline.ticking 600 500).moment n) j)), σ') := by
  -- The one job of the store is leased; its owner beats, and publishes what it has just recorded.
  have hbeats : Store.claimed.queue.jobs.rows.all (fun j =>
      ((Session.start 1 .claimed).view ((Timeline.ticking 600 500).moment 0)).jobUpdatable j
        && decide (j.state = .running)
        && decide (j.updatedAt < ((Timeline.ticking 600 500).moment 0).clock 1)
        && decide (j.expired (((Timeline.ticking 600 500).moment 0).clock 1) = false)) = true := by
    decide +kernel
  have hpublishes : Session.recording.toOption.any (fun r => decide (r.1 = .assertion 504 1)
      && Store.claimed.queue.jobs.rows.all fun j =>
        (r.2.2.view ((Timeline.ticking 600 500).moment r.2.1)).jobUpdatable j
          && (JobChange.publish 406 504).applies (r.2.2.view ((Timeline.ticking 600 500).moment r.2.1))
            ((Timeline.ticking 600 500).moment r.2.1) j
          && decide (j.payload = some Remember.brief.dump) && decide (j.state = .running)
          && decide (j.expired (((Timeline.ticking 600 500).moment r.2.1).clock 1) = false)) = true := by
    decide +kernel
  obtain ⟨j, hj⟩ : ∃ j, j ∈ Store.claimed.queue.jobs.rows :=
    List.exists_mem_of_ne_nil _ (List.ne_nil_of_length_pos (by decide +kernel))
  obtain ⟨⟨receipt, n, σ⟩, hsome, hpublishes⟩ := (Option.any_eq_true _ _).mp hpublishes
  have hrun : Session.recording = .ok (receipt, n, σ) := toOption_eq_some.mp hsome
  have hreachable : Reachable .plain .claimed := orderly_queued.reachable.run _
  obtain ⟨hreceipt, hpublishes⟩ := Bool.and_eq_true_iff.mp hpublishes
  obtain rfl : receipt = .assertion 504 1 := of_decide_eq_true hreceipt
  have hbeat := List.all_eq_true.mp hbeats j hj
  have hpublish := List.all_eq_true.mp hpublishes j hj
  simp only [Bool.and_eq_true, decide_eq_true_eq] at hbeat hpublish
  obtain ⟨⟨⟨hupdatable, hrunning⟩, hlater⟩, hopen⟩ := hbeat
  obtain ⟨⟨⟨⟨hupdatable', happlies⟩, hpayload⟩, -⟩, hopen'⟩ := hpublish
  have hticks : ∀ k, ((Timeline.ticking 600 500).moment k).clock 0
      ≤ ((Timeline.ticking 600 500).moment k).clock 1 := fun k => by
    show (600 + k + (0 : Nat) : Int) ≤ 600 + k + (1 : Nat)
    omega
  exact ⟨j, hj, updates_accepted hreachable hj (.first fun _ _ h => by cases h) hupdatable rfl (hticks 0)
      ⟨hrunning, hlater, hopen⟩,
    n, σ, hrun, updates_accepted hreachable hj (.recorded hpayload hrun) hupdatable' happlies (hticks n)
      ⟨hrunning, hopen'⟩⟩

section Progress

variable {platform : Platform} {s : Store} {principal : UUID} {timeline : Timeline} {seconds : Nat}

/-- **A claim makes progress**: in an orderly store, where its memberships last and its clock does not run
backwards, it never fails. Where nothing of the caller is due it answers so and changes nothing;
otherwise it starts the next attempt of the job at the head, with its request and under a new token, or,
exactly after five attempts, fails that job for good. Whatever is due is among what it looks at. -/
theorem claim_progresses (h : Orderly platform s)
    (hknown : (s.access.principals.find? principal).isSome = true)
    (hseconds : 1 ≤ seconds ∧ seconds ≤ 300) (hpunctual : Punctual timeline s seconds)
    (hholds : ∀ j ∈ Jobs.waiting (timeline.moment 1) ((Session.start principal s).view (timeline.moment 1)),
      Holds timeline (.start principal s) j.scopeId .read
        ∧ Holds timeline (.start principal s) j.scopeId .write) :
    (∀ j ∈ s.queue.jobs, j.principalId = principal → j.state.active = true →
        Holds timeline (.start principal s) j.scopeId .read →
        Holds timeline (.start principal s) j.scopeId .write →
        (∀ i, j.due ((timeline.moment 1).clock i) = true) →
        j ∈ Jobs.waiting (timeline.moment 1) ((Session.start principal s).view (timeline.moment 1)))
      ∧ ((Jobs.waiting (timeline.moment 1) ((Session.start principal s).view (timeline.moment 1)) = []
          ∧ Call.exec platform ⟨principal, timeline, .claim seconds⟩ s = (.ok (.claimed none), s))
        ∨ ∃ j new s', (Jobs.waiting (timeline.moment 1)
              ((Session.start principal s).view (timeline.moment 1))).head? = some j
            ∧ new ∈ s'.queue.jobs ∧ new.id = j.id
            ∧ ((j.attempt < 5 ∧ new.state = .running ∧ new.attempt = j.attempt + 1
                ∧ new.payload = j.payload ∧ new.leaseToken ≠ j.leaseToken
                ∧ Call.exec platform ⟨principal, timeline, .claim seconds⟩ s
                  = (.ok (.claimed (some (.claimed new))), s'))
              ∨ (j.attempt = 5 ∧ new.state = .failed ∧ new.errorCode = some .attemptLimit
                ∧ Call.exec platform ⟨principal, timeline, .claim seconds⟩ s
                  = (.ok (.claimed (some (.failed j.id))), s')))) := by
  -- The claim takes the head of the waiting jobs; without one it only reads.
  refine ⟨fun j hj howner hactive hread hwrite hdue =>
    (h.workable hj hactive howner hread hwrite).mem_waiting hdue, ?_⟩
  cases hwaiting : Jobs.waiting (timeline.moment 1) ((Session.start principal s).view (timeline.moment 1)) with
  | nil => exact Or.inl ⟨rfl, transact_eq_ok.mpr (h.attempt_idle hknown hseconds hwaiting)⟩
  | cons j rest =>
    have hhead : (Jobs.waiting (timeline.moment 1)
        ((Session.start principal s).view (timeline.moment 1))).head? = some j := by
      rw [hwaiting]
      rfl
    have hmem := List.mem_of_head? hhead
    obtain ⟨hstored, howner, i, hdue⟩ := mem_waiting hmem
    have hstored : j ∈ s.queue.jobs := hstored
    have hactive : j.state.active = true := by
      rcases JobRow.due_later le_rfl hdue with ⟨hpending, -⟩ | ⟨hrunning, -⟩
      · rw [hpending]
        rfl
      · rw [hrunning]
        rfl
    obtain ⟨hread, hwrite⟩ := hholds j hmem
    obtain ⟨result, σ', hheads, hattempt⟩ :=
      h.attempt_claim hknown hseconds hpunctual hhead (h.workable hstored hactive howner hread hwrite)
    obtain ⟨k, change, new, hid, o, hnew, rfl, hchange⟩ := hheads
    have hmoved : new ∈ replaceJob s.queue.jobs j.id new hid :=
      (mem_replaceJob_iff hid).mpr (Or.inl ⟨rfl, j, hstored, rfl⟩)
    refine Or.inr ⟨j, new, { s with queue := s.queue.withJob j.id new hid, operations := o }, rfl, hmoved,
      hid, ?_⟩
    rcases hchange with ⟨rfl, hfive, rfl⟩ | ⟨rfl, hfive, rfl⟩
    · refine Or.inr ⟨hfive, ?_, ?_, transact_eq_ok.mpr hattempt⟩
      · rw [hnew]
        rfl
      · rw [hnew]
        rfl
    · have hle := (h.reachable.lawful j hstored).attempts
      refine Or.inl ⟨by omega, ?_, ?_, ?_, ?_, transact_eq_ok.mpr hattempt⟩
      · rw [hnew]
        rfl
      · rw [hnew]
        rfl
      · rw [hnew]
        rfl
      · rw [hnew]
        exact fun htoken => hpunctual.fresh k j hstored htoken.symm

end Progress

set_option maxRecDepth 10000 in
/-- The first claim of the small tenant starts the first attempt of its job. -/
theorem claim_progresses_small : ∃ new s', new ∈ s'.queue.jobs ∧ new.attempt = 1
    ∧ Call.exec .plain ⟨1, .stepping 400 400, .claim 30⟩ .queued = (.ok (.claimed (some (.claimed new))), s') := by
  have hrows : Store.queued.queue.jobs.rows.map (fun j => (j.scopeId, j.attempt, j.leaseToken.isNone))
      = [(2, 0, true)] := by decide +kernel
  have hjobs : ∀ j ∈ Store.queued.queue.jobs, j.scopeId = 2 ∧ j.attempt = 0 ∧ j.leaseToken.isNone = true := by
    intro j hj
    have hmem := List.mem_map_of_mem (f := fun j => (j.scopeId, j.attempt, j.leaseToken.isNone)) hj
    rw [hrows, List.mem_singleton] at hmem
    obtain ⟨hscope, hrest⟩ := Prod.mk.inj hmem
    exact ⟨hscope, Prod.mk.inj hrest⟩
  have hread : Holds (.stepping 400 400) (.start 1 .queued) 2 .read := holds_of_lasting (by decide +kernel)
  have hwrite : Holds (.stepping 400 400) (.start 1 .queued) 2 .write := holds_of_lasting (by decide +kernel)
  have hknown : (Store.queued.access.principals.find? 1).isSome = true := by decide +kernel
  have hpunctual : Punctual (.stepping 400 400) .queued 30 :=
    punctual_stepping (by decide) (by decide +kernel)
  have hsome : (Jobs.waiting ((Timeline.stepping 400 400).moment 1)
      ((Session.start 1 .queued).view ((Timeline.stepping 400 400).moment 1))).isEmpty = false := by
    decide +kernel
  obtain ⟨-, ⟨hnone, -⟩ | ⟨j, new, s', hhead, hnew, -, hanswer⟩⟩ :=
    claim_progresses orderly_queued hknown (by decide) hpunctual fun j hj => by
      obtain ⟨hstored, -⟩ := mem_waiting hj
      rw [(hjobs j hstored).1]
      exact ⟨hread, hwrite⟩
  · rw [hnone] at hsome
    cases hsome
  · obtain ⟨hstored, -⟩ := mem_waiting (List.mem_of_head? hhead)
    obtain ⟨-, hattempt, -⟩ := hjobs j hstored
    rcases hanswer with ⟨-, -, hnext, -, -, hexec⟩ | ⟨hfive, -⟩
    · exact ⟨new, s', hnew, by rw [hnext, hattempt], hexec⟩
    · rw [hattempt] at hfive
      cases hfive

end PgAgmemory

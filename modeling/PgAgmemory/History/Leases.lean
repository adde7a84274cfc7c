import PgAgmemory.History.Jobs
import PgAgmemory.Operations.Admissions

/-! # Claims and publications

The claims of a job in a run are numbered by its attempts (`Sound.claims_increase`), so there are at
most five of them, and it is published at most once (`Sound.published_once`). The lease of a running
job was issued by one claim (`Issued`), which the run has in its history; since then nobody else has
claimed the job. -/

namespace PgAgmemory

open Keyed (HasKey Table key)

/-! ## Answers about jobs -/

/-- The row that an event's claim of a job returned. -/
def Event.claimed? (platform : Platform) (s : Store) (id : UUID) : Event → Option JobRow
  | .call ⟨principal, timeline, .claim seconds⟩ =>
    match (Call.exec platform ⟨principal, timeline, .claim seconds⟩ s).1 with
    | .ok (.claimed (some (.claimed row))) => if row.id = id then some row else none
    | _ => none
  | _ => none

/-- The result that an event's publication of a job returned. -/
def Event.published? (platform : Platform) (s : Store) (id : UUID) : Event → Option UUID
  | .call ⟨principal, timeline, .publish jobId token prepared⟩ =>
    match (Call.exec platform ⟨principal, timeline, .publish jobId token prepared⟩ s).1 with
    | .ok (.receipt result) => if jobId = id then Jobs.assertionId result else none
    | _ => none
  | _ => none

/-- What the events of a run answered, in order. -/
def collectAnswers {α : Type} (platform : Platform) (answer? : Store → Event → Option α) :
    List Event → Store → List α
  | [], _ => []
  | e :: events, s =>
    (answer? s e).toList ++ collectAnswers platform answer? events (e.exec platform s)

/-- **The claims of a job** in a run: the rows that they returned. -/
def claimsOf (platform : Platform) (id : UUID) : List Event → Store → List JobRow :=
  collectAnswers platform fun s e => e.claimed? platform s id

/-- **The publications of a job** in a run: their results. -/
def publicationsOf (platform : Platform) (id : UUID) : List Event → Store → List UUID :=
  collectAnswers platform fun s e => e.published? platform s id

/-- The program of a request after identification. -/
theorem outcome_program {platform : Platform} {c : Call} {s : Store} {α : Type} {wrap : α → Response}
    {p : Tx α} {Q : α → Nat → Session → Prop} (hbody : c.request.body platform = respond wrap p)
    (h : ∀ n, Outcome platform c.timeline p Q (fun _ => True) n (.start c.principal s)) :
    Outcome platform c.timeline (c.request.program platform)
      (fun response m σ => ∃ a, response = wrap a ∧ Q a m σ) (fun _ => True) 0
      (.start c.principal s) := by
  unfold Request.program
  rw [hbody]
  refine outcome_bind outcome_bindIdentity ?_
  rintro - m σ' - ⟨rfl, rfl⟩
  exact outcome_bind (h _) fun a m σ' _ hQ => outcome_pure ⟨a, rfl, hQ⟩

section Answers

variable {platform : Platform} {s : Store} {id : UUID} {e : Event} {row : JobRow} {result : UUID}

/-- **A claim that returned a row** has turned the job into it. -/
theorem Event.claimed?_eq_some (h : e.claimed? platform s id = some row) :
    ∃ c seconds old, e = .call c ∧ c.request = .claim seconds ∧ row.id = id
      ∧ c.Turns platform s (.claim seconds) old row := by
  unfold claimed? at h
  split at h
  next principal timeline seconds =>
    split at h
    next row' hresponse =>
      split at h
      next hid =>
        cases h
        obtain ⟨m, σ, ⟨result, hresult, hclaims⟩, hstore⟩ := Call.exec_returns hresponse
          (outcome_program (c := ⟨principal, timeline, .claim seconds⟩) rfl fun n => outcome_claim seconds)
        cases hresult
        obtain ⟨hseconds, old, hfive, hturned⟩ := hclaims
        exact ⟨⟨principal, timeline, .claim seconds⟩, seconds, old, rfl, rfl, hid,
          ⟨rfl, hfive, hseconds⟩, σ, hstore, hturned⟩
      next => cases h
    next => cases h
  next => cases h

/-- **A publication that returned a result** has turned the job, which was leased with the prepared
request, and has recorded the request under the result, which was free. -/
theorem Event.published?_eq_some (hkeys : ForeignKeys s) (h : e.published? platform s id = some result) :
    ∃ c token prepared old new, e = .call c ∧ c.request = .publish id token prepared
      ∧ old.id = id ∧ Leased c.timeline (.start c.principal s) id token true old
      ∧ old.payload = some prepared.dump ∧ c.Turns platform s (.publish token result) old new
      ∧ Fresh s result ∧ (e.exec platform s).Records result prepared := by
  unfold published? at h
  split at h
  next principal timeline jobId token prepared =>
    split at h
    next receipt hresponse =>
      split at h
      next hid =>
        subst hid
        obtain ⟨m, σ, ⟨a, ha, old, new, result', rfl, hold, hleased, hpayload, hturned, hfresh, hrecords⟩,
          hstore⟩ := Call.exec_returns hresponse (outcome_program
            (c := ⟨principal, timeline, .publish jobId token prepared⟩) rfl fun n =>
              outcome_publish jobId token prepared hkeys)
        cases ha
        obtain rfl : result' = result := Option.some.inj h
        subst hold
        exact ⟨⟨principal, timeline, .publish old.id token prepared⟩, token, prepared, old, new, rfl,
          rfl, rfl, hleased, hpayload, ⟨⟨prepared, rfl, hleased, hpayload⟩, σ, hstore, hturned⟩, hfresh,
          hrecords.congr (congrArg Store.contents hstore.symm)⟩
      next => cases h
    next => cases h
  next => cases h

/-- A claimed job runs under the claim's token, one attempt later. -/
theorem Call.Turns.claimed {c : Call} {seconds : Nat} {old new : JobRow}
    (h : c.Turns platform s (.claim seconds) old new) :
    new ∈ (Event.exec platform (.call c) s).queue.jobs ∧ new.state = .running
      ∧ new.attempt = old.attempt + 1 ∧ new.leaseToken.isSome = true
      ∧ new.capturedAccessEpoch = s.access.accessEpoch
      ∧ new.capturedDeletionEpoch = s.access.deletionEpoch ∧ new.principalId = c.principal := by
  obtain ⟨k, v, -, haccess, hprincipal, hchanges⟩ := h.changes
  obtain ⟨-, -, hrunning, hattempt, htoken, hcaptured, hdeleted⟩ := hchanges.claimed
  have hupdatable := hchanges.updatable
  simp only [View.jobUpdatable, Bool.and_eq_true, decide_eq_true_eq] at hupdatable
  refine ⟨h.mem_iff.mpr (Or.inl rfl), hrunning, hattempt, by rw [htoken]; rfl, haccess ▸ hcaptured,
    haccess ▸ hdeleted, ?_⟩
  have howner := congrArg (fun a => a.2.2.1) hchanges.becomes.admission
  exact (show new.principalId = old.principalId from howner).trans (hupdatable.2.trans hprincipal)

/-- The caller of a turn may read and write in the job's scope. -/
theorem Call.Turns.permitted {c : Call} {change : JobChange} {old new : JobRow}
    (h : c.Turns platform s change old new) (hkeys : ForeignKeys s) : old.principalId = c.principal
      ∧ ∃ k, ((Session.start c.principal s).view (c.timeline.moment k)).permitted old.scopeId .read = true
        ∧ ((Session.start c.principal s).view (c.timeline.moment k)).permitted old.scopeId .write = true := by
  obtain ⟨σ', -, hturned⟩ := h.turned
  exact hturned.permitted hkeys

/-- A published job has succeeded. -/
theorem Call.Turns.published {c : Call} {token : UUID} {old new : JobRow}
    (h : c.Turns platform s (.publish token result) old new) :
    new ∈ (Event.exec platform (.call c) s).queue.jobs ∧ new.state = .succeeded
      ∧ new.resultId = some result := by
  obtain ⟨k, v, -, -, -, hchanges⟩ := h.changes
  refine ⟨h.mem_iff.mpr (Or.inl rfl), ?_, ?_⟩ <;> rw [hchanges.stamped] <;> rfl

end Answers

/-! ## Claims are numbered -/

section Claims

variable {platform : Platform} {s : Store} {id : UUID}

/-- What is collected from a run comes from one of its events. -/
theorem exists_of_mem_collectAnswers {α : Type} {answer? : Store → Event → Option α} {a : α}
    {events : List Event} (h : a ∈ collectAnswers platform answer? events s) :
    ∃ before e after, events = before ++ e :: after
      ∧ answer? (runEvents platform before s) e = some a := by
  induction events generalizing s with
  | nil => exact absurd h List.not_mem_nil
  | cons e events ih =>
    rcases List.mem_append.mp h with hhead | htail
    · exact ⟨[], e, events, rfl, Option.mem_toList.mp hhead⟩
    · obtain ⟨before, e', after, rfl, hanswer⟩ := ih htail
      exact ⟨e :: before, e', after, rfl, hanswer⟩

/-- **A claim in a run** comes after every attempt of the job that the run began with. -/
theorem Sound.attempt_lt_of_claim (hs : Sound s) {events : List Event} {j row : JobRow}
    (hj : j ∈ s.queue.jobs) (hid : j.id = id) (hrow : row ∈ claimsOf platform id events s) :
    j.attempt < row.attempt := by
  obtain ⟨before, e, after, -, hanswer⟩ := exists_of_mem_collectAnswers hrow
  obtain ⟨c, seconds, old, rfl, -, hrowid, hturns⟩ := Event.claimed?_eq_some hanswer
  have hbecomes := hs.job_run before hj hturns.stored (hturns.id.symm.trans (hrowid.trans hid.symm))
  obtain ⟨-, -, hattempt, -⟩ := hturns.claimed
  have hle := hbecomes.attempt
  omega

/-- **The claims of a job are numbered**: every claim of a run is a later attempt than those before
it. -/
theorem Sound.claims_increase (hs : Sound s) (events : List Event) :
    (claimsOf platform id events s).Pairwise fun r r' => r.attempt < r'.attempt := by
  induction events generalizing s with
  | nil => exact .nil
  | cons e events ih =>
    show ((e.claimed? platform s id).toList ++ claimsOf platform id events (e.exec platform s)).Pairwise _
    cases hclaim : e.claimed? platform s id with
    | none => exact ih (hs.event e)
    | some row =>
      refine List.pairwise_cons.mpr ⟨fun row' hrow' => ?_, ih (hs.event e)⟩
      obtain ⟨c, seconds, old, rfl, -, hrowid, hturns⟩ := Event.claimed?_eq_some hclaim
      obtain ⟨hmem, -⟩ := hturns.claimed
      exact (hs.event _).attempt_lt_of_claim hmem hrowid hrow'

/-- A claim is one of five attempts. -/
theorem Reachable.claim_bounds (h : Reachable platform s) {events : List Event} {row : JobRow}
    (hrow : row ∈ claimsOf platform id events s) : 1 ≤ row.attempt ∧ row.attempt ≤ 5 := by
  obtain ⟨before, e, after, -, hanswer⟩ := exists_of_mem_collectAnswers hrow
  obtain ⟨c, seconds, old, rfl, -, -, hturns⟩ := Event.claimed?_eq_some hanswer
  obtain ⟨hmem, hrunning, -⟩ := hturns.claimed
  have hlawful := ((h.run before).event (.call c)).lawful row hmem
  exact ⟨hlawful.running hrunning, hlawful.attempts⟩

/-- **A job is claimed at most five times** in a run. -/
theorem Reachable.claims_le (h : Reachable platform s) (events : List Event) :
    (claimsOf platform id events s).length ≤ 5 := by
  have hnodup : ((claimsOf platform id events s).map JobRow.attempt).Nodup :=
    List.pairwise_map.mpr ((h.sound.claims_increase events).imp fun hlt => Nat.ne_of_lt hlt)
  have hsubset : (claimsOf platform id events s).map JobRow.attempt ⊆ [1, 2, 3, 4, 5] := by
    intro attempt hattempt
    obtain ⟨row, hrow, rfl⟩ := List.mem_map.mp hattempt
    obtain ⟨hone, hfive⟩ := h.claim_bounds hrow
    simp only [List.mem_cons, List.not_mem_nil, or_false]
    omega
  have hle := (hnodup.subperm hsubset).length_le
  rwa [List.length_map] at hle

end Claims

/-! ## Where leases come from -/

/-- The lease of a running job: its holder, token and attempt, and the context it was given in. -/
def JobRow.lease (j : JobRow) : UUID × Option UUID × Nat × Nat × Nat :=
  (j.principalId, j.leaseToken, j.attempt, j.capturedAccessEpoch, j.capturedDeletionEpoch)

/-- A claim in a run: what came before it, what came since, and the row that it returned. -/
structure Issue where
  before : List Event
  call : Call
  since : List Event
  row : JobRow

/-- **A claim gives a job its lease**, and nobody has claimed the job since. -/
structure Issue.Gives (platform : Platform) (start : Store) (history : List Event) (j : JobRow)
    (issue : Issue) : Prop where
  history : history = issue.before ++ .call issue.call :: issue.since
  claimed : (Event.call issue.call).claimed? platform (runEvents platform issue.before start) j.id
    = some issue.row
  last : claimsOf platform j.id issue.since
    (runEvents platform (issue.before ++ [.call issue.call]) start) = []
  lease : j.lease = issue.row.lease

/-- What a run answered, and what it answered afterwards. -/
theorem collectAnswers_append {α : Type} (platform : Platform) (answer? : Store → Event → Option α)
    (events events' : List Event) (s : Store) :
    collectAnswers platform answer? (events ++ events') s
      = collectAnswers platform answer? events s
        ++ collectAnswers platform answer? events' (runEvents platform events s) := by
  induction events generalizing s with
  | nil => rfl
  | cons e events ih =>
    show (answer? s e).toList ++ collectAnswers platform answer? (events ++ events') (e.exec platform s) = _
    rw [ih, ← List.append_assoc]
    rfl

section Issues

variable {platform : Platform} {s start : Store} {id : UUID} {result : UUID}

/-- A claimed job was not there with the row of the claim. -/
theorem Call.Turns.not_stored {c : Call} {seconds : Nat} {old new : JobRow}
    (h : c.Turns platform s (.claim seconds) old new) : new ∉ s.queue.jobs := by
  intro hmem
  obtain ⟨-, -, hattempt, -⟩ := h.claimed
  obtain rfl : new = old := Table.eq_of_key_eq hmem h.stored h.id
  omega

/-- A job after a turn was turned, or there before. -/
theorem Turned.mem {timeline : Timeline} {σ σ' : Session} {change : JobChange} {old new j : JobRow}
    (h : Turned timeline σ σ' change old new) (hj : j ∈ σ'.store.queue.jobs) :
    j = new ∨ j ∈ σ.store.queue.jobs := by
  rw [h.queue] at hj
  rcases (mem_replaceJob_iff h.id).mp hj with ⟨rfl, -⟩ | ⟨hold, -⟩
  · exact Or.inl rfl
  · exact Or.inr hold

/-- An answered claim is collected. -/
theorem Event.claimed?_of_answer {c : Call} {seconds : Nat} {row : JobRow}
    (hrequest : c.request = .claim seconds)
    (h : (c.exec platform s).1 = .ok (.claimed (some (.claimed row)))) :
    (Event.call c).claimed? platform s row.id = some row := by
  obtain ⟨principal, timeline, request⟩ := c
  change request = .claim seconds at hrequest
  subst hrequest
  rw [claimed?, h]
  exact if_pos rfl

/-- **A turn that claims a job is answered** with the claimed row. -/
theorem Call.Turns.answered {c : Call} {seconds : Nat} {old new : JobRow}
    (h : c.Turns platform s (.claim seconds) old new) :
    (Event.call c).claimed? platform s new.id = some new := by
  obtain ⟨hmem, hrunning, -⟩ := h.claimed
  obtain ⟨hrequest, -, -⟩ := h.licensed
  change new ∈ (c.exec platform s).2.queue.jobs at hmem
  rcases c.exec_cases platform s with ⟨fault, hexec⟩ | ⟨response, s', -, hexec⟩
  · rw [hexec] at hmem
    exact absurd hmem h.not_stored
  obtain ⟨m, σ, ⟨claimed, rfl, hclaims⟩, hstore⟩ := Call.exec_returns (congrArg Prod.fst hexec)
    (outcome_program (c := c) (p := Jobs.claim seconds) (by rw [hrequest]; rfl) fun n => outcome_claim seconds)
  rw [← hstore] at hmem
  cases claimed with
  | none =>
    rw [show σ.store.queue = s.queue from hclaims] at hmem
    exact absurd hmem h.not_stored
  | some claimed =>
    cases claimed with
    | failed id =>
      rcases hclaims with hsame | ⟨old', new', -, -, hturned⟩
      · rw [hsame] at hmem
        exact absurd hmem h.not_stored
      · rcases hturned.mem hmem with rfl | hold
        · -- a job that has used up its attempts does not run
          obtain ⟨k, σ₁, -, hchanges⟩ := hturned.changed
          rw [hchanges.stamped] at hrunning
          cases hrunning
        · exact absurd hold h.not_stored
    | claimed new' =>
      obtain ⟨-, old', -, hturned⟩ := hclaims
      rcases hturned.mem hmem with rfl | hold
      · exact Event.claimed?_of_answer hrequest (congrArg Prod.fst hexec)
      · exact absurd hold h.not_stored

/-- **A job that runs after an event that did not claim it** ran before, under the same lease. -/
theorem Sound.lease_before (hs : Sound s) (e : Event) {j : JobRow}
    (hj : j ∈ (e.exec platform s).queue.jobs) (hrunning : j.state = .running)
    (hclaim : e.claimed? platform s j.id = none) :
    ∃ old ∈ s.queue.jobs, old.id = j.id ∧ old.state = .running ∧ old.lease = j.lease := by
  have hcases : e.Queues platform s := hs.jobs_cases e
  cases hcases with
  | queued kept new =>
    rcases new j hj with hold | ⟨-, hqueued⟩
    · exact ⟨j, hold, rfl, hrunning, rfl⟩
    · obtain ⟨n, v, m, -, -, rfl, -⟩ := hqueued
      cases hrunning
  | @turned c change old new turns =>
    rcases turns.mem_iff.mp hj with rfl | ⟨hold, -⟩
    · obtain ⟨k, v, -, -, -, hchanges⟩ := turns.changes
      have hstamped := hchanges.stamped
      cases change with
      | claim seconds =>
        rw [turns.answered] at hclaim
        cases hclaim
      | heartbeat =>
        have hwas := hchanges.running (fun _ _ h => by cases h) fun _ h => by cases h
        refine ⟨old, turns.stored, turns.id.symm, hwas, ?_⟩
        rw [hstamped]
        rfl
      | fail again code =>
        rw [hstamped] at hrunning
        cases again with
        | true => cases hrunning
        | false => cases hrunning
      | _ =>
        rw [hstamped] at hrunning
        cases hrunning
    · exact ⟨j, hold, rfl, hrunning, rfl⟩
  | purged fewer => exact ⟨j, fewer j hj, rfl, hrunning, rfl⟩

/-- **Every lease was given by a claim** of the run, and nobody has claimed the job since. -/
theorem Sound.issued (hs : Sound start) (hnone : ∀ j ∈ start.queue.jobs, j.state ≠ .running)
    (history : List Event) {j : JobRow} (hj : j ∈ (runEvents platform history start).queue.jobs)
    (hrunning : j.state = .running) :
    ∃ issue : Issue, issue.Gives platform start history j := by
  induction history using List.reverseRecOn generalizing j with
  | nil => exact absurd hrunning (hnone j hj)
  | append_singleton history e ih =>
    have hlast : runEvents platform (history ++ [e]) start
        = e.exec platform (runEvents platform history start) := by
      rw [runEvents_append]
      rfl
    rw [hlast] at hj
    cases hclaim : e.claimed? platform (runEvents platform history start) j.id with
    | some row =>
      obtain ⟨c, seconds, old, rfl, -, hrowid, hturns⟩ := Event.claimed?_eq_some hclaim
      obtain ⟨hmem, -⟩ := hturns.claimed
      obtain rfl : j = row := Table.eq_of_key_eq hj hmem hrowid.symm
      exact ⟨⟨history, c, [], j⟩, rfl, hclaim, rfl, rfl⟩
    | none =>
      obtain ⟨old, hold, hid, hwas, hlease⟩ := (hs.run history).lease_before e hj hrunning hclaim
      obtain ⟨⟨before, c, since, row⟩, hissue⟩ := ih hold hwas
      obtain ⟨hhistory, hclaimed, hnobody, hgiven⟩ := hissue
      change history = before ++ .call c :: since at hhistory
      rw [hid] at hclaimed hnobody
      refine ⟨⟨before, c, since ++ [e], row⟩, ?_, hclaimed, ?_, hlease.symm.trans hgiven⟩
      · rw [hhistory, List.append_assoc, List.cons_append]
      · -- the last event has not claimed the job either
        have hthere : runEvents platform since (runEvents platform (before ++ [.call c]) start)
            = runEvents platform history start := by
          rw [hhistory, ← runEvents_append, List.append_assoc]
          rfl
        rw [claimsOf, collectAnswers_append, hthere]
        refine List.append_eq_nil_iff.mpr ⟨hnobody, ?_⟩
        show (e.claimed? platform (runEvents platform history start) j.id).toList ++ [] = []
        rw [hclaim]
        rfl

end Issues

/-! ## Where jobs come from -/

/-- The queueing of a job in a run: what came before it, what came since, and the row that it wrote. -/
structure Admission where
  before : List Event
  call : Call
  since : List Event
  row : JobRow

/-- **A call has queued a job**, under an id that was free and with its answer, and the job has become
`j`. -/
structure Admission.Gives (platform : Platform) (start : Store) (history : List Event) (j : JobRow)
    (admission : Admission) : Prop where
  history : history = admission.before ++ .call admission.call :: admission.since
  fresh : Fresh (runEvents platform admission.before start) j.id
  queued : admission.row.Queued (runEvents platform admission.before start).access admission.call
  stored : admission.row
    ∈ (admission.call.exec platform (runEvents platform admission.before start)).2.queue.jobs
  becomes : admission.row.Becomes j

section Admissions

variable {platform : Platform} {s start : Store}

/-- **Every job was queued by a call** of the run. -/
theorem Sound.admission (hs : Sound start) (hnone : ∀ j, j ∉ start.queue.jobs)
    (history : List Event) {j : JobRow} (hj : j ∈ (runEvents platform history start).queue.jobs) :
    ∃ admission : Admission, admission.Gives platform start history j := by
  induction history using List.reverseRecOn generalizing j with
  | nil => exact absurd hj (hnone j)
  | append_singleton history e ih =>
    have hlast : runEvents platform (history ++ [e]) start
        = e.exec platform (runEvents platform history start) := by
      rw [runEvents_append]
      rfl
    rw [hlast] at hj
    rcases (hs.run history).job_before e hj with ⟨hfresh, c, rfl, hqueued⟩ | ⟨i, hi, hbecomes⟩
    · exact ⟨⟨history, c, [], j⟩, rfl, hfresh, hqueued, hj, .refl j⟩
    · obtain ⟨⟨before, c, since, row⟩, hhistory, hfresh, hqueued, hstored, hrow⟩ := ih hi
      change history = before ++ .call c :: since at hhistory
      refine ⟨⟨before, c, since ++ [e], row⟩, ?_, ?_, hqueued, hstored, hrow.trans hbecomes⟩
      · rw [hhistory, List.append_assoc, List.cons_append]
      · rw [hbecomes.id]
        exact hfresh

/-- A job that is new was queued by its call with its answer. -/
theorem JobRow.Queued.answered (hs : Sound s) {c : Call} {j : JobRow} (h : j.Queued s.access c)
    (hfresh : Fresh s j.id) (hj : j ∈ (c.exec platform s).2.queue.jobs) :
    ∃ response memory retryOf, (c.exec platform s).1 = .ok response
      ∧ c.request.Queues response memory retryOf ∧ j.payload = some memory.dump
      ∧ j.scopeId = memory.scopeId := by
  have hnew : j ∉ s.queue.jobs := by
    intro hold
    obtain ⟨o, ho, hkey⟩ := hs.integrity.foreign.queue.job_object.exists_parent hold rfl
    exact hfresh o ho (Prod.mk.inj hkey).1
  obtain ⟨n, v, m, -, -, rfl, -, memory, retryOf, henqueues, hasks⟩ := h
  have hquiet := henqueues.quiet
  rcases c.exec_cases platform s with ⟨fault, hexec⟩ | ⟨response, s', -, hexec⟩
  · rw [hexec] at hj
    exact absurd hj hnew
  obtain ⟨m', σ, hgains, hstore⟩ := Call.exec_returns (congrArg Prod.fst hexec)
    (Request.outcome_gains c.request hquiet.1 hquiet.2)
  rw [← hstore] at hj
  rcases hgains _ hj with hold | ⟨memory', retryOf', hqueues, hpayload⟩
  · exact absurd hold hnew
  · have hsame : memory' = memory :=
      Remember.dump_inj.mp (Option.some.inj (hpayload.symm.trans (congrArg some hasks.payload)))
    exact ⟨response, memory', retryOf', congrArg Prod.fst hexec, hqueues, hpayload,
      hsame ▸ hasks.scopeId⟩

/-- **A queued job** has the owner of its call, and the scope and the request that were asked for. -/
theorem Admission.Gives.enqueued (hs : Sound start) {history : List Event} {j : JobRow}
    {admission : Admission} (h : admission.Gives platform start history j) :
    admission.row.id = j.id ∧ admission.row.principalId = admission.call.principal
      ∧ ∃ response memory retryOf,
        (admission.call.exec platform (runEvents platform admission.before start)).1 = .ok response
          ∧ admission.call.request.Queues response memory retryOf
          ∧ admission.row.payload = some memory.dump ∧ admission.row.scopeId = memory.scopeId := by
  have hid : j.id = admission.row.id := congrArg (fun a => a.1) h.becomes.admission
  have hanswered := h.queued.answered (hs.run admission.before) (hid ▸ h.fresh) h.stored
  obtain ⟨n, v, m, -, hprincipal, hrow, -⟩ := h.queued
  refine ⟨hid.symm, ?_, hanswered⟩
  rw [hrow]
  exact hprincipal

/-- **The request that a job stores** is about the job's scope. -/
theorem Reachable.scope_of_payload (h : Reachable platform s) :
    ∀ j ∈ s.queue.jobs, ∀ prepared : Remember, j.payload = some prepared.dump →
      j.scopeId = prepared.scopeId := by
  induction h with
  | provisioned access => exact fun j hj => absurd hj (Keyed.Table.not_mem_empty j)
  | event e h ih =>
    intro j hj prepared hpayload
    rcases h.sound.job_before e hj with ⟨-, c, -, hqueued⟩ | ⟨i, hi, hbecomes⟩
    · obtain ⟨n, v, m, -, -, rfl, -, memory, retryOf, -, hasks⟩ := hqueued
      obtain rfl : memory = prepared :=
        Remember.dump_inj.mp ((hasks.payload.symm.trans (Option.some.inj hpayload)))
      exact hasks.scopeId
    · -- a job with a request is active, so the request is the one that it had
      have hactive : j.state.active = true :=
        ((h.event e).lawful j hj).payload.mp (by rw [hpayload]; rfl)
      have hscope : j.scopeId = i.scopeId := congrArg (fun a => a.2.1) hbecomes.admission
      exact hscope.trans (ih i hi prepared ((hbecomes.payload hactive).symm.trans hpayload))

end Admissions

/-! ## Fencing -/

/-- The story of a published job in a run: the call that queued it, the claim under which it was
published, and what happened before, between and since. -/
structure Provenance where
  first : List Event
  queuer : Call
  waiting : List Event
  claimer : Call
  held : List Event
  row : JobRow

/-- The events before the claim. -/
def Provenance.before (p : Provenance) : List Event := p.first ++ .call p.queuer :: p.waiting

/-- **A publication is backed** by a call that was answered and queued the request under a free id, and by
a claim that answered with it under the token. Both were calls of the publisher. Since the claim nobody
has claimed the job, and at no time was anybody's access changed or anything deleted. -/
structure Provenance.Backs (platform : Platform) (start : Store) (history : List Event)
    (principal id token : UUID) (prepared : Remember) (p : Provenance) : Prop where
  history : history = p.before ++ .call p.claimer :: p.held
  fresh : Fresh (runEvents platform p.first start) id
  /-- The call asked for this request, about the episode of its answer where it captured one. -/
  queued : ∃ response retryOf,
    (p.queuer.exec platform (runEvents platform p.first start)).1 = .ok response
      ∧ p.queuer.request.Queues response prepared retryOf
  /-- The call has put the job on the queue. -/
  stored : ∃ j ∈ (p.queuer.exec platform (runEvents platform p.first start)).2.queue.jobs, j.id = id
    ∧ j.principalId = principal ∧ j.scopeId = prepared.scopeId ∧ j.payload = some prepared.dump
  claimed : (Event.call p.claimer).claimed? platform (runEvents platform p.before start) id = some p.row
  request : p.row.payload = some prepared.dump
  token : p.row.leaseToken = some token
  principals : p.queuer.principal = principal ∧ p.claimer.principal = principal
  unclaimed : claimsOf platform id p.held (runEvents platform (p.before ++ [.call p.claimer]) start) = []
  context : ∀ past rest, p.held = past ++ rest → SameContext (runEvents platform p.before start)
    (runEvents platform (p.before ++ .call p.claimer :: past) start)

/-- **A publication as committed**: the job ran under the token, whose lease had not expired and whose
context had not changed, its owner could read and write in the scope, and the result, a free id until
then, is the request as recorded. -/
structure Published (platform : Platform) (s : Store) (c : Call) (id token result : UUID)
    (prepared : Remember) : Prop where
  request : c.request = .publish id token prepared
  leased : ∃ j, Leased c.timeline (.start c.principal s) id token true j
  permitted : ∃ k, ∀ permission, permission = .read ∨ permission = .write →
    ((Session.start c.principal s).view (c.timeline.moment k)).permitted prepared.scopeId permission = true
  fresh : Fresh s result
  records : (c.exec platform s).2.Records result prepared
  succeeded : ∃ j ∈ (c.exec platform s).2.queue.jobs,
    j.id = id ∧ j.state = .succeeded ∧ j.resultId = some result

section Fencing

variable {platform : Platform} {start : Store} {history : List Event} {id result : UUID} {e : Event}

/-- **Stores between two of the same context** have it too. -/
theorem Sound.sameContext_between {s : Store} (hs : Sound s) (past rest : List Event)
    (haccess : (runEvents platform (past ++ rest) s).access.accessEpoch = s.access.accessEpoch)
    (hdeletion : (runEvents platform (past ++ rest) s).access.deletionEpoch = s.access.deletionEpoch) :
    SameContext s (runEvents platform past s) := by
  rw [runEvents_append] at haccess hdeletion
  have hpast : Dated s (runEvents platform past s) := hs.dated_run past
  have hrest : Dated (runEvents platform past s) (runEvents platform rest (runEvents platform past s)) :=
    (hs.run past).dated_run rest
  have haccess₁ := hpast.accessEpoch
  have haccess₂ := hrest.accessEpoch
  have hdeletion₁ := hpast.deletionEpoch
  have hdeletion₂ := hrest.deletionEpoch
  exact hpast.same (by omega) (by omega)

/-- **The context of a claim that still fits at the end** has fitted all along: nothing has changed it
between the claim and any store on the way. -/
theorem Sound.sameContext_held (hs : Sound start) {before held past rest : List Event} {e : Event}
    (hheld : held = past ++ rest)
    (haccess : (runEvents platform (before ++ e :: held) start).access.accessEpoch
      = (runEvents platform before start).access.accessEpoch)
    (hdeletion : (runEvents platform (before ++ e :: held) start).access.deletionEpoch
      = (runEvents platform before start).access.deletionEpoch) :
    SameContext (runEvents platform before start) (runEvents platform (before ++ e :: past) start) := by
  have hlast : runEvents platform ((e :: past) ++ rest) (runEvents platform before start)
      = runEvents platform (before ++ e :: held) start := by
    rw [← runEvents_append, hheld]
    rfl
  rw [runEvents_append platform before]
  refine (hs.run before).sameContext_between (e :: past) rest ?_ ?_
  · rw [hlast]
    exact haccess
  · rw [hlast]
    exact hdeletion

/-- **Every publication is backed.** -/
theorem Sound.publication_backed (hs : Sound start) (hnone : ∀ j, j ∉ start.queue.jobs)
    (h : e.published? platform (runEvents platform history start) id = some result) :
    ∃ (c : Call) (token : UUID) (prepared : Remember) (p : Provenance), e = .call c
      ∧ Published platform (runEvents platform history start) c id token result prepared
      ∧ p.Backs platform start history c.principal id token prepared := by
  obtain ⟨c, token, prepared, old, new, rfl, hrequest, hid, hleased, hpayload, hpublication, hfresh,
    hrecords⟩ := Event.published?_eq_some (hs.run history).integrity.foreign h
  subst hid
  -- the claim that gave the lease, and what has happened since
  obtain ⟨⟨before, claimer, held, row⟩, hhistory, hclaimed, hnobody, hlease⟩ :=
    hs.issued (fun j hj => absurd hj (hnone j)) history hleased.stored hleased.running
  change history = before ++ .call claimer :: held at hhistory
  change (Event.call claimer).claimed? platform (runEvents platform before start) old.id = some row at hclaimed
  obtain ⟨claimer', seconds, was, hcall, -, hrowid, hturns⟩ := Event.claimed?_eq_some hclaimed
  cases hcall
  obtain ⟨hmem, hrunning, -, -, haccess, hdeletion, howner⟩ := hturns.claimed
  obtain ⟨k, v, -, -, -, hchanges⟩ := hturns.changes
  have hwasid : was.id = old.id := hturns.id.symm.trans hrowid
  -- the call that queued the job, before the claim
  obtain ⟨⟨first, queuer, waiting, born⟩, hadmission⟩ := hs.admission hnone before hturns.stored
  obtain ⟨hbornid, hqueuer, response, memory, retryOf, hanswered, hqueues, hborn, hbornscope⟩ :=
    hadmission.enqueued hs
  change born.id = was.id at hbornid
  change born.principalId = queuer.principal at hqueuer
  change born.payload = some memory.dump at hborn
  have hgrew : born.Becomes was := hadmission.becomes
  have hqueued := (hgrew.payload hchanges.active).trans hborn
  have hscope : was.scopeId = memory.scopeId :=
    (congrArg (fun a => a.2.1) hgrew.admission).trans hbornscope
  have hbefore : before = first ++ .call queuer :: waiting := hadmission.history
  have hend : runEvents platform history start
      = runEvents platform held (Event.exec platform (.call claimer) (runEvents platform before start)) := by
    rw [hhistory, runEvents_append]
    rfl
  -- the claimed row has become the published one
  have hstored := hleased.stored
  change old ∈ (runEvents platform history start).queue.jobs at hstored
  rw [hend] at hstored
  have hbecomes := ((hs.run before).event (.call claimer)).job_run held hmem hstored hrowid.symm
  have hrowpayload : row.payload = some memory.dump :=
    (hchanges.becomes.payload (by rw [hrunning]; rfl)).trans hqueued
  have holdpayload : old.payload = row.payload := hbecomes.payload (by rw [hleased.running]; rfl)
  obtain rfl : prepared = memory :=
    Remember.dump_inj.mp (Option.some.inj (hpayload.symm.trans (holdpayload.trans hrowpayload)))
  have holdowner : old.principalId = row.principalId := congrArg (fun l => l.1) hlease
  have hpublisher : row.principalId = c.principal := holdowner.symm.trans hleased.owner
  have hbornowner : born.principalId = c.principal :=
    (congrArg (fun a => a.2.2.1) (hgrew.trans hchanges.becomes).admission).symm.trans hpublisher
  have htoken : old.leaseToken = row.leaseToken := congrArg (fun l => l.2.1) hlease
  obtain ⟨hnow, hdeleted⟩ := hleased.context rfl
  have hcaptured : old.capturedAccessEpoch = row.capturedAccessEpoch := congrArg (fun l => l.2.2.2.1) hlease
  have hcaptured' : old.capturedDeletionEpoch = row.capturedDeletionEpoch := congrArg (fun l => l.2.2.2.2) hlease
  subst hbefore
  have hrowscope : old.scopeId = prepared.scopeId :=
    (congrArg (fun a => a.2.1) (hchanges.becomes.trans hbecomes).admission).trans hscope
  obtain ⟨-, k', hread, hwrite⟩ := hpublication.permitted (hs.run history).integrity.foreign
  obtain ⟨hstored', hsucceeded, hresult⟩ := hpublication.published
  refine ⟨c, token, prepared, ⟨first, queuer, waiting, claimer, held, row⟩, rfl,
    ⟨hrequest, ⟨old, hleased⟩, ⟨k', ?_⟩, hfresh, hrecords,
      ⟨new, hstored', hpublication.id, hsucceeded, hresult⟩⟩, ?_⟩
  · rintro permission (rfl | rfl)
    · exact hrowscope ▸ hread
    · exact hrowscope ▸ hwrite
  constructor
  · exact hhistory
  · exact hwasid ▸ hadmission.fresh
  · exact ⟨response, retryOf, hanswered, hqueues⟩
  · exact ⟨born, hadmission.stored, hbornid.trans hwasid, hbornowner, hbornscope, hborn⟩
  · exact hclaimed
  · exact hrowpayload
  · exact htoken.symm.trans hleased.token
  · exact ⟨hqueuer.symm.trans hbornowner, howner.symm.trans hpublisher⟩
  · exact hnobody
  · intro past rest hheld
    rw [hhistory] at hnow hdeleted
    exact hs.sameContext_held hheld (hnow.symm.trans (hcaptured.trans haccess))
      (hdeleted.symm.trans (hcaptured'.trans hdeletion))

end Fencing

/-! ## Publications -/

section Publications

variable {platform : Platform} {s : Store} {id : UUID}

/-- After its publication a job is not published again. -/
theorem Sound.not_published_after (hs : Sound s) {events : List Event} {j : JobRow}
    (hj : j ∈ s.queue.jobs) (hid : j.id = id) (hsettled : j.state.active = false) :
    publicationsOf platform id events s = [] := by
  refine List.eq_nil_iff_forall_not_mem.mpr fun result hresult => ?_
  obtain ⟨before, e, after, -, hanswer⟩ := exists_of_mem_collectAnswers hresult
  obtain ⟨c, token, prepared, old, new, rfl, -, hold, hleased, -, hturns, -⟩ :=
    Event.published?_eq_some (hs.run before).integrity.foreign hanswer
  have hbecomes := hs.job_run before hj hturns.stored (hold.trans hid.symm)
  obtain rfl := hbecomes.settled hsettled
  rw [hleased.running] at hsettled
  cases hsettled

/-- **A job is published at most once** in a run. -/
theorem Sound.published_once (hs : Sound s) (events : List Event) :
    (publicationsOf platform id events s).length ≤ 1 := by
  induction events generalizing s with
  | nil => exact Nat.zero_le _
  | cons e events ih =>
    show ((e.published? platform s id).toList
      ++ publicationsOf platform id events (e.exec platform s)).length ≤ 1
    cases hpublished : e.published? platform s id with
    | none => exact ih (hs.event e)
    | some result =>
      obtain ⟨c, token, prepared, old, new, rfl, -, hold, -, -, hturns, -⟩ :=
        Event.published?_eq_some hs.integrity.foreign hpublished
      obtain ⟨hmem, hsucceeded, -⟩ := hturns.published
      have hnone : publicationsOf platform id events (Event.exec platform (.call c) s) = [] :=
        (hs.event _).not_published_after hmem (hturns.id.trans hold) (by rw [hsucceeded]; rfl)
      rw [hnone]
      exact Nat.le_refl _

end Publications

end PgAgmemory

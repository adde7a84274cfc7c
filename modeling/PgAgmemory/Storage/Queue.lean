import PgAgmemory.Storage.Ledger

/-! # Statements on jobs

Every change of a job goes through `updateJob`: the rows that the `UPDATE` names and its policy lets
through are rewritten, and `guard_job` (`guardInsert`, `guardUpdate`) decides at a clock reading of its
own whether the change is a legal step of the job. -/

namespace PgAgmemory

open Keyed (HasKey Table)

/-- Whether a job still waits for publication. -/
def JobState.active : JobState → Bool
  | .pending | .running => true
  | _ => false

/-- The columns of a new job. -/
structure NewJob where
  id : UUID
  scopeId : UUID
  intentDigest : Digest
  retryOf : Option UUID
  payload : Json.Value
  referenceCount : Nat

/-- The row of a new job: pending, stamped with the trigger's clock and the tenant's epochs. -/
def NewJob.row (n : NewJob) (v : View) (m : Moment) : JobRow where
  id := n.id
  scopeId := n.scopeId
  principalId := v.principal
  intentDigest := n.intentDigest
  retryOf := n.retryOf
  state := .pending
  payload := some n.payload
  referenceCount := n.referenceCount
  attempt := 0
  leaseToken := none
  leaseUntil := none
  availableAt := m.clock 0
  capturedAccessEpoch := v.store.access.accessEpoch
  capturedDeletionEpoch := v.store.access.deletionEpoch
  resultId := none
  errorCode := none
  createdAt := m.clock 0
  updatedAt := m.clock 0

/-- An `UPDATE` of jobs by the service. -/
inductive JobChange where
  /-- `cancel`, where the principal, the state and the attempt are as expected. -/
  | cancel (running : Bool) (attempt : Nat)
  /-- `claim` of a job whose attempts are used up. -/
  | exhaust
  /-- `claim`: the next attempt, with a fresh token and a lease of some seconds. -/
  | claim (leaseSeconds : Nat)
  /-- `heartbeat`: a lease of thirty seconds from now, and longer than before. -/
  | heartbeat
  /-- `publish`, where the token is the given one and the lease has not expired. -/
  | publish (token result : UUID)
  /-- `fail`: back to pending, or failed for good. -/
  | fail (retry : Bool) (code : JobError)

/-- The extra conditions of an `UPDATE`'s `WHERE` clause. -/
def JobChange.applies (v : View) (m : Moment) (j : JobRow) : JobChange → Bool
  | .cancel running attempt => decide (j.principalId = v.principal)
    && decide (j.state = if running then .running else .pending) && decide (j.attempt = attempt)
  | .publish token _ => decide (j.leaseToken = some token)
    && j.leaseUntil.any fun t => m.clock 0 < t
  | _ => true

/-- The row that an `UPDATE` writes, before the trigger stamps it. -/
def JobChange.apply (v : View) (m : Moment) (j : JobRow) : JobChange → JobRow
  | .cancel _ _ => { j with
      state := .cancelled, payload := none, leaseToken := none, leaseUntil := none
      errorCode := none }
  | .exhaust => { j with
      state := .failed, payload := none, leaseToken := none, leaseUntil := none
      errorCode := some .attemptLimit }
  | .claim leaseSeconds => { j with
      state := .running, attempt := j.attempt + 1, leaseToken := some m.uuid
      leaseUntil := some (m.clock 0 + leaseSeconds * second)
      capturedAccessEpoch := v.store.access.accessEpoch
      capturedDeletionEpoch := v.store.access.deletionEpoch
      errorCode := none }
  | .heartbeat => { j with
      leaseUntil := some (j.leaseUntil.elim (m.clock 0 + 30 * second)
        fun t => max (t + 1) (m.clock 0 + 30 * second)) }
  | .publish _ result => { j with
      state := .succeeded, resultId := some result, payload := none, leaseToken := none
      leaseUntil := none, errorCode := none }
  | .fail retry code => { j with
      state := if retry then .pending else .failed
      payload := if retry then j.payload else none
      leaseToken := none, leaseUntil := none, errorCode := some code
      availableAt := m.clock 0 + (2 ^ j.attempt * second + m.jitter.val * 1000) }

/-- The lease bound of `guard_job` for a running job. -/
def leaseBounded (now : Time) (j : JobRow) : Bool :=
  decide (j.state ≠ .running)
    || j.leaseUntil.all fun t => decide (now < t) && decide (t ≤ now + 300 * second)

/-- Whether a lease has expired at an instant; an absent lease has not. -/
def JobRow.expired (j : JobRow) (now : Time) : Bool := j.leaseUntil.any fun t => t ≤ now

/-- `guard_job` on a claim: the next attempt under another token, of a job that is due. -/
def claimable (now : Time) (old new : JobRow) : Bool :=
  decide (new.attempt = old.attempt + 1) && decide (new.leaseToken ≠ old.leaseToken)
    && ((decide (old.state = .pending) && decide (old.availableAt ≤ now))
      || (decide (old.state = .running) && old.expired now))

/-- `guard_job` on a heartbeat: the same attempt under the same token, with a longer lease that had
not expired. -/
def extendable (now : Time) (old new : JobRow) : Bool :=
  decide (old.state = .running) && decide (new.attempt = old.attempt)
    && (old.leaseToken.isSome && decide (new.leaseToken = old.leaseToken))
    && (old.leaseUntil.any fun t => now < t)
    && old.leaseUntil.any fun t => new.leaseUntil.any fun t' => t < t'

/-- The trigger `guard_job` before an update. -/
def guardUpdate (now : Time) (old new : JobRow) : Bool :=
  old.state.active
    && (new.payload.isNone || decide (new.payload = old.payload))
    && (match new.state with
      | .cancelled => decide (new.attempt = old.attempt)
      | .running => claimable now old new || extendable now old new
      | _ => decide (old.state = .running) && decide (new.attempt = old.attempt))
    && !((decide (new.state = .succeeded) || decide (new.state = .pending)) && old.expired now)
    && leaseBounded now new

/-- Whether a JSON value is an object. -/
def isObject : Json.Value → Bool
  | .object _ => true
  | _ => false

/-- The check constraints of a job. -/
def JobRow.checks (j : JobRow) : Bool :=
  (1 ≤ j.referenceCount && j.referenceCount ≤ 32) && j.attempt ≤ 5
    && ((decide (j.state = .running)) == (j.leaseToken.isSome && j.leaseUntil.isSome))
    && (decide (j.state = .running) || (j.leaseToken.isNone && j.leaseUntil.isNone))
    && ((decide (j.state = .succeeded)) == j.resultId.isSome)
    && (if j.state.active then j.payload.any isObject else j.payload.isNone)
    && (decide (j.state ≠ .failed) || j.errorCode.isSome)
    && (j.errorCode.isNone
      || !(decide (j.state = .running) || decide (j.state = .succeeded)
        || decide (j.state = .cancelled)))

/-- The jobs of a scope that wait for publication, as a statement sees them. -/
def View.activeJobs (v : View) (scope : UUID) : List JobRow :=
  v.jobs.filter fun j => j.scopeId = scope && j.state.active

/-- Statements on jobs. -/
inductive QueueStatement where
  | insertJob (new : NewJob)
  | insertInput (row : JobInputRow)
  | insertIdentity (row : JobIdentityRow)
  | updateJob (id : UUID) (change : JobChange)

/-- The texts that a statement sends. -/
def QueueStatement.texts : QueueStatement → List String
  | .insertJob n => n.payload.strings
  | _ => []

/-- The job of a primary key, replaced by a row of the same key. -/
def replaceJob (jobs : Table JobRow) (id : UUID) (row : JobRow) (h : row.id = id) : Table JobRow :=
  jobs.update (fun j => j.id = id) (fun j => if j.id = id then row else j) fun j => by
    change JobRow.id _ = JobRow.id _
    split
    case isTrue hid => rw [h, hid]
    case isFalse => rfl

/-- An `UPDATE` keeps the key of a job. -/
theorem JobChange.apply_id (v : View) (m : Moment) (j : JobRow) (change : JobChange) :
    (change.apply v m j).id = j.id := by
  cases change <;> rfl

/-- `UPDATE memory_ops.job … WHERE id = … RETURNING`: the new row, or none when no row matched. -/
def updateJob (v : View) (m : Moment) (id : UUID) (change : JobChange) :
    Except Fault (Option JobRow × Queue) :=
  match h : v.store.queue.jobs.find? id with
  | none => .ok (none, v.store.queue)
  | some old =>
    if v.jobUpdatable old && change.applies v m old then do
      -- the trigger reads the clock after the expressions of the `SET` list
      let new := { change.apply v m old with updatedAt := m.clock 1 }
      require (guardUpdate (m.clock 1) old new)
      require new.checks
      have hid : new.id = id := (change.apply_id v m old).trans (Table.find?_eq_some_iff.mp h).2
      pure (some new, { v.store.queue with jobs := replaceJob v.store.queue.jobs id new hid })
    else .ok (none, v.store.queue)

/-- Execute a statement on jobs; an update returns the row it wrote. -/
def QueueStatement.exec (v : View) (m : Moment) :
    QueueStatement → Except Fault (Option JobRow × Queue)
  | .insertJob n => do
    require ((v.activeJobs n.scopeId).length < 100)
    require (v.writable n.id)
    let row := n.row v m
    require row.checks
    let jobs ← insertRow v.store.queue.jobs row
    pure (none, { v.store.queue with jobs := jobs })
  | .insertInput r => do
    require (v.writable r.jobId && v.visible r.sourceId)
    let inputs ← insertRow v.store.queue.inputs r
    pure (none, { v.store.queue with inputs := inputs })
  | .insertIdentity r => do
    require (v.permitted r.scopeId .write && decide (r.principalId = v.principal))
    let identities ← insertRow v.store.queue.identities r
    pure (none, { v.store.queue with identities := identities })
  | .updateJob id change => PgAgmemory.updateJob v m id change

/-- The checks that a statement defers to the commit. -/
def QueueStatement.deferred : QueueStatement → List Deferred
  | .insertJob n => [.jobInputs n.id]
  | .insertInput r => [.jobInputs r.jobId]
  | .insertIdentity _ => []
  | .updateJob id _ => [.jobInputs id]

/-! ## Deferred checks -/

/-- The readable inputs of a job. -/
def View.inputsOf (v : View) (id : UUID) : List JobInputRow :=
  v.jobInputs.filter fun r => r.jobId = id

/-- The `evidence` of a stored request. -/
def evidenceItems (payload : Json.Value) : List Json.Value :=
  ((payload.get? "evidence").map Json.Value.items).getD []

/-- Whether one of some inputs is the episode that an evidence item names. -/
def namedBy (inputs : List JobInputRow) (item : Json.Value) : Bool :=
  inputs.any fun i => decide (item.get? "memory_id" = some (jsonUUID i.sourceId))

/-- `check_job_inputs`: all inputs are there, and while the request is kept they are the episodes of
its evidence. -/
def View.checkJobInputs (v : View) (id : UUID) : Bool :=
  (v.job? id).all fun j =>
    decide ((v.inputsOf id).length = j.referenceCount)
      && j.payload.all fun body =>
        decide ((evidenceItems body).length = j.referenceCount)
          && (evidenceItems body).all (namedBy (v.inputsOf id))

end PgAgmemory

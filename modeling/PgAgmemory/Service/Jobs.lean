import PgAgmemory.Service.Memory

/-! # Jobs and captures

The queue operations of `Jobs`: `enqueue` and its retry, `cancel`, and the worker's `claim`,
`heartbeat`, `publish` and `fail`, which all go through `lease` except the claim itself. A capture
records an episode and queues the assertions about it, under keys of its own. -/

namespace PgAgmemory

open Json (Value)

/-- Ask for something that a statement can see, together with its moment. -/
def readAt {α : Type} (query : Moment → View → α) : Tx α :=
  .select (fun m session => query m (session.view m)) .pure

/-! ## Texts -/

/-- The version of the publication recipe. -/
def recipe : String := "structured-remember-v1"

/-- The order of evidence in a canonical request. -/
def Evidence.before (a b : Evidence) : Prop := a.memoryId ≤ b.memoryId

instance Evidence.decidableBefore (a b : Evidence) : Decidable (a.before b) :=
  inferInstanceAs (Decidable (_ ≤ _))

/-- The request with its evidence sorted by episode. -/
def Remember.canonical (r : Remember) : Remember where
  scopeId := r.scopeId
  subject := r.subject
  predicate := r.predicate
  value := r.value
  evidence := r.evidence.insertionSort Evidence.before
  validFrom := r.validFrom
  validTo := r.validTo
  bounds := by
    unfold evidenceBounds
    rw [List.length_insertionSort]
    exact r.bounds
  valid := ⟨r.valid.1,
    ((r.evidence.perm_insertionSort Evidence.before).map Evidence.memoryId).nodup_iff.mpr r.valid.2⟩

/-- The text whose digest is the intent of a job. -/
def Remember.intentText (r : Remember) : String := recipe ++ ":" ++ sortedText r.canonical.dump

/-- `str(retry_of)`. -/
def retryText : Option UUID → String
  | none => "None"
  | some id => UUID.str id

/-- The text whose digest is the identity of a job. -/
def identityText (intent : Digest) (retryOf : Option UUID) : String :=
  "job-identity-v1:" ++ intent.str ++ ":" ++ retryText retryOf

/-- The payload of an enqueue or retry request. -/
def EnqueueJob.payload (data : EnqueueJob) (retryOf : Option UUID) : String :=
  sortedText (.obj [("retry_of", jsonOption jsonUUID retryOf), ("request", data.dump)])

/-- A job with the episodes it cites. -/
structure LoadedJob where
  row : JobRow
  inputs : List UUID

/-- What a claim returns. -/
inductive ClaimResult where
  /-- The attempts of the job were used up. -/
  | failed (jobId : UUID)
  | claimed (row : JobRow)

/-- The order in which jobs are claimed. -/
def JobRow.before (a b : JobRow) : Prop :=
  a.availableAt < b.availableAt ∨ (a.availableAt = b.availableAt ∧
    (a.createdAt < b.createdAt ∨ (a.createdAt = b.createdAt ∧ a.id ≤ b.id)))

instance JobRow.decidableBefore (a b : JobRow) : Decidable (a.before b) :=
  inferInstanceAs (Decidable (_ ∨ _))

/-- Whether a job waits for a worker: pending and due, or running under an expired lease. -/
def JobRow.due (j : JobRow) (now : Time) : Bool :=
  (decide (j.state = .pending) && decide (j.availableAt ≤ now))
    || (decide (j.state = .running) && j.expired now)

namespace Jobs

open MemoryService

variable (platform : Platform)

/-- `load`: a job with all of its inputs; `lock` also needs the update policy. -/
def load (jobId : UUID) (permission : Permission := .read) (lock : Bool := false) :
    Tx LoadedJob := do
  let obj ← object jobId permission
  demand (decide (obj.kind = .job)) .notFound
  let row ← read fun v => (v.job? jobId).filter fun j => !lock || v.jobUpdatable j
  let row ← found row .jobInvalidated
  let inputs ← read fun v => ((v.inputsOf jobId).map JobInputRow.sourceId).insertionSort (· ≤ ·)
  demand (decide (inputs.length = row.referenceCount)) .jobInvalidated
  pure ⟨row, inputs⟩

/-- `get`: a job, whose result must still be readable. -/
def get (jobId : UUID) : Tx LoadedJob := do
  let job ← load jobId
  match job.row.resultId with
  | some resultId => do
    let _ ← object resultId
    pure job
  | none => pure job

/-! ## Admission -/

/-- The operation and audit action of an enqueue or a retry. -/
def enqueueOperation (retryOf : Option UUID) : Operation :=
  if retryOf.isNone then .enqueueJob else .retryJob

/-- The audit action of an enqueue or a retry. -/
def enqueueAction (retryOf : Option UUID) : String :=
  if retryOf.isNone then "enqueue_job" else "retry_job"

/-- A retry needs a failed job of the caller with the same intent. -/
def checkRetry (retryOf : Option UUID) (intent : Digest) : Tx Unit :=
  match retryOf with
  | none => pure ()
  | some parentId => do
    let principal ← read View.principal
    let parent ← load parentId .write
    demand (decide (parent.row.principalId = principal)) .notFound
    demand (decide (parent.row.state = .failed)) .jobRetryConflict
    demand (decide (parent.row.intentDigest = intent)) .jobIntentConflict

/-- Insert a job, its inputs and its identity. -/
def insertJob (data : EnqueueJob) (retryOf : Option UUID) (intent identity : Digest) :
    Tx UUID := do
  let active ← read fun v => (v.activeJobs data.memory.scopeId).length
  demand (decide (active < 100)) .jobLimitExceeded
  validateEvidence data.memory.scopeId data.memory.evidence
  let jobId ← newObject data.memory.scopeId .job
  send (.queue (.insertJob ⟨jobId, data.memory.scopeId, intent, retryOf, data.memory.dump,
    data.memory.evidence.length⟩))
  forEach data.memory.evidence fun evidence =>
    send (.queue (.insertInput ⟨jobId, data.memory.scopeId, evidence.memoryId⟩))
  let principal ← read View.principal
  send (.queue (.insertIdentity ⟨data.memory.scopeId, principal, identity, jobId⟩))
  audit (enqueueAction retryOf) jobId
  pure jobId

/-- The part of `enqueue` that runs once: the job of this intent, found or inserted. -/
def admitJob (data : EnqueueJob) (retryOf : Option UUID) : Tx UUID := do
  let intent ← digest platform data.memory.intentText
  checkRetry retryOf intent
  let identity ← digest platform (identityText intent retryOf)
  let duplicate ← read fun v => v.jobIdentity? data.memory.scopeId v.principal identity
  match duplicate with
  | some row => do
    let _ ← load row.jobId .write
    pure row.jobId
  | none => insertJob data retryOf intent identity

/-- `enqueue`, which is also the retry of a failed job. -/
def enqueue (data : EnqueueJob) (key : String) (retryOf : Option UUID := none) : Tx Receipt := do
  scope data.memory.scopeId .write
  once platform (enqueueOperation retryOf) key (data.payload retryOf) pure
    fun keyDigest requestDigest => do
      let jobId ← admitJob platform data retryOf
      saveResult (enqueueOperation retryOf) keyDigest requestDigest (.job jobId)
      pure (.job jobId)

/-! ## Changes -/

/-- Update a job and keep the row that was written. -/
def update (jobId : UUID) (change : JobChange) : Tx (Option JobRow) := do
  let returned ← sendReturning (.queue (.updateJob jobId change))
  match returned with
  | .job row => pure row
  | _ => pure none

/-- `cancel`. -/
def cancel (jobId : UUID) (data : CancelJob) (key : String) : Tx Receipt := do
  let principal ← read View.principal
  let job ← load jobId .write
  demand (decide (job.row.principalId = principal)) .notFound
  once platform .cancelJob key (objectPayload "job_id" jobId data.dump) pure
    fun keyDigest requestDigest => do
      let cancelled ← update jobId (.cancel data.expectedRunning data.expectedAttempt)
      demand cancelled.isSome .jobCancelConflict
      audit "job_cancelled" jobId
      saveResult .cancelJob keyDigest requestDigest (.job jobId)
      pure (.job jobId)

/-- The jobs of the caller that wait for a worker, in order. Every row is compared with a clock
reading of its own. -/
def waiting (m : Moment) (v : View) : List JobRow :=
  ((v.jobs.zipIdx.filter fun ji => decide (ji.1.principalId = v.principal)
      && v.permitted ji.1.scopeId .write && ji.1.due (m.clock ji.2) && v.jobUpdatable ji.1).map
    Prod.fst).insertionSort JobRow.before

/-- `claim`: the first waiting job, with a lease, or failed for good after five attempts. -/
def claim (leaseSeconds : Nat := 30) : Tx (Option ClaimResult) := do
  if 1 ≤ leaseSeconds ∧ leaseSeconds ≤ 300 then do
    let row ← readAt fun m v => (waiting m v).head?
    match row with
    | none => pure none
    | some row => do
      let job ← load row.id .write
      if job.row.attempt = 5 then do
        let _ ← update row.id .exhaust
        audit "job_failed" row.id
        pure (some (.failed row.id))
      else do
        let claimed ← update row.id (.claim leaseSeconds)
        let claimed ← found claimed .jobInvalidated
        audit "job_claimed" row.id
        pure (some (.claimed claimed))
  -- `ValueError`
  else .raise .database

/-- `lease`: the job, still running under the token, and with `epochs` in an unchanged context. -/
def lease (jobId token : UUID) (epochs : Bool := true) : Tx JobRow := do
  let principal ← read View.principal
  let job ← load jobId .write true
  demand (decide (job.row.principalId = principal)) .notFound
  let (now, access) ← readAt fun m v => (m.clock 0, v.store.access)
  demand (decide (job.row.state = .running) && decide (job.row.leaseToken = some token)
    && job.row.leaseUntil.any fun t => now < t) .jobLeaseConflict
  demand (!epochs || (decide (job.row.capturedAccessEpoch = access.accessEpoch)
    && decide (job.row.capturedDeletionEpoch = access.deletionEpoch))) .staleContext
  pure job.row

/-- `heartbeat`. -/
def heartbeat (jobId token : UUID) : Tx Unit := do
  let _ ← lease jobId token
  let _ ← update jobId .heartbeat
  pure ()

/-- The identifier of an assertion's receipt. -/
def assertionId : Receipt → Option UUID
  | .assertion memoryId _ => some memoryId
  | _ => none

/-- `publish`: the prepared request is the stored one, and its assertion becomes the result. -/
def publish (jobId token : UUID) (prepared : Remember) : Tx Receipt := do
  let row ← lease jobId token
  demand (decide (row.payload = some prepared.dump)) .jobIntentConflict
  let result ← publishAssertion platform prepared
  let memoryId ← found (assertionId result) .notFound
  let saved ← update jobId (.publish token memoryId)
  demand saved.isSome .jobLeaseConflict
  audit "job_succeeded" jobId
  pure result

/-- `fail`: back to pending with a delay while attempts remain and a retry is wanted. -/
def fail (jobId token : UUID) (code : JobError) (retry : Bool) : Tx JobState := do
  let row ← lease jobId token false
  let again := retry && decide (row.attempt < 5)
  let _ ← update jobId (.fail again code)
  audit (if again then "job_pending" else "job_failed") jobId
  pure (if again then .pending else .failed)

end Jobs

/-! ## Captures -/

namespace Captures

open MemoryService

variable (platform : Platform)

/-- The episode of a receipt of `observe`. -/
def episodeId : Receipt → Option UUID
  | .observed memoryId => some memoryId
  | _ => none

/-- The job of a receipt of `enqueue`. -/
def jobId : Receipt → Option UUID
  | .job id => some id
  | _ => none

/-- Queue one assertion about a captured episode. -/
def enqueueMemory (scopeId episode : UUID) (memory : CapturedMemory) (key : String) :
    Tx UUID := do
  let job ← Jobs.enqueue platform ⟨memory.remember scopeId episode⟩ key
  -- a stored result without the field is a `KeyError`
  match jobId job with
  | some id => pure id
  | none => .raise .database

/-- Record the episode of a capture. -/
def observeEpisode (data : Observe) (key : String) : Tx UUID := do
  let episode ← observe platform data key
  match episodeId episode with
  | some id => pure id
  | none => .raise .database

/-- `create`. -/
def create (data : Capture) (key : String) : Tx Receipt := do
  scope data.episode.scopeId .write
  once platform .capture key (compactText data.dump) pure fun keyDigest requestDigest => do
    -- separate internal retries from public keys
    let episode ← observeEpisode platform data.episode ("capture-observe-v1:" ++ keyDigest.str)
    let job ← enqueueMemory platform data.episode.scopeId episode data.memory
      ("capture-job-v1:" ++ keyDigest.str)
    saveResult .capture keyDigest requestDigest (.captured episode job)
    audit "capture" episode
    pure (.captured episode job)

/-- The internal key of one job of a batch. -/
def batchKey (keyDigest : Digest) (index : Nat) : String :=
  "capture-batch-job-v1:" ++ keyDigest.str ++ ":" ++ toString index

/-- `create_batch`. -/
def createBatch (data : CaptureBatch) (key : String) : Tx Receipt := do
  scope data.episode.scopeId .write
  once platform .captureBatch key (compactText data.dump) pure fun keyDigest requestDigest => do
    let episode ← observeEpisode platform data.episode
      ("capture-batch-observe-v1:" ++ keyDigest.str)
    let jobs ← forCollect (fun memory : CapturedMemory × Nat =>
      enqueueMemory platform data.episode.scopeId episode memory.1 (batchKey keyDigest memory.2))
      data.memories.zipIdx
    saveResult .captureBatch keyDigest requestDigest (.capturedBatch episode jobs)
    audit "capture_batch" episode
    pure (.capturedBatch episode jobs)

end Captures

end PgAgmemory

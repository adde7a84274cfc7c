import PgAgmemory.Service.Access
import PgAgmemory.Service.Checkpoints
import PgAgmemory.Service.Embeddings
import PgAgmemory.Service.Forget
import PgAgmemory.Service.Graph
import PgAgmemory.Service.Jobs
import PgAgmemory.Service.Queries
import PgAgmemory.Service.Recall

/-! # Runs of the system

The clients of one tenant send requests, workers claim and publish jobs, and the administrator changes
access. Each of these is one transaction under the tenant's lock, so a run is a list of events on one
store; between two events any amount of time may pass. -/

namespace PgAgmemory

open Interactive (Program)

/-- **A request** of a client or a worker. -/
inductive Request where
  | observe (data : Observe) (key : String)
  | remember (data : Remember) (key : String)
  | reviseAssertion (objectId : UUID) (data : ReviseAssertion) (key : String)
  | capture (data : Capture) (key : String)
  | captureBatch (data : CaptureBatch) (key : String)
  | createEntity (data : CreateEntity) (key : String)
  | createRelation (data : CreateRelation) (key : String)
  | reviseRelation (assertionId : UUID) (data : ReviseRelation) (key : String)
  | enqueue (data : EnqueueJob) (key : String) (retryOf : Option UUID)
  | cancel (jobId : UUID) (data : CancelJob) (key : String)
  | createCheckpoint (data : CreateCheckpoint) (key : String)
  | restoreCheckpoint (data : RestoreCheckpoint) (key : String)
  | plan (data : PlanToolEffect) (key : String)
  | transition (effectId : UUID) (data : TransitionToolEffect) (key : String)
  | putEmbedding (data : PutEmbedding) (key : String)
  | forget (data : Forget) (key : String)
  | «recall» (data : Recall)
  | explain (data : Explain)
  | entity (entityId : UUID)
  | expand (data : ExpandGraph)
  | checkpoint (checkpointId : UUID)
  | checkpointHead (data : CheckpointBranch)
  | job (jobId : UUID)
  | effect (effectId : UUID)
  | query (query : Query)
  | claim (leaseSeconds : Nat)
  | heartbeat (jobId token : UUID)
  | publish (jobId token : UUID) (prepared : Remember)
  | fail (jobId token : UUID) (code : JobError) (retry : Bool)

/-- What a request returns. -/
inductive Response where
  | receipt (result : Receipt)
  | envelope (result : Envelope)
  | deletion (result : ForgetResult)
  | recalled (result : RecallResult)
  | explained (result : Explanation)
  | entity (row : EntityRow)
  | expanded (result : Expansion)
  | job (result : LoadedJob)
  | effect (result : ToolEffectDetail)
  | answered (answer : Answer)
  | claimed (result : Option ClaimResult)
  | extended
  | failed (state : JobState)

/-- Wrap what a program returns. -/
def respond {α : Type} (wrap : α → Response) (p : Tx α) : Tx Response := do
  let a ← p
  pure (wrap a)

/-- The program of a request. -/
def Request.body (platform : Platform) : Request → Tx Response
  | .observe data key => respond .receipt (MemoryService.observe platform data key)
  | .remember data key => respond .receipt (MemoryService.remember platform data key)
  | .reviseAssertion objectId data key =>
    respond .receipt (MemoryService.reviseAssertion platform objectId data key)
  | .capture data key => respond .receipt (Captures.create platform data key)
  | .captureBatch data key => respond .receipt (Captures.createBatch platform data key)
  | .createEntity data key => respond .receipt (SqlGraph.createEntity platform data key)
  | .createRelation data key => respond .receipt (SqlGraph.createRelation platform data key)
  | .reviseRelation assertionId data key =>
    respond .receipt (SqlGraph.reviseRelation platform assertionId data key)
  | .enqueue data key retryOf => respond .receipt (Jobs.enqueue platform data key retryOf)
  | .cancel jobId data key => respond .receipt (Jobs.cancel platform jobId data key)
  | .createCheckpoint data key => respond .receipt (Checkpoints.create platform data key)
  | .restoreCheckpoint data key => respond .envelope (Checkpoints.restore platform data key)
  | .plan data key => respond .receipt (ToolEffects.plan platform data key)
  | .transition effectId data key =>
    respond .receipt (ToolEffects.transition platform effectId data key)
  | .putEmbedding data key => respond .receipt (Embeddings.put platform data key)
  | .forget data key => respond .deletion (MemoryService.forget platform data key)
  | .«recall» data => respond .recalled (MemoryService.«recall» platform data)
  | .explain data => respond .explained (MemoryService.explain data)
  | .entity entityId => respond .entity (SqlGraph.entity entityId)
  | .expand data => respond .expanded (SqlGraph.expand data)
  | .checkpoint checkpointId => respond .envelope (Checkpoints.envelope platform checkpointId)
  | .checkpointHead data => respond .envelope (Checkpoints.head platform data)
  | .job jobId => respond .job (Jobs.get jobId)
  | .effect effectId => respond .effect (ToolEffects.get effectId)
  | .query q => respond .answered (q.body platform)
  | .claim leaseSeconds => respond .claimed (Jobs.claim leaseSeconds)
  | .heartbeat jobId token => respond (fun _ => .extended) (Jobs.heartbeat jobId token)
  | .publish jobId token prepared =>
    respond .receipt (Jobs.publish platform jobId token prepared)
  | .fail jobId token code retry => respond .failed (Jobs.fail jobId token code retry)

/-- The program of a request, for an authenticated principal. -/
def Request.program (platform : Platform) (request : Request) : Tx Response := do
  MemoryService.bindIdentity
  request.body platform

/-- **A call**: a request of a principal, with the moments at which its statements run. -/
structure Call where
  principal : UUID
  timeline : Timeline
  request : Request

/-- The outcome of a call, and the store it leaves. -/
def Call.exec (platform : Platform) (c : Call) (s : Store) : Except Fault Response × Store :=
  transact platform c.timeline c.principal (c.request.program platform) s

/-- **An event** of a run: a call, or a change of access at two clock readings. -/
inductive Event where
  | call (c : Call)
  | access (request : ScopeAccessRequest) (now recordedAt : Time)

/-- The store after an event. -/
def Event.exec (platform : Platform) : Event → Store → Store
  | .call c, s => (c.exec platform s).2
  | .access request now recordedAt, s =>
    match request.run now recordedAt s with
    | .ok (_, s') => s'
    | .error _ => s

/-- The store after a run. -/
def runEvents (platform : Platform) (events : List Event) (s : Store) : Store :=
  events.foldl (fun s e => e.exec platform s) s

/-- **The reachable stores**: what any run leads to from a store without content. -/
inductive Reachable (platform : Platform) : Store → Prop where
  | provisioned (access : Access) : Reachable platform (Store.provisioned access)
  | event {s : Store} (e : Event) (h : Reachable platform s) : Reachable platform (e.exec platform s)

/-- No event changes nothing. -/
@[simp] theorem runEvents_nil (platform : Platform) (s : Store) : runEvents platform [] s = s := rfl

/-- A run starts with its first event. -/
@[simp] theorem runEvents_cons (platform : Platform) (e : Event) (events : List Event) (s : Store) :
    runEvents platform (e :: events) s = runEvents platform events (e.exec platform s) := rfl

/-- Runs one after the other are one run. -/
theorem runEvents_append (platform : Platform) (events events' : List Event) (s : Store) :
    runEvents platform (events ++ events') s
      = runEvents platform events' (runEvents platform events s) := List.foldl_append

/-- A run from a reachable store leads to a reachable store. -/
theorem Reachable.run {platform : Platform} {s : Store} (h : Reachable platform s)
    (events : List Event) : Reachable platform (runEvents platform events s) := by
  induction events generalizing s with
  | nil => exact h
  | cons e events ih => exact ih (.event e h)

/-! ## A small tenant -/

/-- A platform that can be evaluated: digests are numerals of the text read as a number from the
secret on, every text is its own segmentation, and all matches rank alike. -/
def Platform.plain : Platform where
  hmac secret text := .ofNat (text.toList.foldl (fun n c => n * 257 + c.toNat) secret.val)
  sha256 text := .ofNat (text.toList.foldl (fun n c => n * 257 + c.toNat) 0)
  segment text := some text
  tsMatches vector query := vector.contains query
  tsRank _ _ := 1
  embed _ := []
  unitNorm _ := true
  distance _ _ := 0

/-- A tenant of one principal, with all permissions but administration in its one scope until an
expiry. -/
def Access.sole (principal scope : UUID) (expiry : Option Time) : Access where
  accessEpoch := 0
  deletionEpoch := 0
  dedupSecret := 1
  principals := ⟨[⟨principal, "subject"⟩], List.nodup_singleton _⟩
  scopes := ⟨[⟨scope⟩], List.nodup_singleton _⟩
  members := ⟨[⟨scope, principal, [.read, .write, .delete], expiry⟩], List.nodup_singleton _⟩
  events := ∅

/-- A tenant of two principals with all permissions but administration in its one scope. -/
def Access.pair : Access :=
  { Access.sole 1 2 none with
    principals := ⟨[⟨1, "subject"⟩, ⟨7, "other"⟩], by decide⟩
    members := ⟨[⟨2, 1, [.read, .write, .delete], none⟩, ⟨2, 7, [.read, .write, .delete], none⟩],
      by decide⟩ }

/-- A timeline whose clock advances by a microsecond with every statement and every reading, and which
draws the identifiers from a number on. -/
def Timeline.ticking (start : Time) (drawn : Nat) : Timeline where
  moment n := ⟨start + n, fun k => start + n + k, Fin.ofNat _ (drawn + n), 0⟩
  mono _ _ hle := Int.add_le_add_left (Int.ofNat_le.mpr hle) start

/-- A short text. -/
def ShortText.brief : ShortText where
  str := "x"

/-- A first revision. -/
def Revision.first : Revision := ⟨1, by decide⟩

/-- A quote of the observation of the small tenant. -/
def Evidence.brief : Evidence := ⟨107, { str := "x" }⟩

/-- An instant long after the small tenant's history. -/
def AwareDatetime.late : AwareDatetime where
  year := 2025
  month := 1
  day := 1
  hour := 0
  minute := 0
  second := 0
  microsecond := 0
  offset := 0

/-- The membership of the small tenant is granted again, for reading. -/
def Event.renewal : Event := .access ⟨.set [.read] none (by decide), 2, 1, 0⟩ 700 701

/-- A short observation in a scope. -/
def Observe.brief (scope : UUID) : Observe where
  scopeId := scope
  sourceNamespace := .brief
  sourceEventId := .brief
  occurredAt :=
    { year := 2024, month := 1, day := 1, hour := 0, minute := 0, second := 0, microsecond := 0
      offset := 0 }
  content := { str := "x" }
  consentReference := .brief

/-- A small tenant with one observation, the object 107. -/
def Store.observed (expiry : Option Time) : Store :=
  Event.exec .plain (.call ⟨1, .ticking 0 100, .observe (.brief 2) "key"⟩)
    (.provisioned (.sole 1 2 expiry))

/-- The small tenant is reachable. -/
theorem reachable_observed (expiry : Option Time) : Reachable .plain (.observed expiry) :=
  .event _ (.provisioned _)

/-- A short assertion about the observation of the small tenant. -/
def Remember.brief : Remember where
  scopeId := 2
  subject := .brief
  predicate := { str := "x" }
  value := { str := "x" }
  evidence := [.brief]

/-- A short entity with the observation of the small tenant as evidence. -/
def CreateEntity.brief : CreateEntity where
  scopeId := 2
  entityType := .other
  canonicalLabel := .brief
  evidence := Remember.brief.evidence
  bounds := Remember.brief.bounds
  valid := Remember.brief.valid

/-- A short correction of a first revision. -/
def ReviseAssertion.brief : ReviseAssertion where
  expectedRevision := .first
  value := { str := "y" }
  evidence := [.brief]
  reason := .brief

/-- The small tenant after the assertion 309 about its observation. -/
def Store.remembered : Store :=
  Event.exec .plain (.call ⟨1, .ticking 200 300, .remember .brief "key"⟩) (.observed none)

/-- A short observation of another event. -/
def Observe.later : Observe := { Observe.brief 2 with sourceEventId := { str := "y" } }

/-- The small tenant with the assertion 309, and with the observation 507 that it does not rest on. -/
def Store.accompanied : Store :=
  Event.exec .plain (.call ⟨1, .ticking 400 500, .observe .later "later"⟩) .remembered

/-- A short checkpoint on the branch 4 of the run 3. -/
def CreateCheckpoint.brief : CreateCheckpoint where
  scopeId := 2
  runId := 3
  branchId := 4
  expectedHead := none
  harnessId := .brief
  harnessVersion := .brief
  eventWatermark := 0
  state := { goal := { str := "x" } }

/-- The small tenant after a first checkpoint. -/
def Store.checkpointed : Store :=
  Event.exec .plain (.call ⟨1, .ticking 200 300, .createCheckpoint .brief "key"⟩) (.observed none)

/-- A short effect of the run 3. -/
def PlanToolEffect.brief : PlanToolEffect where
  scopeId := 2
  runId := 3
  operationId := 5
  toolName := .brief
  actionHash := .ofNat 0

/-- A dispatch of a first revision. -/
def TransitionToolEffect.dispatch : TransitionToolEffect where
  expectedRevision := 1
  status := .dispatched
  reason := .brief

/-- A platform whose digests tell no texts apart, for runs that compare none: the texts of checkpoints
take long to evaluate. -/
def Platform.blind : Platform := { Platform.plain with hmac := fun _ _ => .ofNat 0 }

/-- The small tenant with a checkpoint of the run 3 and the effect 410, which is dispatched. -/
def Store.dispatched (expiry : Option Time) : Store :=
  runEvents .blind [
    .call ⟨1, .ticking 200 300, .createCheckpoint .brief "key"⟩,
    .call ⟨1, .ticking 400 400, .plan .brief "key"⟩,
    .call ⟨1, .ticking 600 500, .transition 410 .dispatch "key"⟩] (.provisioned (.sole 1 2 expiry))

/-- The small tenant with a dispatched effect is reachable. -/
theorem reachable_dispatched (expiry : Option Time) : Reachable .blind (.dispatched expiry) :=
  (Reachable.provisioned _).run _

/-- The small tenant with an assertion is reachable. -/
theorem reachable_remembered : Reachable .plain .remembered := .event _ (reachable_observed none)

/-- The small tenant with another observation is reachable. -/
theorem reachable_accompanied : Reachable .plain .accompanied := .event _ reachable_remembered

end PgAgmemory

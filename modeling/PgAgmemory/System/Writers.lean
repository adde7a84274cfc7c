import PgAgmemory.System.Growth

/-! # Rules for the operations

Every operation but `forget` writes by the same discipline (`Writes`): rows belong to objects and
revisions that the transaction itself creates, and a receipt is saved only for objects that are not
deleted. `Does` is a guarded postcondition under that discipline, about sessions that have only grown;
its rules follow the service's own building blocks. -/

namespace PgAgmemory

open Keyed (HasKey Table key)
open Interactive (Program)
open Interactive.Program (Ensures ReadOnly)

/-! ## The discipline -/

/-- No object of the store has this identifier. -/
def Fresh (s : Store) (id : UUID) : Prop := ∀ o ∈ s.anchor.objects, o.id ≠ id

/-- No revision of the store has this number. -/
def NewRevisionOf (s : Store) (id : UUID) (revision : Nat) : Prop :=
  ∀ r ∈ s.contents.revisions, (r.assertionId, r.revision) ≠ (id, revision)

/-- The assertion of an id is typed as a relation. -/
def Contents.Typed (c : Contents) (id : UUID) : Prop :=
  ∃ a ∈ c.assertions, a.id = id ∧ a.isRelation = true

/-- The digest that the tenant's secret gives a text. -/
def Store.digest (platform : Platform) (s : Store) (text : String) : Digest :=
  platform.hmac s.access.dedupSecret text

/-- The source event of a request is recorded for an object. -/
def RecordedEvent (platform : Platform) (s : Store) (data : Observe) (id : UUID) : Prop :=
  ∃ e ∈ s.operations.sourceEvents, e.scopeId = data.scopeId
    ∧ e.eventDigest = s.digest platform data.eventText ∧ e.objectId = id

/-- The identity digest of a job. -/
def Store.jobDigest (platform : Platform) (s : Store) (data : EnqueueJob) (retryOf : Option UUID) :
    Digest :=
  s.digest platform (identityText (s.digest platform data.memory.intentText) retryOf)

/-- The identity of a job is recorded for an object. -/
def RecordedJob (platform : Platform) (s : Store) (principal : UUID) (data : EnqueueJob)
    (retryOf : Option UUID) (id : UUID) : Prop :=
  ∃ i ∈ s.queue.identities, i.scopeId = data.memory.scopeId ∧ i.principalId = principal
    ∧ i.inputDigest = s.jobDigest platform data retryOf ∧ i.jobId = id

/-- The identity of an effect is recorded for an object. -/
def RecordedEffect (s : Store) (data : PlanToolEffect) (id : UUID) : Prop :=
  ∃ i ∈ s.ledger.identities, i.scopeId = data.scopeId ∧ i.runId = data.runId
    ∧ i.operationId = data.operationId ∧ i.effectId = id

/-- A digest is that of one of some texts. -/
def Digested (platform : Platform) (texts : Set String) (s : Store) (text : String)
    (digest : Digest) : Prop :=
  text ∈ texts ∧ digest = s.digest platform text

/-- **What a receipt of an operation with an identity rests on**: the request whose digest it
carries, with its identity recorded for the objects that the receipt names. -/
def Backed (platform : Platform) (texts : Set String) (s : Store) (principal : UUID)
    (requestDigest : Digest) : Operation → Receipt → Prop
  | .observe, result => ∃ data : Observe,
      Digested platform texts s (compactText data.dump) requestDigest
        ∧ ∃ id, result = .observed id ∧ RecordedEvent platform s data id
  | .enqueueJob, result => ∃ data : EnqueueJob,
      Digested platform texts s (data.payload none) requestDigest
        ∧ ∃ id, result = .job id ∧ RecordedJob platform s principal data none id
  | .retryJob, result => ∃ (data : EnqueueJob) (parent : UUID),
      Digested platform texts s (data.payload (some parent)) requestDigest
        ∧ ∃ id, result = .job id ∧ RecordedJob platform s principal data (some parent) id
  | .capture, result => ∃ data : Capture,
      Digested platform texts s (compactText data.dump) requestDigest
        ∧ ∃ episode job, result = .captured episode job ∧ RecordedEvent platform s data.episode episode
          ∧ RecordedJob platform s principal ⟨data.memory.remember data.episode.scopeId episode⟩ none
              job
  | .captureBatch, result => ∃ data : CaptureBatch,
      Digested platform texts s (compactText data.dump) requestDigest
        ∧ ∃ episode jobs, result = .capturedBatch episode jobs
          ∧ RecordedEvent platform s data.episode episode
          ∧ List.Forall₂ (fun memory job => RecordedJob platform s principal
              ⟨CapturedMemory.remember memory data.episode.scopeId episode⟩ none job)
            data.memories jobs
  | .planToolEffect, result => ∃ data : PlanToolEffect,
      Digested platform texts s (compactText data.dump) requestDigest
        ∧ ∃ id revision status, result = .effect id revision status ∧ RecordedEffect s data id
  | _, _ => True

/-- Every stored receipt rests on its request. -/
def AllBacked (platform : Platform) (texts : Set String) (s : Store) : Prop :=
  ∀ r ∈ s.operations.receipts, Backed platform texts s r.principalId r.requestDigest r.operation r.result

/-- The texts that a capture digests: that of the episode, and those of the jobs about the episode that
the store records for its source event. -/
def captureTexts (platform : Platform) (s : Store) (episode : Observe)
    (memories : List CapturedMemory) : Set String :=
  {text | text = compactText episode.dump ∨ ∃ id, RecordedEvent platform s episode id
    ∧ ∃ memory ∈ memories,
      text = EnqueueJob.payload ⟨memory.remember episode.scopeId id⟩ none}

/-- **The texts of a request** whose digests are compared with those of stored receipts that rest on
an identity. -/
def Request.texts (platform : Platform) (s : Store) : Request → Set String
  | .observe data _ => {compactText data.dump}
  | .capture data _ =>
    {compactText data.dump} ∪ captureTexts platform s data.episode [data.memory]
  | .captureBatch data _ =>
    {compactText data.dump} ∪ captureTexts platform s data.episode data.memories
  | .enqueue data _ retryOf => {data.payload retryOf}
  | .plan data _ => {compactText data.dump}
  | _ => ∅

/-- **What a transaction runs in**: the outside functions, the request, the texts of all requests, the
moments, and the store it starts with. -/
structure Setting where
  platform : Platform
  request : Request
  /-- The texts whose digests are compared. -/
  texts : Set String
  timeline : Timeline
  start : Store

/-- Different texts have different digests, every receipt rests on one of them, and those of the request
are among them as far as a session has recorded what they name. -/
structure Setting.Distinct (c : Setting) (σ : Session) : Prop where
  injective : Set.InjOn (c.platform.hmac c.start.access.dedupSecret) c.texts
  backed : AllBacked c.platform c.texts c.start
  covered : c.request.texts c.platform σ.store ⊆ c.texts

/-- **The discipline of every operation but `forget`**, against the store that the transaction
started with. -/
def Writes (c : Setting) (session : Session) : Statement → Prop
  | .insertObject _ _ _ => True
  | .content (.insertEpisode r) => Fresh c.start r.id
  | .content (.insertAssertion id _ _ _ _) => Fresh c.start id
  | .content (.insertRevision _) => True
  | .content (.insertEdge r) => NewRevisionOf c.start r.childId r.childRevision
  | .content (.insertEpisodeLexical r) => Fresh c.start r.episodeId
  | .content (.insertAssertionLexical r) => NewRevisionOf c.start r.assertionId r.revision
  | .content (.insertEpisodeEmbedding _) => True
  | .content (.insertAssertionEmbedding _) => True
  | .graph (.insertEntity r) => Fresh c.start r.id
  | .graph (.insertEntityEvidence r) => Fresh c.start r.entityId
  | .graph (.insertRelation r) => Fresh c.start r.id ∧ session.store.contents.Typed r.id
  | .graph (.insertTarget r) => NewRevisionOf c.start r.assertionId r.revision
  | .checkpoint (.insertRun _ _ _ _) => True
  | .checkpoint (.insertBranch _ _ _ _) => True
  | .checkpoint (.insertCheckpoint n) => Fresh c.start n.id
  | .checkpoint (.insertReference r) => Fresh c.start r.checkpointId
  | .ledger (.insertEffect n) => Fresh c.start n.id
  | .ledger (.insertReference r) => Fresh c.start r.effectId
  | .ledger (.insertIdentity _) => True
  | .ledger (.insertRevision _) => True
  | .queue (.insertJob n) => Fresh c.start n.id
  | .queue (.insertInput r) => Fresh c.start r.jobId
  | .queue (.insertIdentity _) => True
  | .queue (.updateJob _ _) => True
  | .operation (.saveResult operation _ requestDigest result) =>
    (∀ id ∈ result.objects, Untombstoned session.store id)
      ∧ (c.Distinct session → Backed c.platform c.texts session.store session.principal
          requestDigest operation result)
  | .operation _ => True
  | .purge _ _ => False
  | .insertTombstones _ => False
  | .bumpDeletionEpoch => False

/-- The discipline admits quiet statements only. -/
theorem Writes.quiet {c : Setting} {session : Session} {st : Statement}
    (h : Writes c session st) : st.quiet = true := by
  cases st <;> first | rfl | exact h.elim

section Monotone

variable {platform : Platform} {s s' : Store}

/-- Growth keeps the secret, and so the digests. -/
theorem Store.digest_eq (h : Grown s s') (text : String) :
    s'.digest platform text = s.digest platform text := by
  unfold Store.digest
  rw [h.access]

/-- An id that is free later was free before. -/
theorem Fresh.of_grown {id : UUID} (h : Fresh s' id) (hgrown : Grown s s') : Fresh s id :=
  fun o ho => h o (hgrown.objects o ho)

/-- A revision that is new later was new before. -/
theorem NewRevisionOf.of_grown {id : UUID} {n : Nat} (h : NewRevisionOf s' id n)
    (hgrown : Grown s s') : NewRevisionOf s id n := by
  intro r hr heq
  obtain ⟨r', hr', hkey⟩ := hgrown.revisions r hr
  exact h r' hr' (hkey.trans heq)

/-- Growth marks nothing. -/
theorem Untombstoned.of_grown {id : UUID} (h : Untombstoned s id) (hgrown : Grown s s') :
    Untombstoned s' id := by
  unfold Untombstoned
  rw [hgrown.tombstones]
  exact h

/-- What retains the secret keeps the digests. -/
theorem Store.digest_retained (h : Retains s s') (text : String) :
    s'.digest platform text = s.digest platform text := congrArg (platform.hmac · text) h.secret

/-- An event that is recorded stays so. -/
theorem RecordedEvent.of_retains {data : Observe} {id : UUID} (h : RecordedEvent platform s data id)
    (hkept : Retains s s') : RecordedEvent platform s' data id := by
  obtain ⟨e, he, hscope, hdigest, hid⟩ := h
  exact ⟨e, hkept.sourceEvents e he, hscope, by rw [hdigest, Store.digest_retained hkept], hid⟩

/-- A recorded event stays so as the store grows. -/
theorem RecordedEvent.of_grown {data : Observe} {id : UUID} (h : RecordedEvent platform s data id)
    (hgrown : Grown s s') : RecordedEvent platform s' data id := h.of_retains hgrown.retains

/-- The intent digests are kept with the secret. -/
theorem Store.jobDigest_retained (h : Retains s s') (data : EnqueueJob) (retryOf : Option UUID) :
    s'.jobDigest platform data retryOf = s.jobDigest platform data retryOf := by
  unfold Store.jobDigest
  rw [Store.digest_retained h, Store.digest_retained h]

/-- Growth keeps the intent digests. -/
theorem Store.jobDigest_eq (h : Grown s s') (data : EnqueueJob) (retryOf : Option UUID) :
    s'.jobDigest platform data retryOf = s.jobDigest platform data retryOf :=
  Store.jobDigest_retained h.retains data retryOf

/-- A job that is recorded stays so. -/
theorem RecordedJob.of_retains {principal : UUID} {data : EnqueueJob} {retryOf : Option UUID}
    {id : UUID} (h : RecordedJob platform s principal data retryOf id) (hkept : Retains s s') :
    RecordedJob platform s' principal data retryOf id := by
  obtain ⟨i, hi, hscope, hprincipal, hdigest, hid⟩ := h
  exact ⟨i, hkept.jobIdentities i hi, hscope, hprincipal,
    by rw [hdigest, Store.jobDigest_retained hkept], hid⟩

/-- A recorded job stays so as the store grows. -/
theorem RecordedJob.of_grown {principal : UUID} {data : EnqueueJob} {retryOf : Option UUID}
    {id : UUID} (h : RecordedJob platform s principal data retryOf id) (hgrown : Grown s s') :
    RecordedJob platform s' principal data retryOf id := h.of_retains hgrown.retains

/-- An effect that is recorded stays so. -/
theorem RecordedEffect.of_retains {data : PlanToolEffect} {id : UUID} (h : RecordedEffect s data id)
    (hkept : Retains s s') : RecordedEffect s' data id := by
  obtain ⟨i, hi, hrest⟩ := h
  exact ⟨i, hkept.effectIdentities i hi, hrest⟩

/-- A digest stays that of its text. -/
theorem Digested.of_retains {texts : Set String} {text : String} {digest : Digest}
    (h : Digested platform texts s text digest) (hkept : Retains s s') :
    Digested platform texts s' text digest :=
  ⟨h.1, by rw [Store.digest_retained hkept, h.2]⟩

/-- A digest stays that of its text as the store grows. -/
theorem Digested.of_grown {texts : Set String} {text : String} {digest : Digest}
    (h : Digested platform texts s text digest) (hgrown : Grown s s') :
    Digested platform texts s' text digest := h.of_retains hgrown.retains

/-- What a receipt rests on stays, even through a purge. -/
theorem Backed.of_retains {texts : Set String} {principal : UUID} {requestDigest : Digest}
    {operation : Operation} {result : Receipt}
    (h : Backed platform texts s principal requestDigest operation result)
    (hkept : Retains s s') : Backed platform texts s' principal requestDigest operation result := by
  cases operation with
  | observe =>
    obtain ⟨data, hdigest, id, hresult, hevent⟩ := h
    exact ⟨data, hdigest.of_retains hkept, id, hresult, hevent.of_retains hkept⟩
  | enqueueJob =>
    obtain ⟨data, hdigest, id, hresult, hjob⟩ := h
    exact ⟨data, hdigest.of_retains hkept, id, hresult, hjob.of_retains hkept⟩
  | retryJob =>
    obtain ⟨data, parent, hdigest, id, hresult, hjob⟩ := h
    exact ⟨data, parent, hdigest.of_retains hkept, id, hresult, hjob.of_retains hkept⟩
  | capture =>
    obtain ⟨data, hdigest, episode, job, hresult, hevent, hjob⟩ := h
    exact ⟨data, hdigest.of_retains hkept, episode, job, hresult, hevent.of_retains hkept,
      hjob.of_retains hkept⟩
  | captureBatch =>
    obtain ⟨data, hdigest, episode, jobs, hresult, hevent, hjobs⟩ := h
    exact ⟨data, hdigest.of_retains hkept, episode, jobs, hresult, hevent.of_retains hkept,
      hjobs.imp fun _ _ hjob => hjob.of_retains hkept⟩
  | planToolEffect =>
    obtain ⟨data, hdigest, id, revision, status, hresult, heffect⟩ := h
    exact ⟨data, hdigest.of_retains hkept, id, revision, status, hresult, heffect.of_retains hkept⟩
  | _ => trivial

/-- What a receipt rests on stays. -/
theorem Backed.of_grown {texts : Set String} {principal : UUID} {requestDigest : Digest}
    {operation : Operation} {result : Receipt}
    (h : Backed platform texts s principal requestDigest operation result) (hgrown : Grown s s') :
    Backed platform texts s' principal requestDigest operation result := h.of_retains hgrown.retains

end Monotone

/-! ## The judgement -/

/-- A session that a run of the setting has led to. -/
structure Session.Follows (c : Setting) (σ σ' : Session) : Prop where
  principal : σ'.principal = σ.principal
  grown : Grown σ.store σ'.store
  backed : c.Distinct σ' → AllBacked c.platform c.texts σ.store →
    AllBacked c.platform c.texts σ'.store

/-- A request keeps its texts. -/
theorem Request.texts_mono {platform : Platform} {s s' : Store} (hkept : Retains s s')
    (request : Request) : request.texts platform s ⊆ request.texts platform s' := by
  have hcapture : ∀ (episode : Observe) (memories : List CapturedMemory),
      captureTexts platform s episode memories ⊆ captureTexts platform s' episode memories := by
    rintro episode memories text (rfl | ⟨id, hevent, hrest⟩)
    · exact Or.inl rfl
    · exact Or.inr ⟨id, hevent.of_retains hkept, hrest⟩
  cases request with
  | capture data key => exact Set.union_subset_union_right _ (hcapture _ _)
  | captureBatch data key => exact Set.union_subset_union_right _ (hcapture _ _)
  | _ => exact subset_rfl

/-- What a later session covers, an earlier one does. -/
theorem Setting.Distinct.of_grown {c : Setting} {σ σ' : Session} (h : c.Distinct σ')
    (hgrown : Grown σ.store σ'.store) : c.Distinct σ :=
  ⟨h.injective, h.backed, (Request.texts_mono hgrown.retains c.request).trans h.covered⟩

/-- A session follows itself. -/
theorem Session.Follows.refl (c : Setting) (σ : Session) : σ.Follows c σ :=
  ⟨rfl, .refl _, fun _ h => h⟩

/-- What follows a follower follows. -/
theorem Session.Follows.trans {c : Setting} {σ σ' σ'' : Session} (h : σ.Follows c σ')
    (h' : σ'.Follows c σ'') : σ.Follows c σ'' :=
  ⟨h'.principal.trans h.principal, h.grown.trans h'.grown,
    fun hdistinct hbacked =>
      h'.backed hdistinct (h.backed (hdistinct.of_grown h'.grown) hbacked)⟩

/-- Only saving a result writes a receipt. -/
theorem Statement.Accepted.receipts {v : View} {m : Moment} {st : Statement} {s : Store}
    (hquiet : st.quiet = true) (h : st.Accepted v m s) :
    s.operations.receipts = v.store.operations.receipts ∨
      ∃ operation keyDigest requestDigest result,
        st = .operation (.saveResult operation keyDigest requestDigest result)
          ∧ v.store.operations.receipts.insert?
              ⟨v.principal, operation, keyDigest, requestDigest, result⟩
            = some s.operations.receipts := by
  cases st with
  | operation st =>
    obtain ⟨o, haccepted, rfl⟩ := h
    cases st with
    | saveResult operation keyDigest requestDigest result =>
      obtain ⟨-, t, ht, rfl⟩ := haccepted
      exact Or.inr ⟨operation, keyDigest, requestDigest, result, rfl, ht⟩
    | _ =>
      obtain ⟨-, t, -, rfl⟩ := haccepted
      exact Or.inl rfl
  | insertObject id scope kind =>
    obtain ⟨-, t, -, rfl⟩ := h
    exact Or.inl rfl
  | checkpoint st =>
    obtain ⟨inserted, c, -, rfl⟩ := h
    exact Or.inl rfl
  | queue st =>
    obtain ⟨row, q, -, rfl⟩ := h
    exact Or.inl rfl
  | content st =>
    obtain ⟨c, -, rfl⟩ := h
    exact Or.inl rfl
  | graph st =>
    obtain ⟨g, -, rfl⟩ := h
    exact Or.inl rfl
  | ledger st =>
    obtain ⟨l, -, rfl⟩ := h
    exact Or.inl rfl
  | purge purgeStep targets => exact absurd hquiet (by simp [quiet])
  | insertTombstones targets => exact absurd hquiet (by simp [quiet])
  | bumpDeletionEpoch => exact absurd hquiet (by simp [quiet])

/-- **One statement of the discipline**: the session after it has grown, and its receipts still rest
on their requests. -/
theorem Writes.follows {c : Setting} {σ σ' : Session} {st : Statement} {m : Moment} {r : Returned}
    (hallow : Writes c σ st) (hstep : step c.platform st m σ = .ok (r, σ')) : σ.Follows c σ' := by
  obtain ⟨-, hexec, -, hprincipal, -⟩ := step_eq_ok.mp hstep
  have hgrown : Grown σ.store σ'.store := step_grown hallow.quiet hstep
  refine ⟨hprincipal, hgrown, fun hdistinct hbacked q hq => ?_⟩
  rcases (st.accepted hexec).receipts hallow.quiet with hsame | ⟨operation, kd, rd, result, rfl, hinsert⟩
  · rw [hsame] at hq
    exact (hbacked q hq).of_grown hgrown
  · rcases (Table.mem_insert? hinsert).mp hq with rfl | hold
    · exact (hallow.2 (hdistinct.of_grown hgrown)).of_grown hgrown
    · exact (hbacked q hold).of_grown hgrown

/-- **Run by the discipline**: from moment `n` of a session, a program sends only what the
discipline admits, and a run that ends does so in a grown session with `Q`. -/
def Does (c : Setting) {α : Type} (p : Tx α) (Q : α → Session → Prop) (n : Nat) (σ : Session) :
    Prop :=
  Ensures (step c.platform) c.timeline.moment (Writes c) p
    (fun a _ σ' => σ.Follows c σ' ∧ Q a σ') n σ

section Rules

variable {c : Setting} {α β : Type} {n : Nat} {σ : Session}

/-- An answer does nothing. -/
theorem does_pure {a : α} {Q : α → Session → Prop} (h : Q a σ) :
    Does c (pure a) Q n σ := ⟨.refl c σ, h⟩

/-- What gives up need do nothing. -/
theorem does_raise {fault : Fault} {Q : α → Session → Prop} :
    Does c (.raise fault : Tx α) Q n σ := trivial

/-- What is done implies what follows from it. -/
theorem Does.mono {p : Tx α} {Q R : α → Session → Prop}
    (h : Does c p Q n σ)
    (hQ : ∀ a σ', σ.Follows c σ' → Q a σ' → R a σ') : Does c p R n σ :=
  Ensures.mono h fun a _ σ' _ hpost => ⟨hpost.1, hQ a σ' hpost.1 hpost.2⟩

/-- **Sequencing**: the second part starts later, in a grown session with what the first
established. -/
theorem does_bind_later {p : Tx α} {k : α → Tx β} {Q : α → Session → Prop} {R : β → Session → Prop}
    (hp : Does c p Q n σ)
    (hk : ∀ a n' σ', n ≤ n' → σ.Follows c σ' → Q a σ' → Does c (k a) R n' σ') :
    Does c (p >>= k) R n σ := by
  refine Interactive.Program.ensures_bind.mpr (Ensures.mono hp ?_)
  rintro a n' σ' hle ⟨hfollows, hQ⟩
  exact Ensures.mono (hk a n' σ' hle hfollows hQ) fun b _ σ'' _ hpost =>
    ⟨hfollows.trans hpost.1, hpost.2⟩

/-- Sequencing. -/
theorem does_bind {p : Tx α} {k : α → Tx β} {Q : α → Session → Prop} {R : β → Session → Prop}
    (hp : Does c p Q n σ)
    (hk : ∀ a n' σ', σ.Follows c σ' → Q a σ' → Does c (k a) R n' σ') :
    Does c (p >>= k) R n σ :=
  does_bind_later hp fun a n' σ' _ => hk a n' σ'

/-- A part that only reads leaves the session as it is. -/
theorem does_readOnly {p : Tx α} (hp : ReadOnly p) :
    Does c p (fun _ σ' => σ' = σ) n σ :=
  Ensures.mono (hp.ensures n σ) fun _ _ _ _ hpost => ⟨hpost ▸ .refl c σ, hpost⟩

/-- What follows a reading part starts at a later moment of the same session. -/
theorem does_readOnly_later {p : Tx α} {k : α → Tx β} {R : β → Session → Prop} (hp : ReadOnly p)
    (hk : ∀ a n', n ≤ n' → Does c (k a) R n' σ) :
    Does c (p >>= k) R n σ :=
  does_bind_later (does_readOnly hp) fun a n' _ hle _ heq => heq ▸ hk a n' hle

/-- What follows a reading part starts in the same session. -/
theorem does_readOnly_bind {p : Tx α} {k : α → Tx β} {R : β → Session → Prop} (hp : ReadOnly p)
    (hk : ∀ a n', Does c (k a) R n' σ) :
    Does c (p >>= k) R n σ :=
  does_readOnly_later hp fun a n' _ => hk a n'

/-- A query sees the session at its moment. -/
theorem does_read {query : View → α} {k : α → Tx β} {R : β → Session → Prop}
    (h : Does c (k (query (σ.view (c.timeline.moment n)))) R (n + 1) σ) :
    Does c (read query >>= k) R n σ := h

/-- The identifier drawn is that of the moment. -/
theorem does_drawUUID {k : UUID → Tx β} {R : β → Session → Prop}
    (h : Does c (k (c.timeline.moment n).uuid) R (n + 1) σ) :
    Does c (drawUUID >>= k) R n σ := h

/-- After a demand its condition holds. -/
theorem does_demand {condition : Bool} {code : ErrorCode} {k : Unit → Tx β}
    {R : β → Session → Prop}
    (h : condition = true → Does c (k ()) R n σ) :
    Does c (demand condition code >>= k) R n σ := by
  unfold demand
  split
  next hcondition => exact h hcondition
  next => trivial

/-- After a lookup there is a row. -/
theorem does_found {row : Option α} {code : ErrorCode} {k : α → Tx β} {R : β → Session → Prop}
    (h : ∀ a, row = some a → Does c (k a) R n σ) :
    Does c (found row code >>= k) R n σ := by
  cases row with
  | none => trivial
  | some a => exact h a rfl

/-- **Sending**: a statement of the discipline is sent, and the session after it has grown. -/
theorem does_send {st : Statement} {k : Unit → Tx β} {R : β → Session → Prop}
    (hallow : Writes c σ st)
    (h : ∀ r σ', step c.platform st (c.timeline.moment n) σ = .ok (r, σ') → σ.Follows c σ' →
      Does c (k ()) R (n + 1) σ') :
    Does c (send st >>= k) R n σ := by
  refine ⟨hallow, fun r σ' hstep => ?_⟩
  have hfollows : σ.Follows c σ' := hallow.follows hstep
  exact Ensures.mono (h r σ' hstep hfollows) fun b _ σ'' _ hpost =>
    ⟨hfollows.trans hpost.1, hpost.2⟩

/-- **A statement** has to be one that the request may write, in the session where it is sent. -/
theorem does_sendReturning {st : Statement} {k : Returned → Tx β} {R : β → Session → Prop}
    (hallow : Writes c σ st)
    (h : ∀ r σ', step c.platform st (c.timeline.moment n) σ = .ok (r, σ') → σ.Follows c σ' →
      Does c (k r) R (n + 1) σ') :
    Does c (sendReturning st >>= k) R n σ := by
  refine ⟨hallow, fun r σ' hstep => ?_⟩
  have hfollows : σ.Follows c σ' := hallow.follows hstep
  exact Ensures.mono (h r σ' hstep hfollows) fun b _ σ'' _ hpost =>
    ⟨hfollows.trans hpost.1, hpost.2⟩

/-- A statement at the end of a program. -/
theorem does_send_last {st : Statement} {R : Unit → Session → Prop}
    (hallow : Writes c σ st)
    (h : ∀ r σ', step c.platform st (c.timeline.moment n) σ = .ok (r, σ') → σ.Follows c σ' →
      R () σ') :
    Does c (send st) R n σ := by
  refine ⟨hallow, fun r σ' hstep => ?_⟩
  have hfollows : σ.Follows c σ' := hallow.follows hstep
  exact ⟨hfollows, h r σ' hstep hfollows⟩

/-- **Frame rule**: what the kinds of statements that a program sends preserve, it preserves. -/
theorem Does.sending {kind : Statement → Prop} {I : Session → Prop} {p : Tx α}
    {Q : α → Session → Prop} (h : Does c p Q n σ) (hp : Program.Sends kind p) (hI : I σ)
    (hstep : ∀ st m σ r σ', Writes c σ st → kind st → I σ →
      step c.platform st (c.timeline.moment m) σ = .ok (r, σ') → I σ') :
    Does c p (fun a σ' => Q a σ' ∧ I σ') n σ := by
  have hboth := (Ensures.sending h hp).invariant (I := fun _ σ => I σ) (fun _ _ hI => hI)
    (fun st m σ r σ' hI hallow hrun => hstep st m σ r σ' hallow.1 hallow.2 hI hrun) hI
  exact (Ensures.weaken hboth fun _ _ hallow => hallow.1).mono fun _ _ _ _ hpost =>
    ⟨hpost.1.1, hpost.1.2, hpost.2⟩

/-- **Loop rule**: every pass may start in any grown session. -/
theorem does_forEach {xs : List α} {f : α → Tx Unit}
    (h : ∀ x ∈ xs, ∀ n' σ', σ.Follows c σ' →
      Does c (f x) (fun _ _ => True) n' σ') :
    Does c (forEach xs f) (fun _ _ => True) n σ := by
  unfold forEach
  rw [List.forM_eq_forM]
  induction xs generalizing n σ with
  | nil => exact does_pure trivial
  | cons x xs ih =>
    rw [List.forM_cons]
    refine does_bind (h x List.mem_cons_self n σ (.refl c σ)) fun _ n' σ' hfollows _ => ?_
    exact ih fun y hy n'' σ'' hfollows' =>
      h y (List.mem_cons_of_mem x hy) n'' σ'' (hfollows.trans hfollows')

/-- **Collecting rule**: what every pass establishes of its result holds at the end. -/
theorem does_forCollect {xs : List α} {f : α → Tx β} {P : α → β → Session → Prop}
    (hstable : ∀ x b σ' σ'', σ'.Follows c σ'' → P x b σ' → P x b σ'')
    (h : ∀ x ∈ xs, ∀ n' σ', σ.Follows c σ' →
      Does c (f x) (fun b σ'' => P x b σ'') n' σ') :
    Does c (forCollect f xs)
      (fun bs σ' => List.Forall₂ (fun x b => P x b σ') xs bs) n σ := by
  induction xs generalizing n σ with
  | nil => exact does_pure List.Forall₂.nil
  | cons x xs ih =>
    refine does_bind (h x List.mem_cons_self n σ (.refl c σ)) fun b n' σ' hfollows hb => ?_
    refine does_bind (ih fun y hy n'' σ'' hfollows' =>
      h y (List.mem_cons_of_mem x hy) n'' σ'' (hfollows.trans hfollows')) ?_
    intro bs n'' σ'' hfollows' hbs
    exact does_pure (.cons (hstable x b σ' σ'' hfollows' hb) hbs)

end Rules

end PgAgmemory

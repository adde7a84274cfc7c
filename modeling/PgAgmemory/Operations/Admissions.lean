import PgAgmemory.Operations.Turns

/-! # What queueing answers

Only `enqueue` and the two captures queue jobs. Every new job of such a request carries a request for
publication that was asked for, about the episode that the answer names where the request captures one
(`Request.outcome_queues`). -/

namespace PgAgmemory

open Keyed (Table)
open Interactive (Program)
open Interactive.Program (Sends)
open MemoryService

/-- **The jobs that a request queues with an answer**: the request for publication, about the episode
that the answer names where one is captured, and the job that is retried. -/
def Request.Queues (response : Response) : Request → Remember → Option UUID → Prop
  | .enqueue data _ parent, memory, retryOf => memory = data.memory ∧ retryOf = parent
  | .capture data _, memory, retryOf => retryOf = none ∧ ∃ episode job,
    response = .receipt (.captured episode job)
      ∧ memory = data.memory.remember data.episode.scopeId episode
  | .captureBatch data _, memory, retryOf => retryOf = none ∧ ∃ episode jobs,
    response = .receipt (.capturedBatch episode jobs)
      ∧ ∃ item ∈ data.memories, memory = item.remember data.episode.scopeId episode
  | _, _, _ => False

/-! ## New jobs -/

/-- **The new jobs between two sessions** carry wanted requests. -/
def Session.Gains (σ σ' : Session) (wanted : Remember → Option UUID → Prop) : Prop :=
  ∀ j ∈ σ'.store.queue.jobs, j ∈ σ.store.queue.jobs
    ∨ ∃ memory retryOf, wanted memory retryOf ∧ j.payload = some memory.dump

namespace Session.Gains

variable {σ σ' σ'' : Session} {wanted wanted' : Remember → Option UUID → Prop}

/-- A session gains nothing on itself. -/
theorem refl (σ : Session) (wanted : Remember → Option UUID → Prop) : σ.Gains σ wanted :=
  fun _ hj => Or.inl hj

/-- Jobs for some requests are jobs for more. -/
theorem mono (h : σ.Gains σ' wanted)
    (hwider : ∀ memory retryOf, wanted memory retryOf → wanted' memory retryOf) :
    σ.Gains σ' wanted' := by
  intro j hj
  rcases h j hj with hold | ⟨memory, retryOf, hwanted, hpayload⟩
  · exact Or.inl hold
  · exact Or.inr ⟨memory, retryOf, hwider memory retryOf hwanted, hpayload⟩

/-- Gains add up. -/
theorem trans (h : σ.Gains σ' wanted) (h' : σ'.Gains σ'' wanted) : σ.Gains σ'' wanted := by
  intro j hj
  rcases h' j hj with hold | hnew
  · exact h j hold
  · exact Or.inr hnew

/-- Nothing new is whatever is wanted. -/
theorem any (h : σ.Gains σ' fun _ _ => False) (wanted : Remember → Option UUID → Prop) :
    σ.Gains σ' wanted := h.mono fun _ _ hfalse => hfalse.elim

end Session.Gains

section Gains

variable {platform : Platform} {timeline : Timeline} {n : Nat} {σ σ' : Session} {areas : List Area}
  {wanted : Remember → Option UUID → Prop}

/-- Areas without turns of jobs and deletion. -/
def Turnless (areas : List Area) : Prop := .turn ∉ areas ∧ .purge ∉ areas

/-- The areas of a program are a list, and can be looked through. -/
instance Turnless.decidable (areas : List Area) : Decidable (Turnless areas) :=
  inferInstanceAs (Decidable (_ ∧ _))

/-- **A statement that turns no job** queues at most a wanted one. -/
theorem Within.gains {st : Statement} {m : Moment} {r : Returned} (hst : Within areas st)
    (hareas : Turnless areas) (hqueues : QueuesFor wanted st)
    (hstep : step platform st m σ = .ok (r, σ')) : σ.Gains σ' wanted := by
  obtain ⟨hturn, hpurge⟩ := hareas
  obtain ⟨-, hexec, -⟩ := step_eq_ok.mp hstep
  intro j hj
  -- of the statements on the queue, only an insertion of a job adds one, and only a turn changes one
  rcases (st.accepted hexec).queue_cases (hst.quiet hpurge) with hsame | ⟨st', row, rfl, hqueue⟩
  · exact Or.inl (hsame ▸ hj)
  cases st' with
  | updateJob id change => exact absurd hst hturn
  | insertJob new =>
    obtain ⟨-, t, ht, hstore⟩ := hqueue
    rw [hstore] at hj
    obtain ⟨memory, retryOf, hwanted, hasks⟩ := hqueues
    rcases (Table.mem_insert? ht).mp hj with rfl | hold
    · exact Or.inr ⟨memory, retryOf, hwanted, by rw [← hasks.payload]; rfl⟩
    · exact Or.inl hold
  | _ =>
    obtain ⟨-, t, -, hstore⟩ := hqueue
    rw [hstore] at hj
    exact Or.inl hj

/-- **A program that turns no job** gains the jobs that it queues. -/
theorem outcome_gains {α : Type} {p : Tx α} (hp : Sends (Within areas) p) (hareas : Turnless areas)
    (hqueues : Sends (QueuesFor wanted) p) :
    Outcome platform timeline p (fun _ _ σ' => σ.Gains σ' wanted) (fun _ => True) n σ :=
  (hp.and hqueues).yields (.refl σ wanted) fun _ _ _ _ _ hst h hstep =>
    h.trans (hst.1.gains hareas hst.2 hstep)

/-- What only writes operations queues nothing. -/
theorem outcome_gains_operation {α : Type} {p : Tx α} (hp : Sends (Within [.operation]) p)
    (wanted : Remember → Option UUID → Prop) :
    Outcome platform timeline p (fun _ _ σ' => σ.Gains σ' wanted) (fun _ => True) n σ :=
  outcome_gains hp (by decide) (hp.mono fun _ hst => hst.queuesNone (by decide) wanted)

/-! ## Captures -/

/-- The captured episode queues nothing. -/
theorem outcome_gains_episode (data : Observe) (key : String)
    (wanted : Remember → Option UUID → Prop) :
    Outcome platform timeline (Captures.observeEpisode platform data key)
      (fun _ _ σ' => σ.Gains σ' wanted) (fun _ => True) n σ :=
  outcome_gains (within_observeEpisode platform data key) (by decide)
    (queues_observeEpisode platform data key)

/-- What ends a capture queues nothing. -/
theorem outcome_gains_answer {σ₀ : Session} (h : σ₀.Gains σ wanted) (operation : Operation)
    (keyDigest requestDigest : Digest) (result : Receipt) (action : String) (target : UUID) :
    Outcome platform timeline (saveResult operation keyDigest requestDigest result >>= fun _ =>
        audit action target >>= fun _ => pure result)
      (fun r _ σ' => r = result ∧ σ₀.Gains σ' wanted) (fun _ => True) n σ := by
  refine outcome_bind (outcome_gains_operation (within_saveResult (by decide) _ _ _ _) wanted)
    fun _ m σ₁ _ hsaved => ?_
  refine outcome_bind (outcome_gains_operation (sends_audited _ _) wanted) fun _ m σ₂ _ haudited => ?_
  exact outcome_pure ⟨rfl, (h.trans hsaved).trans haudited⟩

/-- **A capture** queues a job about the episode of its answer. -/
theorem outcome_gains_capture (data : Capture) (key : String) :
    Outcome platform timeline (Captures.create platform data key)
      (fun r _ σ' => σ.Gains σ' ((Request.capture data key).Queues (.receipt r))) (fun _ => True) n σ := by
  refine outcome_bind (outcome_readOnly (readOnly_scope _ _) fun _ => trivial) ?_
  rintro - m σ - rfl
  refine outcome_once (fun row _ _ _ _ => outcome_pure (.refl σ _)) fun m _ _ => ?_
  refine outcome_bind (outcome_gains_episode data.episode _ fun _ _ => False)
    fun episode m σ₁ _ hepisode => ?_
  have hjob : Sends (QueuesFor fun memory retryOf =>
      retryOf = none ∧ memory = data.memory.remember data.episode.scopeId episode)
      (Captures.enqueueMemory platform data.episode.scopeId episode data.memory
        ("capture-job-v1:" ++ (σ.store.digest platform key).str)) :=
    queues_enqueueMemory platform _ _ _ _ ⟨rfl, rfl⟩
  refine outcome_bind (outcome_gains (within_enqueueMemory platform _ _ _ _) (by decide) hjob)
    fun job m σ₂ _ hqueued => ?_
  refine (outcome_gains_answer ((hepisode.any _).trans hqueued) _ _ _ _ _ _).mono ?_ fun _ h => h
  rintro _ m σ₃ - ⟨rfl, hgains⟩
  exact hgains.mono fun memory retryOf ⟨hretry, hmemory⟩ => ⟨hretry, episode, job, rfl, hmemory⟩

/-- **A batch of captures** queues jobs about the episode of its answer. -/
theorem outcome_gains_captureBatch (data : CaptureBatch) (key : String) :
    Outcome platform timeline (Captures.createBatch platform data key)
      (fun r _ σ' => σ.Gains σ' ((Request.captureBatch data key).Queues (.receipt r))) (fun _ => True)
      n σ := by
  refine outcome_bind (outcome_readOnly (readOnly_scope _ _) fun _ => trivial) ?_
  rintro - m σ - rfl
  refine outcome_once (fun row _ _ _ _ => outcome_pure (.refl σ _)) fun m _ _ => ?_
  refine outcome_bind (outcome_gains_episode data.episode _ fun _ _ => False)
    fun episode m σ₁ _ hepisode => ?_
  have hjobs : Sends (QueuesFor fun memory retryOf => retryOf = none
      ∧ ∃ item ∈ data.memories, memory = item.remember data.episode.scopeId episode)
      (forCollect (fun memory : CapturedMemory × Nat =>
        Captures.enqueueMemory platform data.episode.scopeId episode memory.1
          (Captures.batchKey (σ.store.digest platform key) memory.2)) data.memories.zipIdx) :=
    sends_forCollect_mem fun item hitem => queues_enqueueMemory platform _ _ _ _
      ⟨rfl, item.1, List.fst_mem_of_mem_zipIdx hitem, rfl⟩
  refine outcome_bind (outcome_gains (sends_forCollect fun memory =>
    within_enqueueMemory platform _ _ _ _) (by decide) hjobs) fun jobs m σ₂ _ hqueued => ?_
  refine (outcome_gains_answer ((hepisode.any _).trans hqueued) _ _ _ _ _ _).mono ?_ fun _ h => h
  rintro _ m σ₃ - ⟨rfl, hgains⟩
  exact hgains.mono fun memory retryOf ⟨hretry, hmemory⟩ => ⟨hretry, episode, jobs, rfl, hmemory⟩

/-! ## Requests -/

/-- A request that queues does not delete, and turns no job. -/
theorem Request.Enqueues.quiet {request : Request} {memory : Remember} {retryOf : Option UUID}
    (h : request.Enqueues memory retryOf) : request.deletes = false ∧ Turnless request.areas := by
  cases request with
  | enqueue data key parent => exact ⟨rfl, (by decide : Turnless queueing)⟩
  | capture data key => exact ⟨rfl, (by decide : Turnless capturing)⟩
  | captureBatch data key => exact ⟨rfl, (by decide : Turnless capturing)⟩
  | _ => exact h.elim

/-- **The new jobs of a request** that turns none are those that it queues with its answer. -/
theorem Request.outcome_gains (request : Request) (hquiet : request.deletes = false)
    (hareas : Turnless request.areas) :
    Outcome platform timeline (request.program platform)
      (fun response _ σ' => σ.Gains σ' (request.Queues response)) (fun _ => True) n σ := by
  have hown : Outcome platform timeline (request.program platform)
      (fun _ _ σ' => σ.Gains σ' request.Enqueues) (fun _ => True) n σ :=
    PgAgmemory.outcome_gains (request.within platform hquiet) hareas
      (request.queuesOwn platform hquiet)
  cases request with
  | capture data key =>
    refine outcome_bind (outcome_readOnly readOnly_bindIdentity fun _ => trivial) ?_
    rintro - m σ' - rfl
    exact outcome_bind (outcome_gains_capture data key) fun _ _ _ _ hgains => outcome_pure hgains
  | captureBatch data key =>
    refine outcome_bind (outcome_readOnly readOnly_bindIdentity fun _ => trivial) ?_
    rintro - m σ' - rfl
    exact outcome_bind (outcome_gains_captureBatch data key) fun _ _ _ _ hgains => outcome_pure hgains
  | _ => exact hown.mono (fun _ _ _ _ hgains => hgains) fun _ h => h

end Gains

end PgAgmemory

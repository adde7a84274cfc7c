import PgAgmemory.Guarantees.AllOrNothing
import PgAgmemory.Guarantees.Receipts
import PgAgmemory.Guarantees.Seals

/-! # No resurrection

A purged object stays gone: it is never visible again, nothing that names it is read, and no answer
names it (`purged_gone`). What it was created for stays closed as well: a later request for the same
source event, job or effect is refused, whatever its key (`purged_identities_closed`). -/

namespace PgAgmemory

open Keyed (HasKey Table key)
open Interactive (Program)
open MemoryService

/-! ## Identities -/

section Identities

variable {platform : Platform} {s s' : Store} {id id' : UUID}

/-- A source event has one object. -/
theorem RecordedEvent.unique {data : Observe} (h : RecordedEvent platform s data id)
    (h' : RecordedEvent platform s data id') : id = id' := by
  obtain ⟨e, he, hscope, hdigest, rfl⟩ := h
  obtain ⟨e', he', hscope', hdigest', rfl⟩ := h'
  have hkey : key e = key e' := Prod.ext (hscope.trans hscope'.symm) (hdigest.trans hdigest'.symm)
  rw [Table.eq_of_key_eq he he' hkey]

/-- A job identity has one job. -/
theorem RecordedJob.unique {principal : UUID} {data : EnqueueJob} {retryOf : Option UUID}
    (h : RecordedJob platform s principal data retryOf id)
    (h' : RecordedJob platform s principal data retryOf id') : id = id' := by
  obtain ⟨i, hi, hscope, hprincipal, hdigest, rfl⟩ := h
  obtain ⟨i', hi', hscope', hprincipal', hdigest', rfl⟩ := h'
  have hkey : key i = key i' := Prod.ext (hscope.trans hscope'.symm)
    (Prod.ext (hprincipal.trans hprincipal'.symm) (hdigest.trans hdigest'.symm))
  rw [Table.eq_of_key_eq hi hi' hkey]

/-- An effect identity has one effect. -/
theorem RecordedEffect.unique {data : PlanToolEffect} (h : RecordedEffect s data id)
    (h' : RecordedEffect s data id') : id = id' := by
  obtain ⟨i, hi, hscope, hrun, hoperation, rfl⟩ := h
  obtain ⟨i', hi', hscope', hrun', hoperation', rfl⟩ := h'
  have hkey : key i = key i' := Prod.ext (hscope.trans hscope'.symm)
    (Prod.ext (hrun.trans hrun'.symm) (hoperation.trans hoperation'.symm))
  rw [Table.eq_of_key_eq hi hi' hkey]

/-- The objects that a capture asks for: that of its source event, and the jobs about it. -/
def CaptureAsks (platform : Platform) (s : Store) (principal : UUID) (episode : Observe)
    (memories : List CapturedMemory) (id : UUID) : Prop :=
  RecordedEvent platform s episode id ∨ ∃ source, RecordedEvent platform s episode source
    ∧ ∃ memory ∈ memories, RecordedJob platform s principal
      ⟨memory.remember episode.scopeId source⟩ none id

/-- **The objects that a request asks for by an identity**, as the store records it. -/
def Request.Asks (platform : Platform) (s : Store) (principal : UUID) : Request → UUID → Prop
  | .observe data _, id => RecordedEvent platform s data id
  | .capture data _, id => CaptureAsks platform s principal data.episode [data.memory] id
  | .captureBatch data _, id => CaptureAsks platform s principal data.episode data.memories id
  | .enqueue data _ retryOf, id => RecordedJob platform s principal data retryOf id
  | .plan data _, id => RecordedEffect s data id
  | _, _ => False

theorem CaptureAsks.of_retains {principal : UUID} {episode : Observe} {memories : List CapturedMemory}
    (h : CaptureAsks platform s principal episode memories id) (hkept : Retains s s') :
    CaptureAsks platform s' principal episode memories id := by
  rcases h with hevent | ⟨source, hevent, memory, hmemory, hjob⟩
  · exact Or.inl (hevent.of_retains hkept)
  · exact Or.inr ⟨source, hevent.of_retains hkept, memory, hmemory, hjob.of_retains hkept⟩

/-- An identity stays recorded. -/
theorem Request.Asks.of_retains {principal : UUID} {request : Request}
    (h : request.Asks platform s principal id) (hkept : Retains s s') :
    request.Asks platform s' principal id := by
  cases request with
  | observe data key => exact RecordedEvent.of_retains h hkept
  | capture data key => exact CaptureAsks.of_retains h hkept
  | captureBatch data key => exact CaptureAsks.of_retains h hkept
  | enqueue data key retryOf => exact RecordedJob.of_retains h hkept
  | plan data key => exact RecordedEffect.of_retains h hkept
  | _ => exact h

end Identities

/-! ## What was asked for is live -/

section Live

variable {c : Setting} {n : Nat} {σ : Session}

/-- What a request with a finished operation asks for is live. -/
def LiveAsked (c : Setting) (request : Request) (σ : Session) : Prop :=
  c.Distinct σ → ∀ id, request.Asks c.platform σ.store σ.principal id → Untombstoned σ.store id

theorem Done.liveAsked_observe {data : Observe} {key key' : String} {result : Receipt}
    (h : Done c .observe key (compactText data.dump) result σ) (hσ : Underway c σ)
    (htext : c.Covers σ (compactText data.dump)) : LiveAsked c (.observe data key') σ := by
  intro hdistinct id hasks
  obtain ⟨data', hdigest, id', rfl, hevent⟩ := h.backed hσ hdistinct
  have hdata : data' = data :=
    Observe.dump_inj.mp (compactText_injective (hσ.text_eq hdistinct hdigest (htext.here hdistinct)))
  subst hdata
  rw [RecordedEvent.unique hasks hevent]
  exact h.live id' (List.mem_singleton_self _)

theorem Done.liveAsked_enqueue {data : EnqueueJob} {retryOf : Option UUID} {key key' : String}
    {result : Receipt}
    (h : Done c (Jobs.enqueueOperation retryOf) key (data.payload retryOf) result σ)
    (hσ : Underway c σ) (htext : c.Covers σ (data.payload retryOf)) :
    LiveAsked c (.enqueue data key' retryOf) σ := by
  intro hdistinct id hasks
  have hbacked := h.backed hσ hdistinct
  cases retryOf with
  | none =>
    obtain ⟨data', hdigest, id', rfl, hjob⟩ := hbacked
    obtain ⟨rfl, -⟩ := EnqueueJob.payload_inj (hσ.text_eq hdistinct hdigest (htext.here hdistinct))
    rw [RecordedJob.unique hasks hjob]
    exact h.live id' (List.mem_singleton_self _)
  | some parent =>
    obtain ⟨data', parent', hdigest, id', rfl, hjob⟩ := hbacked
    obtain ⟨rfl, hparent⟩ := EnqueueJob.payload_inj (hσ.text_eq hdistinct hdigest (htext.here hdistinct))
    cases hparent
    rw [RecordedJob.unique hasks hjob]
    exact h.live id' (List.mem_singleton_self _)

theorem Done.liveAsked_plan {data : PlanToolEffect} {key key' : String} {result : Receipt}
    (h : Done c .planToolEffect key (compactText data.dump) result σ) (hσ : Underway c σ)
    (htext : c.Covers σ (compactText data.dump)) : LiveAsked c (.plan data key') σ := by
  intro hdistinct id hasks
  obtain ⟨data', hdigest, id', revision, status, rfl, heffect⟩ := h.backed hσ hdistinct
  have hdata : data' = data :=
    PlanToolEffect.dump_inj.mp (compactText_injective (hσ.text_eq hdistinct hdigest (htext.here hdistinct)))
  subst hdata
  rw [RecordedEffect.unique hasks heffect]
  exact h.live id' (List.mem_singleton_self _)

theorem Done.liveAsked_capture {data : Capture} {key key' : String} {result : Receipt}
    (h : Done c .capture key (compactText data.dump) result σ) (hσ : Underway c σ)
    (htext : c.Covers σ (compactText data.dump)) : LiveAsked c (.capture data key') σ := by
  intro hdistinct id hasks
  obtain ⟨data', hdigest, episode, job, rfl, hevent, hjob⟩ := h.backed hσ hdistinct
  have hdata : data' = data :=
    Capture.dump_inj.mp (compactText_injective (hσ.text_eq hdistinct hdigest (htext.here hdistinct)))
  subst hdata
  rcases hasks with hasked | ⟨source, hsource, memory, hmemory, hasked⟩
  · rw [RecordedEvent.unique hasked hevent]
    exact h.live episode List.mem_cons_self
  · cases RecordedEvent.unique hsource hevent
    cases List.mem_singleton.mp hmemory
    rw [RecordedJob.unique hasked hjob]
    exact h.live job (List.mem_cons_of_mem _ (List.mem_singleton_self _))

theorem Done.liveAsked_captureBatch {data : CaptureBatch} {key key' : String} {result : Receipt}
    (h : Done c .captureBatch key (compactText data.dump) result σ) (hσ : Underway c σ)
    (htext : c.Covers σ (compactText data.dump)) : LiveAsked c (.captureBatch data key') σ := by
  intro hdistinct id hasks
  obtain ⟨data', hdigest, episode, jobs, rfl, hevent, hjobs⟩ := h.backed hσ hdistinct
  have hdata : data' = data :=
    CaptureBatch.dump_inj.mp (compactText_injective (hσ.text_eq hdistinct hdigest (htext.here hdistinct)))
  subst hdata
  rcases hasks with hasked | ⟨source, hsource, memory, hmemory, hasked⟩
  · rw [RecordedEvent.unique hasked hevent]
    exact h.live episode List.mem_cons_self
  · cases RecordedEvent.unique hsource hevent
    obtain ⟨job, hmem, hjob⟩ := exists_of_forall₂ hjobs.flip hmemory
    rw [RecordedJob.unique hasked hjob]
    exact h.live job (List.mem_cons_of_mem _ hmem)

/-- **Whatever a finished request asked for is live.** -/
theorem Request.does_liveAsked {request : Request} (h : Underway c σ)
    (hquiet : request.deletes = false) (hrequest : c.request = request) :
    Does c (request.program c.platform) (fun _ σ' => LiveAsked c request σ') n σ := by
  have hdone : ∀ {p : Tx Receipt} {operation : Operation} {key payload : String} {n₀ : Nat},
      Does c p (fun r σ' => Done c operation key payload r σ') n₀ σ →
      (∀ result σ', Done c operation key payload result σ' → Underway c σ' →
        LiveAsked c request σ') →
      Does c (respond .receipt p) (fun _ σ' => LiveAsked c request σ') n₀ σ := by
    intro p operation key payload n₀ hp hlive
    refine (does_respond hp).mono ?_
    rintro r σ' hf ⟨result, -, hresult⟩
    exact hlive result σ' hresult (h.follows hf)
  have hnone : (∀ (σ' : Session) id, ¬ request.Asks c.platform σ'.store σ'.principal id) →
      Does c (request.program c.platform) (fun _ σ' => LiveAsked c request σ') n σ := fun hno =>
    (Request.does hrequest h hquiet).mono fun _ σ' _ _ _ id hasks => (hno σ' id hasks).elim
  cases request with
  | observe data key =>
    exact does_readOnly_bind readOnly_bindIdentity fun _ n₀ =>
      hdone (does_observe h data key (c.covers hrequest (fun _ => rfl) σ)) fun _ σ' hresult hσ =>
        hresult.liveAsked_observe hσ (c.covers hrequest (fun _ => rfl) σ')
  | capture data key =>
    exact does_readOnly_bind readOnly_bindIdentity fun _ n₀ =>
      hdone (does_capture h data key (c.covers hrequest (fun _ => Or.inl rfl) σ)
          (c.coversCapture hrequest (fun _ => Set.subset_union_right) σ)) fun _ σ' hresult hσ =>
        hresult.liveAsked_capture hσ (c.covers hrequest (fun _ => Or.inl rfl) σ')
  | captureBatch data key =>
    exact does_readOnly_bind readOnly_bindIdentity fun _ n₀ =>
      hdone (does_captureBatch h data key (c.covers hrequest (fun _ => Or.inl rfl) σ)
          (c.coversCapture hrequest (fun _ => Set.subset_union_right) σ)) fun _ σ' hresult hσ =>
        hresult.liveAsked_captureBatch hσ (c.covers hrequest (fun _ => Or.inl rfl) σ')
  | enqueue data key retryOf =>
    exact does_readOnly_bind readOnly_bindIdentity fun _ n₀ =>
      hdone (does_enqueue h data key retryOf (c.covers hrequest (fun _ => rfl) σ)) fun _ σ' hresult hσ =>
        hresult.liveAsked_enqueue hσ (c.covers hrequest (fun _ => rfl) σ')
  | plan data key =>
    exact does_readOnly_bind readOnly_bindIdentity fun _ n₀ =>
      hdone (does_plan h data key (c.covers hrequest (fun _ => rfl) σ)) fun _ σ' hresult hσ =>
        hresult.liveAsked_plan hσ (c.covers hrequest (fun _ => rfl) σ')
  | _ => exact hnone fun _ _ hno => hno

end Live

/-! ## Closed identities -/

section Closed

variable {platform : Platform} {s s' : Store} {id : UUID}

/-- Requests that ask for something by an identity do not delete. -/
theorem Request.Asks.quiet {principal : UUID} {request : Request}
    (h : request.Asks platform s principal id) : request.deletes = false := by
  cases request with
  | forget data key => exact h.elim
  | _ => rfl

/-- A tombstoned object stays tombstoned. -/
theorem Retains.tombstoned (h : Retains s s') (hgone : ¬ Untombstoned s id) :
    ¬ Untombstoned s' id :=
  fun hlive => hgone fun t ht => hlive t (h.tombstones t ht)

/-- **A closed identity**: a request for what is tombstoned fails, and changes nothing. -/
theorem Sound.asks_closed {texts : Set String} (hs : Sound s) (hbacked : AllBacked platform texts s)
    (hinjective : Set.InjOn (platform.hmac s.access.dedupSecret) texts) {c : Call}
    (hc : c.request.texts platform (c.exec platform s).2 ⊆ texts) (hgone : ¬ Untombstoned s id)
    (hasks : c.request.Asks platform s c.principal id) :
    (c.exec platform s).2 = s ∧ ∀ r, (c.exec platform s).1 ≠ .ok r := by
  rcases c.exec_cases platform s with ⟨fault, hexec⟩ | ⟨response, s', hok, hexec⟩
  · rw [hexec]
    exact ⟨rfl, fun r h => by cases h⟩
  · rw [hexec] at hc
    have hdoes : Does ⟨platform, c.request, texts, c.timeline, s⟩ (c.request.program platform)
        (fun _ σ => LiveAsked ⟨platform, c.request, texts, c.timeline, s⟩ c.request σ) 0
        (.start c.principal s) :=
      Request.does_liveAsked (.start hs.integrity.foreign c.principal) hasks.quiet rfl
    obtain ⟨σ, rfl, hfollows, hlive⟩ := hdoes.committed hok
    have hkept : Retains s σ.store := hfollows.grown.retains
    have hprincipal : σ.principal = c.principal := hfollows.principal
    refine absurd (hlive ⟨hinjective, hbacked, hc⟩ id ?_) (hkept.tombstoned hgone)
    rw [hprincipal]
    exact hasks.of_retains hkept

/-- **What a purge closes stays closed.** In every run whose requests' texts have different digests,
once the object of a source event, a job or an effect was purged, a request for it fails and changes
nothing, whatever its key and whatever ran in between. -/
theorem purged_identities_closed {access : Access} {events later : List Event} {c : Call}
    (hinjective : Set.InjOn (platform.hmac access.dedupSecret)
      (runTexts platform (events ++ later ++ [.call c]) (.provisioned access)))
    (hgone : ¬ Untombstoned (runEvents platform events (.provisioned access)) id)
    (hasks : c.request.Asks platform (runEvents platform events (.provisioned access))
      c.principal id) :
    (c.exec platform (runEvents platform (events ++ later) (.provisioned access))).2
        = runEvents platform (events ++ later) (.provisioned access)
      ∧ ∀ r, (c.exec platform (runEvents platform (events ++ later) (.provisioned access))).1
        ≠ .ok r := by
  have hstart : Reachable platform (.provisioned access) := .provisioned access
  have hbacked : AllBacked platform
      (runTexts platform (events ++ later ++ [.call c]) (.provisioned access)) (.provisioned access) :=
    fun r hr => absurd hr (Table.not_mem_empty r)
  have hkept : Retains (runEvents platform events (.provisioned access))
      (runEvents platform (events ++ later) (.provisioned access)) := by
    rw [runEvents_append]
    exact (hstart.run events).retains later
  have hlast : runEvents platform (events ++ later ++ [.call c]) (.provisioned access)
      = (c.exec platform (runEvents platform (events ++ later) (.provisioned access))).2 := by
    rw [runEvents_append]
    rfl
  have hreachable := hstart.run (events ++ later)
  have htexts : ∀ e ∈ events ++ later,
      e.texts platform (runEvents platform (events ++ later) (.provisioned access))
        ⊆ runTexts platform (events ++ later ++ [.call c]) (.provisioned access) := by
    intro e he text htext
    refine ⟨e, List.mem_append_left _ he, ?_⟩
    rw [hlast]
    exact e.texts_mono (hreachable.sound.retains (.call c)) htext
  refine hreachable.sound.asks_closed (hbacked.run hstart hinjective htexts) ?_ ?_
    (hkept.tombstoned hgone) (hasks.of_retains hkept)
  · rw [(hstart.retains (events ++ later)).secret]
    exact hinjective
  · intro text htext
    refine ⟨.call c, List.mem_append_right _ (List.mem_singleton_self _), ?_⟩
    rw [hlast]
    exact htext

end Closed

/-! ## Gone for good -/

section Gone

variable {c : Setting} {n : Nat} {σ : Session}

/-- The objects that an answer names. -/
def Response.names : Response → List UUID
  | .receipt result => result.objects
  | _ => []

/-- Every object that an answer names is live. -/
def LiveNamed (r : Response) (σ : Session) : Prop := ∀ id ∈ r.names, Untombstoned σ.store id

/-- A published assertion is new. -/
theorem does_publish_live (h : Underway c σ) (jobId token : UUID) (prepared : Remember) :
    Does c (Jobs.publish c.platform jobId token prepared)
      (fun r σ' => ∀ id ∈ r.objects, Untombstoned σ'.store id) n σ := by
  refine does_readOnly_bind (readOnly_lease _ _ _) fun row n₀ => does_demand fun _ => ?_
  refine does_bind (does_publishAssertion h prepared) ?_
  rintro result n₁ σ₁ hf₁ ⟨id, rfl, hid⟩
  refine does_found fun memoryId _ => does_update fun saved n₂ σ₂ hf₂ => does_demand fun _ =>
    does_audit fun n₃ σ₃ hf₃ => does_pure fun id' hid' => ?_
  rw [List.mem_singleton.mp hid']
  exact (h.follows ((hf₁.trans hf₂).trans hf₃)).untombstoned hid

/-- An embedding is stored for a live object. -/
theorem does_put_live (h : Underway c σ) (data : PutEmbedding) (key : String) :
    Does c (Embeddings.put c.platform data key)
      (fun r σ' => ∀ id ∈ r.objects, Untombstoned σ'.store id) n σ := by
  -- the source is live where the rest starts, and stays so
  have hrest := Program.ensures_bind.mp (does_put (n := n) h data key)
  refine Program.ensures_bind.mpr ((hrest.and (does_source h _ _)).mono ?_)
  rintro x m σ₁ - ⟨hput, -, -, hfree⟩
  refine hput.mono ?_
  rintro r m' σ₂ - ⟨hf, rfl, -⟩
  exact ⟨hf, fun id hid => List.mem_singleton.mp hid ▸ hfree.of_grown hf.grown⟩

/-- **A finished request names live objects only.** -/
theorem Request.does_liveNamed {request : Request} (h : Underway c σ)
    (hquiet : request.deletes = false) (hrequest : c.request = request) :
    Does c (request.program c.platform) LiveNamed n σ := by
  refine does_readOnly_bind readOnly_bindIdentity fun _ n₀ => ?_
  have hreceipt : ∀ {p : Tx Receipt},
      Does c p (fun r σ' => ∀ id ∈ r.objects, Untombstoned σ'.store id) n₀ σ →
      Does c (respond .receipt p) LiveNamed n₀ σ := by
    intro p hp
    refine (does_respond hp).mono ?_
    rintro r σ' - ⟨result, rfl, hlive⟩
    exact hlive
  have hdone : ∀ {p : Tx Receipt} {operation : Operation} {key payload : String},
      Does c p (fun r σ' => Done c operation key payload r σ') n₀ σ →
      Does c (respond .receipt p) LiveNamed n₀ σ := fun hp =>
    hreceipt (hp.mono fun _ _ _ hresult => hresult.live)
  -- an answer that is no receipt names nothing
  have hnone : ∀ {α : Type} {wrap : α → Response} {p : Tx α} {Q : α → Session → Prop},
      (∀ a, (wrap a).names = []) → Does c p Q n₀ σ → Does c (respond wrap p) LiveNamed n₀ σ := by
    intro α wrap p Q hnames hp
    refine (does_respond hp).mono ?_
    rintro r σ' - ⟨a, rfl, -⟩ id hid
    rw [hnames a] at hid
    exact absurd hid List.not_mem_nil
  cases request with
  | observe data key => exact hdone (does_observe h data key (c.covers hrequest (fun _ => rfl) σ))
  | remember data key => exact hdone (does_remember h data key)
  | reviseAssertion objectId data key => exact hdone (does_reviseAssertion h objectId data key)
  | capture data key =>
    exact hdone (does_capture h data key (c.covers hrequest (fun _ => Or.inl rfl) σ)
      (c.coversCapture hrequest (fun _ => Set.subset_union_right) σ))
  | captureBatch data key =>
    exact hdone (does_captureBatch h data key (c.covers hrequest (fun _ => Or.inl rfl) σ)
      (c.coversCapture hrequest (fun _ => Set.subset_union_right) σ))
  | createEntity data key => exact hdone (does_createEntity h data key)
  | createRelation data key => exact hdone (does_createRelation h data key)
  | reviseRelation assertionId data key => exact hdone (does_reviseRelation h assertionId data key)
  | enqueue data key retryOf => exact hdone (does_enqueue h data key retryOf (c.covers hrequest (fun _ => rfl) σ))
  | cancel jobId data key => exact hdone (does_cancel h jobId data key)
  | createCheckpoint data key => exact hdone (does_createCheckpoint h data key)
  | restoreCheckpoint data key => exact hnone (fun _ => rfl) (does_restore h data key)
  | plan data key => exact hdone (does_plan h data key (c.covers hrequest (fun _ => rfl) σ))
  | transition effectId data key => exact hdone (does_transition h effectId data key)
  | putEmbedding data key => exact hreceipt (does_put_live h data key)
  | forget data key => exact absurd hquiet Bool.noConfusion
  | «recall» data => exact hnone (fun _ => rfl) (does_readOnly (readOnly_recall c.platform data))
  | explain data => exact hnone (fun _ => rfl) (does_readOnly (readOnly_explain data))
  | entity entityId => exact hnone (fun _ => rfl) (does_readOnly (readOnly_entity entityId))
  | expand data => exact hnone (fun _ => rfl) (does_readOnly (readOnly_expand data))
  | checkpoint checkpointId =>
    exact hnone (fun _ => rfl) (does_readOnly (readOnly_envelope c.platform _))
  | checkpointHead data => exact hnone (fun _ => rfl) (does_readOnly (readOnly_head c.platform data))
  | job jobId => exact hnone (fun _ => rfl) (does_readOnly (readOnly_jobGet jobId))
  | effect effectId => exact hnone (fun _ => rfl) (does_readOnly (readOnly_effectGet effectId))
  | query query => exact hnone (fun _ => rfl) (does_readOnly (readOnly_query c.platform query))
  | claim leaseSeconds => exact hnone (fun _ => rfl) (does_claim leaseSeconds)
  | heartbeat jobId token => exact hnone (fun _ => rfl) (does_heartbeat jobId token)
  | publish jobId token prepared => exact hreceipt (does_publish_live h jobId token prepared)
  | fail jobId token code retry => exact hnone (fun _ => rfl) (does_jobFail jobId token code retry)

/-- An answered call names live objects only. -/
theorem Sound.answers_live {platform : Platform} {s : Store} (hs : Sound s) {c : Call} {r : Response}
    (hok : (c.exec platform s).1 = .ok r) : ∀ id ∈ r.names, Untombstoned s id := by
  rcases c.exec_cases platform s with ⟨fault, hexec⟩ | ⟨response, s', hattempt, hexec⟩
  · rw [hexec] at hok
    cases hok
  · rw [hexec] at hok
    cases hok
    cases hdeletes : c.request.deletes with
    | false =>
      have hdoes : Does (c.setting platform s) (c.request.program platform) LiveNamed 0
          (.start c.principal s) :=
        Request.does_liveNamed (c := c.setting platform s) (.start hs.integrity.foreign c.principal)
          hdeletes rfl
      obtain ⟨σ, rfl, hfollows, hlive⟩ := hdoes.committed hattempt
      intro id hid t ht
      exact hlive id hid t (hfollows.grown.tombstones ▸ ht)
    | true =>
      obtain ⟨principal, timeline, request⟩ := c
      cases request with
      | forget data key =>
        have hnames : Outcome platform timeline ((Request.forget data key).program platform)
            (fun r _ _ => r.names = []) (fun _ => True) 0 (.start principal s) :=
          outcome_any_bind fun _ _ _ => outcome_any_bind fun _ _ _ => outcome_pure rfl
        obtain ⟨m, σ, hnone, -⟩ := Call.exec_returns (c := ⟨principal, timeline, .forget data key⟩)
          (congrArg Prod.fst hexec) hnames
        intro id hid
        rw [hnone] at hid
        exact absurd hid List.not_mem_nil
      | _ => cases hdeletes

/-- **The requests that read one object.** -/
def Request.reads? : Request → Option UUID
  | .explain data => some data.memoryId
  | .entity id => some id
  | .checkpoint id => some id
  | .job id => some id
  | .effect id => some id
  | .query (.assertionHistory data) => some data.memoryId
  | .query (.embeddingInput data) => some data.memoryId
  | _ => none

/-- A tombstoned object is not visible. -/
theorem object?_tombstoned {v : View} {id : UUID} (hmarked : Marked v.store)
    (hgone : ¬ Untombstoned v.store id) : v.object? id = none := by
  refine Option.eq_none_iff_forall_ne_some.mpr fun o ho => hgone ?_
  obtain ⟨hmem, rfl, hread⟩ := View.object?_eq_some.mp ho
  exact ((View.readable_iff hmarked hmem).mp hread).2

/-- A request that reads a tombstoned object fails. -/
theorem Sound.reads_gone {platform : Platform} {s : Store} (hs : Sound s) {c : Call} {id : UUID}
    (hreads : c.request.reads? = some id) (hgone : ¬ Untombstoned s id) (r : Response) :
    (c.exec platform s).1 ≠ .ok r := by
  have hmarked : Marked s := hs.integrity.foreign.marked
  have hobject : ∀ {n : Nat} (permission : Permission), Outcome platform c.timeline
      (object id permission) (fun _ _ _ => False) (fun _ => True) n (.start c.principal s) := by
    intro n permission
    refine outcome_read (outcome_found (fun o ho => ?_) fun _ => trivial)
    rw [object?_tombstoned hmarked hgone] at ho
    cases ho
  refine Call.exec_ne_ok (F := fun _ => True) (outcome_body_fails fun m => ?_) r
  obtain ⟨principal, timeline, request⟩ := c
  cases request with
  | explain data =>
    cases hreads
    exact outcome_fails_bind (outcome_fails_bind (hobject .read))
  | entity entityId =>
    cases hreads
    exact outcome_fails_bind (outcome_fails_bind (hobject .read))
  | checkpoint checkpointId =>
    cases hreads
    exact outcome_fails_bind (outcome_fails_bind (outcome_fails_bind (hobject .read)))
  | job jobId =>
    cases hreads
    exact outcome_fails_bind (outcome_fails_bind (outcome_fails_bind (hobject .read)))
  | effect effectId =>
    cases hreads
    exact outcome_fails_bind (outcome_fails_bind (outcome_fails_bind (hobject .read)))
  | query query =>
    cases query with
    | assertionHistory data =>
      cases hreads
      exact outcome_fails_bind (outcome_fails_bind (outcome_fails_bind (hobject .read)))
    | embeddingInput data =>
      cases hreads
      exact outcome_fails_bind (outcome_fails_bind (outcome_fails_bind (outcome_fails_bind
        (hobject .read))))
    | _ => cases hreads
  | _ => cases hreads

/-- Content in any table has an owner. -/
theorem HasContent.owns {s : Store} (hkeys : ForeignKeys s) {id : UUID} (h : HasContent s id) :
    Owns s id := by
  obtain ⟨hcontent, hgraph, hcheckpoint, hledger, hqueue⟩ := hkeys
  have hassertion : ∀ {id scope : UUID}, (∃ a ∈ s.contents.assertions, (a.id, a.scopeId) = (id, scope)) →
      Owns s id := by
    rintro _ _ ⟨a, ha, heq⟩
    exact (Prod.mk.inj heq).1 ▸ .assertion ha
  have hrevision : ∀ {id scope : UUID} {n : Nat}, (∃ r ∈ s.contents.revisions,
      (r.assertionId, r.revision, r.scopeId) = (id, n, scope)) → Owns s id := by
    rintro _ _ _ ⟨r, hr, heq⟩
    exact (Prod.mk.inj heq).1 ▸ hassertion (hcontent.revision_assertion.exists_parent hr rfl)
  have hepisode : ∀ {id scope : UUID}, (∃ e ∈ s.contents.episodes, (e.id, e.scopeId) = (id, scope)) →
      Owns s id := by
    rintro _ _ ⟨e, he, heq⟩
    exact (Prod.mk.inj heq).1 ▸ .episode he
  cases h with
  | episode hr => exact .episode hr
  | assertion hr => exact .assertion hr
  | revision hr => exact hassertion (hcontent.revision_assertion.exists_parent hr rfl)
  | edge hr => exact hassertion (hcontent.edge_child.exists_parent hr rfl)
  | episodeLexical hr => exact hepisode (hcontent.episodeLexical_episode.exists_parent hr rfl)
  | assertionLexical hr => exact hrevision (hcontent.assertionLexical_revision.exists_parent hr rfl)
  | episodeEmbedding hr => exact hepisode (hcontent.episodeEmbedding_episode.exists_parent hr rfl)
  | assertionEmbedding hr =>
    exact hrevision (hcontent.assertionEmbedding_revision.exists_parent hr rfl)
  | entity hr => exact .entity hr
  | evidence hr =>
    obtain ⟨e, he, heq⟩ := hgraph.evidence_entity.exists_parent hr rfl
    exact (Prod.mk.inj heq).1 ▸ .entity he
  | relation hr => exact hassertion (hgraph.relation_assertion.exists_parent hr rfl)
  | target hr => exact hrevision (hgraph.target_revision.exists_parent hr rfl)
  | checkpoint hr => exact .checkpoint hr
  | checkpointReference hr =>
    obtain ⟨c, hc, heq⟩ := hcheckpoint.reference_checkpoint.exists_parent hr rfl
    exact (Prod.mk.inj heq).1 ▸ .checkpoint hc
  | effect hr => exact .effect hr
  | effectRevision hr =>
    obtain ⟨e, he, heq⟩ := hledger.revision_effect.exists_parent hr rfl
    exact heq ▸ .effect he
  | effectReference hr =>
    obtain ⟨e, he, heq⟩ := hledger.reference_effect.exists_parent hr rfl
    exact (Prod.mk.inj heq).1 ▸ .effect he
  | job hr => exact .job hr
  | jobInput hr =>
    obtain ⟨j, hj, heq⟩ := hqueue.input_job.exists_parent hr rfl
    exact (Prod.mk.inj heq).1 ▸ .job hj

/-- **A purged object is gone for good.** Once it is tombstoned, then in every later store it has no
content in any table, and no principal ever sees it, no request reads it, and no answer names it. -/
theorem purged_gone {platform : Platform} {s : Store} (hs : Reachable platform s) {id : UUID}
    (hgone : ¬ Untombstoned s id) (events : List Event) :
    ¬ HasContent (runEvents platform events s) id
      ∧ (∀ principal m, ((Session.start principal (runEvents platform events s)).view m).object? id
          = none)
      ∧ ∀ (c : Call) r, (c.exec platform (runEvents platform events s)).1 = .ok r →
        id ∉ r.names ∧ c.request.reads? ≠ some id := by
  have hlater := (hs.run events).sound
  have hgone' := (hs.retains events).tombstoned hgone
  have hkeys := hlater.integrity.foreign
  refine ⟨fun hcontent => hgone' (clean_iff.mp hlater.clean id (hcontent.owns hkeys)), fun principal m =>
    object?_tombstoned hlater.integrity.foreign.marked hgone', fun c r hok => ⟨fun hid =>
      hgone' (hlater.answers_live hok id hid), fun hreads => hlater.reads_gone hreads hgone' r hok⟩⟩

end Gone

/-! ## A small tenant -/

set_option maxRecDepth 10000 in
/-- The first effect of the small tenant is tombstoned. -/
theorem parted_tombstoned : ¬ Untombstoned .parted 410 := by
  have hmarked : (Store.parted.anchor.tombstones.rows.any fun t => decide (t.objectId = 410)) = true := by
    decide +kernel
  obtain ⟨t, ht, hid⟩ := List.any_eq_true.mp hmarked
  exact fun hlive => hlive t ht (of_decide_eq_true hid)

set_option maxRecDepth 10000 in
/-- The rule at the small tenant: after an observation, the effect that survives is given up, with an
answer that does not name the purged one, which is not read any more. -/
theorem purged_gone_parted :
    ¬ HasContent (runEvents .blind [.call (.observing 900 1100)] .parted) 410
      ∧ ((Session.start 1 (runEvents .blind [.call (.observing 900 1100)] .parted)).view
          ((Timeline.ticking 1000 1200).moment 0)).object? 410 = none
      ∧ (∃ r, (Call.exec .blind ⟨7, .ticking 1000 1200, .transition 510 .lose "key"⟩
          (runEvents .blind [.call (.observing 900 1100)] .parted)).1 = .ok r ∧ 410 ∉ r.names)
      ∧ ¬ ∃ r, (Call.exec .blind ⟨1, .ticking 1000 1200, .effect 410⟩
          (runEvents .blind [.call (.observing 900 1100)] .parted)).1 = .ok r := by
  have hreachable : Reachable .blind .parted :=
    ((Reachable.provisioned Access.pair).run Event.planning).run Event.sealing
  obtain ⟨hcontent, hview, hanswers⟩ :=
    purged_gone hreachable parted_tombstoned [.call (.observing 900 1100)]
  have hmoved : ((Call.exec .blind ⟨7, .ticking 1000 1200, .transition 510 .lose "key"⟩
      (runEvents .blind [.call (.observing 900 1100)] .parted)).1.toOption.bind
        Response.receipt?).isSome = true := by decide +kernel
  obtain ⟨r, hr⟩ := Option.isSome_iff_exists.mp hmoved
  have hok := Response.receipt?_eq_some hr
  exact ⟨hcontent, hview 1 _, ⟨_, hok, (hanswers _ _ hok).1⟩,
    fun ⟨r', hread⟩ => (hanswers _ r' hread).2 rfl⟩

/-- A short capture. -/
def Capture.brief : Capture where
  episode := .brief 2
  memory := {
    subject := .brief
    predicate := Remember.brief.predicate
    value := Remember.brief.value
    evidenceQuote := Evidence.brief.quote
    valid := ⟨Remember.brief.valid.1, List.nodup_nil⟩ }

/-- A capture by the small tenant at some time. -/
def Call.capturing (start : Time) (drawn : Nat) (key : String) : Call :=
  ⟨1, .ticking start drawn, .capture .brief key⟩

/-- A capture by the small tenant, of the episode 111 with the job 129, and the purge of both. -/
def Event.purging : List Event := [
  .call (.capturing 0 100 "key"),
  .call ⟨1, .ticking 200 300, .forget { memoryIds := [111], reason := .brief } "forget"⟩]

/-- The captured episode is tombstoned. -/
theorem purging_tombstoned :
    ¬ Untombstoned (runEvents .plain Event.purging (.provisioned (.sole 1 2 none))) 111 := by
  have hmarked : ((runEvents .plain Event.purging (.provisioned (.sole 1 2 none))).anchor.tombstones.rows.any
      fun t => decide (t.objectId = 111)) = true := by decide +kernel
  obtain ⟨t, ht, hid⟩ := List.any_eq_true.mp hmarked
  exact fun hlive => hlive t ht (of_decide_eq_true hid)

set_option maxRecDepth 10000 in
/-- The source event of the purged episode is recorded. -/
theorem purging_recorded : RecordedEvent .plain
    (runEvents .plain Event.purging (.provisioned (.sole 1 2 none))) (.brief 2) 111 := by
  have hrecorded : ((runEvents .plain Event.purging
      (.provisioned (.sole 1 2 none))).operations.sourceEvents.rows.any fun e =>
        decide (e.scopeId = 2 ∧ e.eventDigest = (runEvents .plain Event.purging
          (.provisioned (.sole 1 2 none))).digest .plain (Observe.brief 2).eventText
            ∧ e.objectId = 111)) = true := by decide +kernel
  obtain ⟨e, he, hevent⟩ := List.any_eq_true.mp hrecorded
  exact ⟨e, he, of_decide_eq_true hevent⟩

/-- The texts of the captures, as characters: of the request, its episode and its job. -/
def Capture.briefChars : List (List Char) :=
  [Json.Value.chars ⟨false, false⟩ Capture.brief.dump,
    Json.Value.chars ⟨false, false⟩ (Observe.brief 2).dump,
    Json.Value.chars ⟨true, true⟩ (Json.Value.obj [("retry_of", jsonOption jsonUUID none), ("request",
      EnqueueJob.dump ⟨Capture.brief.memory.remember 2 111⟩)]).sortKeys]

/-- The texts of the captures. -/
def Capture.briefTexts : Set String := {text | ∃ cs ∈ Capture.briefChars, String.ofList cs = text}

set_option maxRecDepth 10000 in
/-- These texts have different digests. -/
theorem briefTexts_injective : Set.InjOn (Platform.plain.hmac 1) Capture.briefTexts := by
  have hdigest : ∀ cs : List Char, (Platform.plain.hmac 1 (String.ofList cs)).str
      = String.ofList (Digits.fixed 16 64 (cs.foldl (fun n c => n * 257 + c.toNat) 1)) := by
    intro cs
    simp only [Platform.plain, Digest.ofNat, String.toList_ofList]
    rfl
  have hends : Capture.briefChars.map
      (fun cs => (Digits.fixed 16 64 (cs.foldl (fun n c => n * 257 + c.toNat) 1)).drop 62)
      = [['5', 'c'], ['c', 'c'], ['3', 'f']] := by decide +kernel
  have hnodup := List.inj_on_of_nodup_map (hends ▸ (by decide : [['5', 'c'], ['c', 'c'], ['3', 'f']].Nodup))
  rintro _ ⟨a, ha, rfl⟩ _ ⟨b, hb, rfl⟩ heq
  have hsame := congrArg Digest.str heq
  rw [hdigest, hdigest, String.ofList_inj] at hsame
  rw [hnodup ha hb (congrArg (List.drop 62) hsame)]

/-- The texts of a capture by the small tenant, where its episode is recorded. -/
theorem capturing_texts {s : Store} (hrecorded : RecordedEvent .plain s (.brief 2) 111) (start : Time)
    (drawn : Nat) (key : String) :
    (Event.call (.capturing start drawn key)).texts .plain s ⊆ Capture.briefTexts := by
  rintro text (htext | htext | ⟨id, hid, memory, hmemory, htext⟩)
  · exact ⟨_, List.mem_cons_self, htext.symm⟩
  · exact ⟨_, List.mem_cons_of_mem _ List.mem_cons_self, htext.symm⟩
  · -- the job that a capture asks for is about the recorded episode
    obtain rfl := RecordedEvent.unique hid hrecorded
    rw [List.mem_singleton.mp hmemory] at htext
    exact ⟨_, List.mem_cons_of_mem _ (List.mem_cons_of_mem _ List.mem_cons_self), htext.symm⟩

/-- A capture by the small tenant asks for its recorded episode. -/
theorem capturing_asks {s : Store} (hrecorded : RecordedEvent .plain s (.brief 2) 111) (start : Time)
    (drawn : Nat) (key : String) :
    (Call.capturing start drawn key).request.Asks .plain s (Call.capturing start drawn key).principal 111 :=
  Or.inl hrecorded

set_option maxRecDepth 10000 in
/-- The rule at the small tenant: the capture is refused under new keys, the first time and the next. -/
theorem purged_identities_closed_small :
    ¬ ∃ r, ((Call.capturing 800 800 "other").exec .plain
      (runEvents .plain (Event.purging ++ [.call (.capturing 400 500 "again")]) (.provisioned (.sole 1 2 none)))).1 = .ok r := by
  have hlast : runEvents .plain (Event.purging ++ [.call (.capturing 400 500 "again")] ++ [.call (.capturing 800 800 "other")])
      (.provisioned (.sole 1 2 none))
    = runEvents .plain [.call (.capturing 400 500 "again"), .call (.capturing 800 800 "other")]
      (runEvents .plain Event.purging (.provisioned (.sole 1 2 none))) := by
    rw [List.append_assoc, List.singleton_append, runEvents_append]
  have hstart : Reachable .plain (runEvents .plain Event.purging (.provisioned (.sole 1 2 none))) :=
    (Reachable.provisioned _).run _
  have hrecorded : RecordedEvent .plain (runEvents .plain [.call (.capturing 400 500 "again"), .call (.capturing 800 800 "other")]
      (runEvents .plain Event.purging (.provisioned (.sole 1 2 none)))) (.brief 2) 111 :=
    purging_recorded.of_retains (hstart.retains _)
  have htexts : runTexts .plain (Event.purging ++ [.call (.capturing 400 500 "again")] ++ [.call (.capturing 800 800 "other")])
      (.provisioned (.sole 1 2 none)) ⊆ Capture.briefTexts := by
    rintro text ⟨e, he, htext⟩
    rw [hlast] at htext
    generalize runEvents .plain [.call (.capturing 400 500 "again"), .call (.capturing 800 800 "other")]
      (runEvents .plain Event.purging (.provisioned (.sole 1 2 none))) = s at htext hrecorded
    simp only [Event.purging, List.cons_append, List.nil_append, List.mem_cons, List.not_mem_nil,
      or_false] at he
    rcases he with rfl | rfl | rfl | rfl
    · exact capturing_texts hrecorded _ _ _ htext
    · exact absurd htext (Set.notMem_empty text)
    · exact capturing_texts hrecorded _ _ _ htext
    · exact capturing_texts hrecorded _ _ _ htext
  have hinjective : Set.InjOn (Platform.plain.hmac (Access.sole 1 2 none).dedupSecret)
      (runTexts .plain (Event.purging ++ [.call (.capturing 400 500 "again")]
        ++ [.call (.capturing 800 800 "other")]) (.provisioned (.sole 1 2 none))) :=
    briefTexts_injective.mono htexts
  have hasks := capturing_asks purging_recorded 800 800 "other"
  rintro ⟨r, hok⟩
  exact (purged_identities_closed hinjective purging_tombstoned hasks).2 r hok

end PgAgmemory

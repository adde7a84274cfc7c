import PgAgmemory.Forgetting.Grounds
import PgAgmemory.Operations.Publications
import PgAgmemory.System.Outcomes

/-! # The turns of jobs

A job changes in five requests only: `cancel`, `claim`, `heartbeat`, `publish` and `fail`. Each of them
reads the job, checks it, and sends one `UPDATE`, so what a committed request has done to the queue is
one change of one job (`Turned`), whose conditions the program has checked (`Licenses`), or nothing. -/

namespace PgAgmemory

open Keyed (HasKey Table)
open Interactive (Program)
open Interactive.Program (ReadOnly Sends)
open MemoryService

/-! ## Sessions that share the queue -/

/-- **A session with the queue and the access of another one**, and for the same principal. -/
structure Session.Abreast (σ σ' : Session) : Prop where
  queue : σ'.store.queue = σ.store.queue
  access : σ'.store.access = σ.store.access
  principal : σ'.principal = σ.principal
  keys : ForeignKeys σ.store → ForeignKeys σ'.store

namespace Session.Abreast

variable {σ σ' σ'' : Session}

/-- A session is abreast of itself. -/
theorem refl (σ : Session) : σ.Abreast σ := ⟨rfl, rfl, rfl, id⟩

/-- A session abreast of another one is abreast of what that one is abreast of. -/
theorem trans (h : σ.Abreast σ') (h' : σ'.Abreast σ'') : σ.Abreast σ'' :=
  ⟨h'.queue.trans h.queue, h'.access.trans h.access, h'.principal.trans h.principal,
    fun hkeys => h'.keys (h.keys hkeys)⟩

end Session.Abreast

/-- Areas without jobs and deletion. -/
def Queueless (areas : List Area) : Prop :=
  .admission ∉ areas ∧ .turn ∉ areas ∧ .purge ∉ areas

/-- The areas of a program are a list, and can be looked through. -/
instance Queueless.decidable (areas : List Area) : Decidable (Queueless areas) :=
  inferInstanceAs (Decidable (_ ∧ _ ∧ _))

section Abreast

variable {platform : Platform} {timeline : Timeline} {areas : List Area} {σ σ' : Session}

/-- **A statement of other areas** leaves the queue alone. -/
theorem Within.abreast {st : Statement} {m : Moment} {r : Returned} (hst : Within areas st)
    (hareas : Queueless areas) (hstep : step platform st m σ = .ok (r, σ')) : σ.Abreast σ' := by
  obtain ⟨hadmission, hturn, hpurge⟩ := hareas
  have hquiet := hst.quiet hpurge
  obtain ⟨-, hexec, hkeys, hprincipal, -⟩ := step_eq_ok.mp hstep
  have harea := (st.accepted hexec).inArea hquiet
  refine ⟨?_, harea.access, hprincipal, fun _ => hkeys.1⟩
  rcases harea.queue with hsame | ⟨st', rfl⟩
  · exact hsame
  · cases st' with
    | updateJob id change => exact absurd hst hturn
    | _ => exact absurd hst hadmission

/-- A program that writes in other areas leaves the queue alone. -/
theorem outcome_abreast {α : Type} {p : Tx α} {n : Nat} (hp : Sends (Within areas) p)
    (hareas : Queueless areas) :
    Outcome platform timeline p (fun _ _ σ' => σ.Abreast σ') (fun _ => True) n σ :=
  hp.yields (.refl σ) fun _ _ _ _ _ hst h hstep => h.trans (hst.abreast hareas hstep)

end Abreast

/-! ## Reading a job -/

section Reading

variable {platform : Platform} {timeline : Timeline} {n : Nat} {σ : Session}

/-- **Loading a job** gives its row. -/
theorem outcome_jobLoad (id : UUID) (permission : Permission) (lock : Bool) :
    Outcome platform timeline (Jobs.load id permission lock)
      (fun job _ σ' => σ' = σ ∧ job.row ∈ σ.store.queue.jobs ∧ job.row.id = id) (fun _ => True) n σ := by
  refine outcome_bind ((outcome_object id permission).mono (fun _ _ _ _ h => h) fun _ _ => trivial) ?_
  rintro o m σ' - ⟨rfl, -⟩
  refine outcome_demand (fun _ => outcome_read (outcome_found (fun row hrow => ?_) fun _ => trivial))
    fun _ => trivial
  refine outcome_read (outcome_demand (fun _ => outcome_pure ⟨rfl, ?_⟩) fun _ => trivial)
  obtain ⟨hread, -⟩ := Option.filter_eq_some_iff.mp hrow
  obtain ⟨hfind, -⟩ := Option.filter_eq_some_iff.mp hread
  exact Table.find?_eq_some_iff.mp hfind

/-- **A lease**: the job runs under the token, for its owner, and with `epochs` in the context in which
it was claimed. -/
structure Leased (timeline : Timeline) (σ : Session) (id token : UUID) (epochs : Bool) (row : JobRow) :
    Prop where
  stored : row ∈ σ.store.queue.jobs
  id : row.id = id
  owner : row.principalId = σ.principal
  running : row.state = .running
  token : row.leaseToken = some token
  unexpired : ∃ k t, row.leaseUntil = some t ∧ (timeline.moment k).clock 0 < t
  context : epochs = true → row.capturedAccessEpoch = σ.store.access.accessEpoch
    ∧ row.capturedDeletionEpoch = σ.store.access.deletionEpoch

/-- **What `lease` returns is leased.** -/
theorem outcome_lease (id token : UUID) (epochs : Bool) :
    Outcome platform timeline (Jobs.lease id token epochs)
      (fun row _ σ' => σ' = σ ∧ Leased timeline σ id token epochs row) (fun _ => True) n σ := by
  refine outcome_read (outcome_bind (outcome_jobLoad id .write true) ?_)
  rintro job m σ' - ⟨rfl, hstored, hid⟩
  refine outcome_demand (fun howner => outcome_readAt ?_) fun _ => trivial
  refine outcome_demand (fun hlease => ?_) fun _ => trivial
  refine outcome_demand (fun hcontext => outcome_pure ⟨rfl, ?_⟩) fun _ => trivial
  simp only [Bool.and_eq_true, decide_eq_true_eq] at hlease
  obtain ⟨⟨hrunning, htoken⟩, huntil⟩ := hlease
  obtain ⟨t, huntil, hlt⟩ := (Option.any_eq_true _ _).mp huntil
  refine ⟨hstored, hid, of_decide_eq_true howner, hrunning, htoken,
    ⟨_, t, huntil, of_decide_eq_true hlt⟩, fun hepochs => ?_⟩
  rw [hepochs] at hcontext
  simp only [Bool.not_true, Bool.false_or, Bool.and_eq_true, decide_eq_true_eq] at hcontext
  exact hcontext

/-- A waiting job is one of the caller's. -/
theorem mem_waiting {m : Moment} {v : View} {j : JobRow} (h : j ∈ Jobs.waiting m v) :
    j ∈ v.store.queue.jobs ∧ j.principalId = v.principal ∧ ∃ i, j.due (m.clock i) = true := by
  rw [Jobs.waiting, List.mem_insertionSort, List.mem_map] at h
  obtain ⟨⟨j', i⟩, hmem, rfl⟩ := h
  obtain ⟨hindexed, hfilter⟩ := List.mem_filter.mp hmem
  simp only [Bool.and_eq_true, decide_eq_true_eq] at hfilter
  obtain ⟨⟨⟨howner, -⟩, hdue⟩, -⟩ := hfilter
  exact ⟨(List.mem_filter.mp (List.fst_mem_of_mem_zipIdx hindexed)).1, howner, i, hdue⟩

end Reading

/-! ## Updates -/

/-- The queue after a job's row was replaced. -/
def Queue.withJob (q : Queue) (id : UUID) (row : JobRow) (h : row.id = id) : Queue :=
  { q with jobs := replaceJob q.jobs id row h }

/-- **A turn**: at some statement of a transaction one job was changed, and nothing else of the
queue. -/
structure Turned (timeline : Timeline) (σ σ' : Session) (change : JobChange) (old new : JobRow) :
    Prop where
  changed : ∃ k σ₁, σ.Abreast σ₁
    ∧ ChangesJob (σ₁.view (timeline.moment k)) (timeline.moment k) old.id change old new
  id : new.id = old.id
  queue : σ'.store.queue = σ.store.queue.withJob old.id new id

section Turned

variable {platform : Platform} {timeline : Timeline} {n : Nat} {σ σ₁ σ' σ'' : Session}
  {change : JobChange} {old new : JobRow}

/-- The changed job was there. -/
theorem Turned.stored (h : Turned timeline σ σ' change old new) : old ∈ σ.store.queue.jobs := by
  obtain ⟨k, σ₁, habreast, hchanges⟩ := h.changed
  have hstored := (Table.find?_eq_some_iff.mp hchanges.found).1
  change old ∈ σ₁.store.queue.jobs at hstored
  rwa [habreast.queue] at hstored

/-- What was done to other areas before does not matter. -/
theorem Turned.after (h : Turned timeline σ₁ σ' change old new) (habreast : σ.Abreast σ₁) :
    Turned timeline σ σ' change old new where
  changed := by
    obtain ⟨k, σ₂, habreast', hchanges⟩ := h.changed
    exact ⟨k, σ₂, habreast.trans habreast', hchanges⟩
  id := h.id
  queue := by rw [h.queue, habreast.queue]

/-- What is done to other areas afterwards does not matter. -/
theorem Turned.before (h : Turned timeline σ σ' change old new) (habreast : σ'.Abreast σ'') :
    Turned timeline σ σ'' change old new where
  changed := h.changed
  id := h.id
  queue := habreast.queue.trans h.queue

/-- **The caller may write in the job's scope** at the turn. -/
theorem Turned.permitted (h : Turned timeline σ σ' change old new) (hkeys : ForeignKeys σ.store) :
    old.principalId = σ.principal ∧ ∃ k, (σ.view (timeline.moment k)).permitted old.scopeId .read = true
      ∧ (σ.view (timeline.moment k)).permitted old.scopeId .write = true := by
  obtain ⟨k, σ₁, habreast, hchanges⟩ := h.changed
  have hkeys₁ := habreast.keys hkeys
  have hupdatable := hchanges.updatable
  simp only [View.jobUpdatable, Bool.and_eq_true, decide_eq_true_eq] at hupdatable
  obtain ⟨⟨-, hwritable⟩, howner⟩ := hupdatable
  obtain ⟨o, ho, hkey⟩ := hkeys₁.queue.job_object.exists_parent
    (Table.find?_eq_some_iff.mp hchanges.found).1 rfl
  obtain ⟨hoid, hrest⟩ := Prod.mk.inj hkey
  rw [← hoid] at hwritable
  obtain ⟨⟨hread, -⟩, hwrite⟩ := (View.writable_object hkeys₁.marked ho).mp hwritable
  rw [(Prod.mk.inj hrest).1] at hread hwrite
  have hsame : ∀ permission, (σ₁.view (timeline.moment k)).permitted old.scopeId permission
      = (σ.view (timeline.moment k)).permitted old.scopeId permission := fun permission =>
    View.permitted_congr (v := σ.view (timeline.moment k)) (w := σ₁.view (timeline.moment k))
      (congrArg Access.members habreast.access) habreast.principal rfl _ _
  exact ⟨howner.trans habreast.principal, k, (hsame _).symm.trans hread, (hsame _).symm.trans hwrite⟩

/-- **An update** turns the job, or finds no row. -/
theorem outcome_update (id : UUID) (change : JobChange) :
    Outcome platform timeline (Jobs.update id change)
      (fun row _ σ' => (row = none ∧ σ.Abreast σ')
        ∨ ∃ old new, row = some new ∧ old.id = id ∧ Turned timeline σ σ' change old new)
      (fun _ => True) n σ := by
  refine outcome_sendReturning (fun returned σ' hstep => ?_) fun _ _ => trivial
  obtain ⟨-, hexec, hkeys, hprincipal, -⟩ := step_eq_ok.mp hstep
  simp only [Statement.exec, bind_eq_ok] at hexec
  obtain ⟨⟨row, q⟩, hqueue, hpure⟩ := hexec
  obtain ⟨rfl, hstore⟩ := Prod.mk.inj (Except.ok.inj hpure)
  have haccess : σ'.store.access = σ.store.access := by rw [← hstore]; rfl
  have hq : σ'.store.queue = q := by rw [← hstore]
  rcases QueueStatement.accepted hqueue with ⟨rfl, hsame⟩ | ⟨old, new, hid, hchanges, rfl, hsame⟩
  · exact outcome_pure (Or.inl ⟨rfl, hq.trans hsame, haccess, hprincipal, fun _ => hkeys.1⟩)
  · have hold : old.id = id := (Table.find?_eq_some_iff.mp hchanges.found).2
    subst hold
    refine outcome_pure (Or.inr ⟨old, new, rfl, rfl, ⟨n, σ, .refl σ, hchanges⟩, hid, ?_⟩)
    rw [hq, hsame]
    rfl

end Turned

/-! ## Licences -/

/-- **What a request may change of a job**: the request it takes, and what the program has checked. -/
def Request.Licenses (timeline : Timeline) (σ : Session) (request : Request) (old : JobRow) :
    JobChange → Prop
  | .cancel running attempt => ∃ data key, request = .cancel old.id data key
    ∧ running = data.expectedRunning ∧ attempt = data.expectedAttempt
  | .exhaust => (∃ seconds, request = .claim seconds) ∧ old.attempt = 5
  | .claim seconds => request = .claim seconds ∧ old.attempt ≠ 5 ∧ 1 ≤ seconds ∧ seconds ≤ 300
  | .heartbeat => ∃ token, request = .heartbeat old.id token ∧ Leased timeline σ old.id token true old
  | .publish token _ => ∃ prepared, request = .publish old.id token prepared
    ∧ Leased timeline σ old.id token true old ∧ old.payload = some prepared.dump
  | .fail again code => ∃ token retry, request = .fail old.id token code retry
    ∧ Leased timeline σ old.id token false old ∧ again = (retry && decide (old.attempt < 5))

/-- **A licensed turn**, or none. -/
def MayTurn (timeline : Timeline) (request : Request) (σ σ' : Session) : Prop :=
  σ'.store.queue = σ.store.queue
    ∨ ∃ change old new, request.Licenses timeline σ old change ∧ Turned timeline σ σ' change old new

section Requests

variable {platform : Platform} {timeline : Timeline} {n : Nat} {σ : Session}

/-- What follows the update of a job writes in other areas. -/
theorem outcome_rest {α : Type} {p : Tx α} {request : Request} {σ₁ : Session}
    (hp : Sends (Within [.operation]) p) (h : MayTurn timeline request σ σ₁) :
    Outcome platform timeline p (fun _ _ σ' => MayTurn timeline request σ σ') (fun _ => True) n σ₁ := by
  refine (outcome_abreast hp (by decide)).mono (fun _ _ σ' _ habreast => ?_) fun _ h => h
  rcases h with hsame | ⟨change, old, new, hlicensed, hturned⟩
  · exact Or.inl (habreast.queue.trans hsame)
  · exact Or.inr ⟨change, old, new, hlicensed, hturned.before habreast⟩

/-- **Cancelling** turns a job of the caller in the expected state. -/
theorem outcome_cancel (id : UUID) (data : CancelJob) (key : String) :
    Outcome platform timeline (Jobs.cancel platform id data key)
      (fun _ _ σ' => MayTurn timeline (.cancel id data key) σ σ') (fun _ => True) n σ := by
  refine outcome_read (outcome_bind (outcome_jobLoad id .write false) ?_)
  rintro job m σ' - ⟨rfl, -, -⟩
  refine outcome_demand (fun _ => ?_) fun _ => trivial
  refine outcome_once (fun _ _ _ _ _ => Or.inl rfl) fun m _ _ => ?_
  refine outcome_bind (outcome_update id _) fun row m σ₁ _ hupdate => ?_
  refine outcome_demand (fun hrow => ?_) fun _ => trivial
  have hrest : Sends (Within [.operation]) (do
      audit "job_cancelled" id
      saveResult .cancelJob (σ'.store.digest platform key)
        (σ'.store.digest platform (objectPayload "job_id" id data.dump)) (.job id)
      pure (Receipt.job id)) :=
    (within_audit (by decide) _ _).bind fun _ => (within_saveResult (by decide) _ _ _ _).bind
      fun _ => trivial
  refine outcome_rest hrest ?_
  rcases hupdate with ⟨rfl, -⟩ | ⟨old, new, -, rfl, hturned⟩
  · cases hrow
  · exact Or.inr ⟨.cancel _ _, old, new, ⟨data, key, rfl, rfl, rfl⟩, hturned⟩

/-- **A heartbeat** turns a leased job. -/
theorem outcome_heartbeat (id token : UUID) :
    Outcome platform timeline (Jobs.heartbeat id token)
      (fun _ _ σ' => MayTurn timeline (.heartbeat id token) σ σ') (fun _ => True) n σ := by
  refine outcome_bind (outcome_lease id token true) ?_
  rintro row m σ' - ⟨rfl, hleased⟩
  refine outcome_bind (outcome_update id .heartbeat) fun _ m σ₁ _ hupdate => outcome_pure ?_
  rcases hupdate with ⟨-, habreast⟩ | ⟨old, new, -, rfl, hturned⟩
  · exact Or.inl habreast.queue
  · obtain rfl : row = old := Table.eq_of_key_eq hleased.stored hturned.stored hleased.id
    exact Or.inr ⟨.heartbeat, row, new, ⟨token, rfl, hleased⟩, hturned⟩

/-- **A failure** turns a leased job, back to pending only while attempts remain. -/
theorem outcome_fail (id token : UUID) (code : JobError) (retry : Bool) :
    Outcome platform timeline (Jobs.fail id token code retry)
      (fun _ _ σ' => MayTurn timeline (.fail id token code retry) σ σ') (fun _ => True) n σ := by
  refine outcome_bind (outcome_lease id token false) ?_
  rintro row m σ' - ⟨rfl, hleased⟩
  refine outcome_bind (outcome_update id _) fun _ m σ₁ _ hupdate => ?_
  refine outcome_rest ((within_audit (by decide) _ _).bind fun _ => trivial) ?_
  rcases hupdate with ⟨-, habreast⟩ | ⟨old, new, -, rfl, hturned⟩
  · exact Or.inl habreast.queue
  · obtain rfl : row = old := Table.eq_of_key_eq hleased.stored hturned.stored hleased.id
    exact Or.inr ⟨.fail _ code, row, new, ⟨token, retry, rfl, hleased, rfl⟩, hturned⟩

/-- **What a claim returns**: nothing, a job whose attempts are used up, or the row that it wrote. -/
def Claims (timeline : Timeline) (seconds : Nat) (σ σ' : Session) : Option ClaimResult → Prop
  | none => σ'.store.queue = σ.store.queue
  | some (.failed id) => σ'.store.queue = σ.store.queue
    ∨ ∃ old new, old.id = id ∧ old.attempt = 5 ∧ Turned timeline σ σ' .exhaust old new
  | some (.claimed new) => (1 ≤ seconds ∧ seconds ≤ 300)
    ∧ ∃ old, old.attempt ≠ 5 ∧ Turned timeline σ σ' (.claim seconds) old new

/-- **A claim** turns a waiting job of the caller. -/
theorem outcome_claim (seconds : Nat) :
    Outcome platform timeline (Jobs.claim seconds)
      (fun result _ σ' => Claims timeline seconds σ σ' result) (fun _ => True) n σ := by
  unfold Jobs.claim
  split
  next hseconds =>
    refine outcome_readAt ?_
    split
    next => exact outcome_pure rfl
    next row hrow =>
      refine outcome_bind (outcome_jobLoad row.id .write false) ?_
      rintro job m σ' - ⟨rfl, hstored, hid⟩
      split
      next hfive =>
        refine outcome_bind (outcome_update row.id _) fun _ m σ₁ _ hupdate => ?_
        refine outcome_bind (outcome_abreast (sends_audited _ _) (by decide)) fun _ m σ₂ _ habreast => outcome_pure ?_
        rcases hupdate with ⟨-, hsame⟩ | ⟨old, new, -, hold, hturned⟩
        · exact Or.inl (habreast.queue.trans hsame.queue)
        · obtain rfl : job.row = old :=
            Table.eq_of_key_eq hstored hturned.stored (hid.trans hold.symm)
          exact Or.inr ⟨_, new, hold, hfive, hturned.before habreast⟩
      next hfive =>
        refine outcome_bind (outcome_update row.id _) fun _ m σ₁ _ hupdate => ?_
        refine outcome_found (fun claimed hclaimed => ?_) fun _ => trivial
        refine outcome_bind (outcome_abreast (sends_audited _ _) (by decide)) fun _ m σ₂ _ habreast => outcome_pure ?_
        rcases hupdate with ⟨rfl, -⟩ | ⟨old, new, rfl, hold, hturned⟩
        · cases hclaimed
        · cases hclaimed
          obtain rfl : job.row = old :=
            Table.eq_of_key_eq hstored hturned.stored (hid.trans hold.symm)
          exact ⟨hseconds, _, hfive, hturned.before habreast⟩
  next => exact outcome_raise trivial

/-- An update is a turn. -/
theorem within_turn (id : UUID) (change : JobChange) :
    Sends (Within [.turn]) (Jobs.update id change) := within_update (by decide) id change

/-- **A publication** turns a leased job with the prepared request, which it records under a free id. -/
theorem outcome_publish (id token : UUID) (prepared : Remember) (hkeys : ForeignKeys σ.store) :
    Outcome platform timeline (Jobs.publish platform id token prepared)
      (fun receipt _ σ' => ∃ old new result, receipt = .assertion result 1 ∧ old.id = id
        ∧ Leased timeline σ id token true old ∧ old.payload = some prepared.dump
        ∧ Turned timeline σ σ' (.publish token result) old new
        ∧ Fresh σ.store result ∧ σ'.store.Records result prepared) (fun _ => True) n σ := by
  refine outcome_bind (outcome_lease id token true) ?_
  rintro row m σ' - ⟨rfl, hleased⟩
  refine outcome_demand (fun hpayload => ?_) fun _ => trivial
  refine outcome_bind ((outcome_abreast (within_publishAssertion platform prepared) (by decide)).and
    (outcome_publishAssertion prepared hkeys)) fun receipt m σ₁ _ hpublished => ?_
  obtain ⟨habreast₁, result, rfl, hfresh, hrecords⟩ := hpublished
  refine outcome_found (fun memoryId hresult => ?_) fun _ => trivial
  obtain rfl : result = memoryId := Option.some.inj hresult
  refine outcome_bind ((outcome_update id _).and (outcome_contents (within_turn id _) hrecords (by decide) (by decide)))
    fun saved m σ₂ _ hupdate => ?_
  obtain ⟨hupdate, hrecords₂⟩ := hupdate
  refine outcome_demand (fun hsaved => ?_) fun _ => trivial
  refine outcome_bind ((outcome_abreast (sends_audited _ _) (by decide)).and
    (outcome_contents (sends_audited _ _) hrecords₂ (by decide) (by decide))) fun _ m σ₃ _ hend => outcome_pure ?_
  obtain ⟨habreast, hrecords₃⟩ := hend
  rcases hupdate with ⟨rfl, -⟩ | ⟨old, new, -, rfl, hturned⟩
  · cases hsaved
  · have hturned' := (hturned.after habreast₁).before habreast
    obtain rfl : row = old := Table.eq_of_key_eq hleased.stored hturned'.stored hleased.id
    exact ⟨row, new, result, rfl, rfl, hleased, of_decide_eq_true hpayload, hturned', hfresh, hrecords₃⟩

end Requests

end PgAgmemory

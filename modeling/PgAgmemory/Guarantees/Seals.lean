import PgAgmemory.Guarantees.Effects
import PgAgmemory.History.Checkpoints

/-! # Sealed runs

Once an effect of a run has been purged the run is closed for good (`runs_sealed`): no request brings a
checkpoint of it back, nothing is planned or dispatched in it, and the effects that survive are only read
and moved to their outcome. Over its whole life a run has a hundred effects at most, purged ones
included (`lifetimes_capped`). -/

namespace PgAgmemory

open Keyed (HasKey Table key)
open Interactive (Program)
open MemoryService

/-! ## What a sealed run refuses -/

section Refusals

variable {platform : Platform} {timeline : Timeline} {n : Nat} {σ : Session} {c : Call} {s : Store}
  {scope run : UUID}

/-- A request whose program does not return has no response. -/
theorem Call.exec_ne_ok {F : Fault → Prop}
    (h : Outcome platform c.timeline (c.request.program platform) (fun _ _ _ => False) F 0
      (.start c.principal s)) (r : Response) : (c.exec platform s).1 ≠ .ok r := by
  intro hok
  obtain ⟨-, -, hfalse, -⟩ := Call.exec_returns hok h
  exact hfalse

/-- A request fails when its part after the identification does. -/
theorem outcome_body_fails
    (h : ∀ m, Outcome platform timeline (c.request.body platform) (fun _ _ _ => False)
      (fun _ => True) m σ) :
    Outcome platform timeline (c.request.program platform) (fun _ _ _ => False) (fun _ => True) n σ := by
  refine outcome_bind (outcome_readOnly readOnly_bindIdentity fun _ => trivial) ?_
  rintro - m σ' - rfl
  exact h m

/-- A part that does not return. -/
theorem outcome_fails_bind {α β : Type} {p : Tx α} {k : α → Tx β} {Q : β → Nat → Session → Prop}
    (h : Outcome platform timeline p (fun _ _ _ => False) (fun _ => True) n σ) :
    Outcome platform timeline (p >>= k) Q (fun _ => True) n σ :=
  outcome_bind h fun _ _ _ _ hfalse => hfalse.elim

/-- **Without a row a checkpoint is not loaded.** -/
theorem outcome_checkpointLoad_none {id : UUID}
    (h : ∀ k ∈ σ.store.checkpointing.checkpoints, k.id ≠ id) (permission : Permission) :
    Outcome platform timeline (Checkpoints.load platform id permission) (fun _ _ _ => False)
      (fun _ => True) n σ := by
  refine (outcome_checkpointLoad id permission).mono ?_ fun _ h => h
  rintro saved m σ' - ⟨rfl, ⟨k, hk, -, -, -, hid, -⟩, -⟩
  exact h k hk hid

/-- A head is a checkpoint of its run. -/
theorem outcome_head_of (data : CheckpointBranch) :
    Outcome platform timeline (Checkpoints.head platform data)
      (fun _ _ _ => ∃ k ∈ σ.store.checkpointing.checkpoints,
        (k.scopeId, k.runId) = (data.scopeId, data.runId)) (fun _ => True) n σ := by
  refine outcome_bind (outcome_readOnly (readOnly_scope _ _) fun _ => trivial) ?_
  rintro - m σ' - rfl
  refine outcome_read (outcome_found (fun branch _ => ?_) fun _ => trivial)
  refine outcome_demand (fun _ => outcome_found (fun headId _ => ?_) fun _ => trivial) fun _ => trivial
  refine outcome_bind (outcome_envelope headId) ?_
  rintro e m' σ'' - ⟨rfl, -, id, -, -, ⟨k, hk, row, -, refs, -, -, -, hpayload, -⟩, -⟩
  refine outcome_demand (fun hmatches => outcome_pure ⟨k, hk, ?_⟩) fun _ => trivial
  simp only [Bool.and_eq_true, decide_eq_true_eq, hpayload] at hmatches
  exact Prod.ext hmatches.1.1.1 hmatches.1.1.2

/-- The checkpoints of a sealed run are gone. -/
theorem Sealed.no_row (hsealed : Sealed s scope run) {id : UUID}
    (hof : StandsFor (·.Of scope run) s id) : ∀ k ∈ s.checkpointing.checkpoints, k.id ≠ id :=
  fun k hk hid => hsealed.noCheckpoint k hk (hof.row k hk hid)

/-- **A sealed run gets no checkpoint**: its run row stays invalidated. -/
theorem outcome_ensureRun_sealed {data : CreateCheckpoint}
    (hsealed : Sealed σ.store data.scopeId data.runId) :
    Outcome platform timeline (Checkpoints.ensureRun data) (fun _ _ _ => False) (fun _ => True) n σ := by
  refine outcome_send (fun r σ₁ hstep => ?_) fun _ _ => trivial
  obtain ⟨row, hrow, hkey, hinvalidated⟩ := hsealed.invalidated
  have hkept : row ∈ σ₁.store.checkpointing.runs := by
    obtain ⟨_, checkpointing, hcheckpoint, hstore⟩ := Statement.accepted (step_eq_ok.mp hstep).2.1
    rw [hstore]
    obtain ⟨-, ⟨-, rfl⟩ | ⟨-, t, ht, rfl⟩⟩ := hcheckpoint
    · exact hrow
    · exact (Table.mem_insert? ht).mpr (Or.inr hrow)
  refine outcome_read (outcome_demand (fun hactive => ?_) fun _ => trivial)
  cases hrun : (σ₁.view (timeline.moment (n + 1))).run? data.scopeId data.runId with
  | none => trivial
  | some row' =>
    obtain ⟨hrow', hkey', -⟩ := View.run?_eq_some.mp hrun
    obtain rfl : row = row' := Table.eq_of_key_eq hkept hrow' (hkey.trans hkey'.symm)
    rw [hrun, Option.any_some, hinvalidated] at hactive
    cases hactive

/-- **A sealed run refuses `create`**, when the texts of the requests have different digests. -/
theorem outcome_create_sealed {data : CreateCheckpoint} {key : String} {texts : Set String}
    (hsealed : Sealed σ.store data.scopeId data.runId) (hreceipts : CreateReceipts platform texts σ.store)
    (hinjective : Set.InjOn (platform.hmac σ.store.access.dedupSecret)
      (insert (compactText data.dump) texts)) :
    Outcome platform timeline (Checkpoints.create platform data key) (fun _ _ _ => False)
      (fun _ => True) n σ := by
  refine outcome_bind ((outcome_scope data.scopeId .write).mono (fun _ _ _ _ h => h)
    fun _ _ => trivial) ?_
  rintro - m σ' - ⟨rfl, -⟩
  refine outcome_once (fun row m' _ hstored hdigest => ?_) fun m' _ _ => ?_
  · -- the receipt names a checkpoint of the run of this very request
    obtain ⟨data', ⟨htext, hdigest'⟩, id, hobjects, hcreated⟩ :=
      hreceipts row hstored.1 (Prod.mk.inj (Prod.mk.inj hstored.2).2).1
    have htexts : compactText data.dump = compactText data'.dump :=
      hinjective (Set.mem_insert _ _) (Set.mem_insert_of_mem _ htext) (hdigest.symm.trans hdigest')
    have hsame : data = data' := CreateCheckpoint.dump_inj.mp (compactText_injective htexts)
    subst hsame
    have hnone := hsealed.no_row ⟨hcreated.object, hcreated.run⟩
    unfold Checkpoints.replayed
    rw [hobjects]
    exact outcome_fails_bind (outcome_fails_bind
      (outcome_fails_bind (outcome_checkpointLoad_none hnone .write)))
  · exact outcome_fails_bind (outcome_ensureRun_sealed hsealed)

end Refusals

/-! ## Closed runs -/

/-- The texts of the `create` requests of a run of events. -/
def createTexts (events : List Event) : Set String := {text | ∃ e ∈ events, text ∈ e.createTexts}

/-- **A closed run**, whose checkpoints had these ids: it has no checkpoint, and no request brings one
back. -/
structure RunClosed (platform : Platform) (texts : Set String) (ids : Set UUID) (s : Store)
    (scope run : UUID) : Prop where
  checkpoints : ∀ k ∈ s.checkpointing.checkpoints, (k.scopeId, k.runId) ≠ (scope, run)
  /-- No request at all returns an envelope of the run. -/
  envelopes : ∀ (c : Call) e, (c.exec platform s).1 = .ok (.envelope e) →
    (e.saved.payload.scopeId, e.saved.payload.runId) ≠ (scope, run)
  heads : ∀ principal timeline data r, (data.scopeId, data.runId) = (scope, run) →
    (Call.exec platform ⟨principal, timeline, .checkpointHead data⟩ s).1 ≠ .ok r
  gets : ∀ principal timeline, ∀ id ∈ ids, ∀ r,
    (Call.exec platform ⟨principal, timeline, .checkpoint id⟩ s).1 ≠ .ok r
  restores : ∀ principal timeline data key r, data.checkpointId ∈ ids →
    (Call.exec platform ⟨principal, timeline, .restoreCheckpoint data key⟩ s).1 ≠ .ok r
  /-- No key revives a receipt of `create`, unless texts share a digest. -/
  creates : ∀ principal timeline data key r, (data.scopeId, data.runId) = (scope, run) →
    Set.InjOn (platform.hmac s.access.dedupSecret) (insert (compactText data.dump) texts) →
    (Call.exec platform ⟨principal, timeline, .createCheckpoint data key⟩ s).1 ≠ .ok r

/-- **A surviving effect** of a closed run: a caller who keeps the permissions reads it, and with storable
texts, a new key and a clock past its last revision moves it exactly where the transitions allow, but
never to dispatched. -/
structure Survives (platform : Platform) (s : Store) (e : ToolEffectRow)
    (r : ToolEffectRevisionRow) : Prop where
  reads : ∀ timeline principal, (s.access.principals.find? principal).isSome = true →
    Holds timeline (.start principal s) e.scopeId .read → ∃ detail,
      (Call.exec platform ⟨principal, timeline, .effect e.id⟩ s).1 = .ok (.effect detail)
        ∧ detail.effect.row = e ∧ detail.effect.status = r.status
  moves : ∀ timeline principal, Mover timeline principal s e r →
    ∀ (data : TransitionToolEffect) (key : String), data.Storable →
    (∀ row, ¬ (Session.start principal s).Stored platform .transitionToolEffect key row) →
    data.expectedRevision = e.currentRevision → data.status ∈ transitions r.status →
    (Call.exec platform ⟨principal, timeline, .transition e.id data key⟩ s).1
      = if data.status = .dispatched then .error (.memory .effectRunInvalidated)
        else .ok (.receipt (.effect e.id (e.currentRevision + 1) data.status))
  /-- Off the head or off the table nothing moves. -/
  refuses : ∀ timeline principal, Mover timeline principal s e r →
    ∀ (data : TransitionToolEffect) (key : String), data.Storable →
    (∀ row, ¬ (Session.start principal s).Stored platform .transitionToolEffect key row) →
    data.expectedRevision ≠ e.currentRevision ∨ data.status ∉ transitions r.status →
    ∃ code, Call.exec platform ⟨principal, timeline, .transition e.id data key⟩ s
        = (.error (.memory code), s) ∧ data.Refused s e r code

section Guarantee

variable {platform : Platform} {s : Store} {scope run : UUID}

/-- **A sealed run is closed.** -/
theorem Reachable.runClosed (hs : Reachable platform s) (hsealed : Sealed s scope run)
    {texts : Set String} (hreceipts : CreateReceipts platform texts s) {ids : Set UUID}
    (hids : ∀ id ∈ ids, StandsFor (·.Of scope run) s id) : RunClosed platform texts ids s scope run where
  checkpoints := hsealed.noCheckpoint
  envelopes c e h hof := by
    obtain ⟨⟨id, k, hk, n, -, refs, -, -, -, hpayload, -⟩, -⟩ :=
      Call.enveloped hs.integrity.foreign h
    obtain ⟨hstill, -⟩ : Sealed (c.exec platform s).2 scope run ∧ _ :=
      hs.sound.sealed hsealed (.call c)
    rw [hpayload] at hof
    exact hstill.noCheckpoint k hk hof
  heads principal timeline data r hof := by
    refine Call.exec_ne_ok (outcome_body_fails fun m => outcome_fails_bind ?_) r
    refine (outcome_head_of data).mono ?_ fun _ h => h
    rintro e m' σ' - ⟨k, hk, hkey⟩
    exact hsealed.noCheckpoint k hk (hkey.trans hof)
  gets principal timeline id hid r :=
    Call.exec_ne_ok (outcome_body_fails fun m => outcome_fails_bind
      (outcome_fails_bind (outcome_checkpointLoad_none (hsealed.no_row (hids id hid)) .read))) r
  restores principal timeline data key r hid :=
    Call.exec_ne_ok (outcome_body_fails fun m => outcome_fails_bind
      (outcome_fails_bind (outcome_checkpointLoad_none (hsealed.no_row (hids _ hid)) .write))) r
  creates principal timeline data key r hof hinjective := by
    obtain ⟨rfl, rfl⟩ := Prod.mk.inj hof
    exact Call.exec_ne_ok (outcome_body_fails fun m => outcome_fails_bind
      (outcome_create_sealed hsealed hreceipts hinjective)) r

/-- **The effects of a sealed run of an orderly store survive.** -/
theorem Orderly.survives (hs : Orderly platform s) (hsealed : Sealed s scope run) {e : ToolEffectRow}
    (he : e ∈ s.ledger.effects) (hof : e.Of scope run) {r : ToolEffectRevisionRow}
    (hr : s.ledger.Current e r) : Survives platform s e r where
  reads timeline principal hknown hread := by
    have hget : Outcome platform timeline (ToolEffects.get e.id)
        (fun detail _ _ => detail.effect.row = e ∧ detail.effect.status = r.status)
        (fun _ => False) 1 (.start principal s) :=
      (outcome_effectGet hs.reachable.sound.grounded he (hs.intact e.id).effect
        (hs.reachable.sequenced.recorded e he) hr hread).mono (fun _ _ _ _ h => h.2) fun _ h => h
    rcases Call.exec_reading (c := ⟨principal, timeline, .effect e.id⟩) (readOnly_effectGet e.id) rfl
      hs.reachable.integrity.deferred hknown hget with ⟨detail, hok, hdetail⟩ | ⟨-, -, hfalse⟩
    · exact ⟨detail, hok, hdetail⟩
    · exact hfalse.elim
  moves timeline principal hmover data key hstorable hfresh hexpected hfollows := by
    have hcomplete := (hs.intact e.id).effect
    have hinvalidated : s.checkpointing.Invalidated e.scopeId e.runId := by
      rw [(Prod.mk.inj hof).1, (Prod.mk.inj hof).2]
      exact hsealed.invalidated
    rcases attempt_transition hs.reachable.sound hs.reachable.sequenced he hr hmover hstorable hfresh
      with ⟨s', hok, hdata, -⟩ | ⟨code, herror, hrefused⟩
    · rw [if_neg fun hstatus => hdata.active hstatus hinvalidated, Call.exec, transact, hok]
    · rw [Call.exec, transact, herror]
      cases hrefused with
      | incomplete hmissing => exact absurd hcomplete hmissing
      | stale hstale => exact absurd hexpected hstale
      | forbidden hforbidden => exact absurd hfollows hforbidden
      | invalidated hstatus _ => rw [if_pos hstatus]
  refuses timeline principal hmover data key hstorable hfresh hoff := by
    rcases attempt_transition hs.reachable.sound hs.reachable.sequenced he hr hmover hstorable hfresh
      with ⟨s', -, hdata, -⟩ | ⟨code, herror, hrefused⟩
    · rcases hoff with hstale | hforbidden
      · exact absurd hdata.expected hstale
      · exact absurd hdata.follows hforbidden
    · exact ⟨code, by rw [Call.exec, transact, herror], hrefused⟩

/-- **An effect of a run is purged** between two stores. -/
def EffectPurged (s s' : Store) (scope run : UUID) : Prop :=
  ∃ e ∈ s.ledger.effects, e.Of scope run ∧ ∀ e' ∈ s'.ledger.effects, e'.id ≠ e.id

/-- A purged effect leaves its run sealed. -/
theorem Reachable.sealed_of_purged (hs : Reachable platform s) {events : List Event}
    (hpurged : EffectPurged s (runEvents platform events s) scope run) :
    Sealed (runEvents platform events s) scope run := by
  obtain ⟨e, he, hof, hgone⟩ := hpurged
  rcases hs.keptOrSealed he events with ⟨⟨n, hn⟩, -⟩ | hsealed
  · exact (hgone { e with currentRevision := n } hn rfl).elim
  · rw [(Prod.mk.inj hof).1, (Prod.mk.inj hof).2] at hsealed
    exact hsealed

/-- The ids of the checkpoints that a run has had by the end of a run of events. -/
def checkpointIds (platform : Platform) (s : Store) (events : List Event) (scope run : UUID) :
    Set UUID :=
  {id | ∃ k, ∃ c ∈ (runEvents platform (events.take k) s).checkpointing.checkpoints,
    c.Of scope run ∧ c.id = id}

theorem Reachable.checkpointIds (hs : Reachable platform s) (events : List Event) {id : UUID}
    (hid : id ∈ checkpointIds platform s events scope run) :
    StandsFor (·.Of scope run) (runEvents platform events s) id := by
  obtain ⟨k, c, hc, hof, rfl⟩ := hid
  have hbefore := hs.run (events.take k)
  have hthen : StandsFor (·.Of scope run) (runEvents platform (events.take k) s) c.id :=
    standsFor_of_mem hbefore.integrity.foreign hc hof
  have hlater := hthen.events hbefore (events.drop k)
  rw [← runEvents_append, List.take_append_drop] at hlater
  exact hlater

/-- **Sealed runs stay sealed**: in every run of events, once some effect of a run has been purged, the
run is closed from then on, nothing more is planned or dispatched in it, and where no purge is cut short
the effects that survive are still read, and moved to their outcome only. -/
theorem runs_sealed {access : Access} {past between later : List Event} {s s' s'' : Store}
    (hpast : runEvents platform past (.provisioned access) = s)
    (hbetween : runEvents platform between s = s') (hlater : runEvents platform later s' = s'')
    (hpurged : EffectPurged s s' scope run) :
    RunClosed platform (createTexts (past ++ between ++ later))
        (checkpointIds platform (.provisioned access) (past ++ between ++ later) scope run) s'' scope run
      ∧ s'.ledger.Ceased s''.ledger scope run
      ∧ (LastingRun platform (past ++ between ++ later) (.provisioned access) →
        ∀ e ∈ s''.ledger.effects, e.Of scope run →
          ∃ r, s''.ledger.Current e r ∧ Survives platform s'' e r) := by
  subst hpast hbetween
  have hstart : Reachable platform (.provisioned access) := .provisioned access
  have hwhole : runEvents platform (past ++ between ++ later) (.provisioned access) = s'' := by
    rw [runEvents_append, runEvents_append, hlater]
  have hend : Reachable platform s'' := hwhole ▸ hstart.run _
  obtain ⟨hsealed, hceased⟩ := ((hstart.run past).run between).sealed
    ((hstart.run past).sealed_of_purged hpurged) later
  rw [hlater] at hsealed hceased
  refine ⟨hend.runClosed hsealed ?_ fun id hid => hwhole ▸ hstart.checkpointIds _ hid, hceased,
    fun hlasting e he hof => ?_⟩
  · have hnone : CreateReceipts platform (createTexts (past ++ between ++ later))
        (.provisioned access) := fun r hr => absurd hr (Table.not_mem_empty r)
    rw [← hwhole]
    exact (hnone.run hstart.sound _ fun e he text htext => ⟨e, he, htext⟩).1
  · have horderly : Orderly platform s'' := hwhole ▸ (Orderly.provisioned access).run hlasting
    obtain ⟨r, hr⟩ := hend.integrity.deferred.exists_current he
    exact ⟨r, hr, horderly.survives hsealed he hof hr⟩

/-- **The lifetime of a run is capped**: over any run of events it has had a hundred effects at most,
those included that were purged meanwhile. -/
theorem lifetimes_capped (access : Access) (events : List Event) :
    (everPlanned platform (.provisioned access) events scope run).encard ≤ 100 :=
  ((Reachable.provisioned access).lifetime events).1

end Guarantee

/-! ## A small tenant -/

/-- Each principal plans an effect of the run 3: the effects 410 and 510. -/
def Event.planning : List Event := [
  .call ⟨1, .ticking 200 300, .createCheckpoint .brief "key"⟩,
  .call ⟨1, .ticking 400 400, .plan .brief "key"⟩,
  .call ⟨7, .ticking 600 500, .plan { PlanToolEffect.brief with operationId := 6 } "key"⟩]

/-- The first of the two effects is purged. -/
def Event.sealing : List Event :=
  [.call ⟨1, .ticking 800 1000, .forget { memoryIds := [410], reason := .brief } "forget"⟩]

/-- The small tenant with two effects of one run. -/
def Store.paired : Store := runEvents .blind Event.planning (.provisioned .pair)

/-- The small tenant after the purge of one of them. -/
def Store.parted : Store := runEvents .blind Event.sealing .paired

set_option maxRecDepth 10000 in
/-- One effect of the run is purged, the other survives. -/
theorem effectPurged_parted : EffectPurged .paired .parted 2 3
    ∧ ∃ e ∈ Store.parted.ledger.effects, e.Of 2 3 := by
  have hbefore : ∃ e ∈ Store.paired.ledger.effects.rows, (e.scopeId, e.runId) = (2, 3) ∧ e.id = 410 := by
    decide +kernel
  have hafter : ∀ e ∈ Store.parted.ledger.effects.rows, e.id ≠ 410 := by decide +kernel
  have hother : ∃ e ∈ Store.parted.ledger.effects.rows, (e.scopeId, e.runId) = (2, 3) := by decide +kernel
  obtain ⟨e, he, hof, hid⟩ := hbefore
  obtain ⟨e', he', hof'⟩ := hother
  exact ⟨⟨e, Table.mem_rows.mp he, hof, fun e' he' => hid ▸ hafter e' (Table.mem_rows.mpr he')⟩,
    e', Table.mem_rows.mp he', hof'⟩

/-- The surviving effect is to be dispatched. -/
def Event.dispatching : List Event := [.call ⟨7, .ticking 1000 1200, .transition 510 .dispatch "key"⟩]

/-- A transition of a planned effect to unknown. -/
def TransitionToolEffect.lose : TransitionToolEffect :=
  { TransitionToolEffect.abandon with
    expectedRevision := 1
    revisions := TransitionToolEffect.dispatch.revisions }

/-- A transition with the short reason and no receipt can be stored. -/
theorem TransitionToolEffect.Storable.brief {data : TransitionToolEffect} (hreason : data.reason = .brief)
    (hreceipt : data.receiptReference = none) : data.Storable where
  reason := by
    rw [hreason]
    decide +kernel
  receipt reference hreference := by
    rw [hreceipt] at hreference
    cases hreference

/-- A call of the other principal that moves the surviving effect. -/
def Call.moving (data : TransitionToolEffect) (key : String) : Call :=
  ⟨7, .ticking 1300 1400, .transition 510 data key⟩

set_option maxRecDepth 10000 in
/-- The survivor of the small tenant: its head, and its last revision before the calls that move it. -/
theorem survivor_parted : (∃ e ∈ (runEvents .blind Event.dispatching .parted).ledger.effects,
      e.Of 2 3 ∧ e.id = 510 ∧ e.currentRevision = 1)
    ∧ ∀ r ∈ (runEvents .blind Event.dispatching .parted).ledger.revisions,
      r.recordedAt < 1300 ∧ r.status = .planned := by
  have hhead : ∃ e ∈ (runEvents .blind Event.dispatching .parted).ledger.effects.rows,
      (e.scopeId, e.runId) = (2, 3) ∧ e.id = 510 ∧ e.currentRevision = 1 := by decide +kernel
  have hrevisions : ∀ r ∈ (runEvents .blind Event.dispatching .parted).ledger.revisions.rows,
      r.recordedAt < 1300 ∧ r.status = .planned := by decide +kernel
  obtain ⟨e, he, hof, hrest⟩ := hhead
  exact ⟨⟨e, Table.mem_rows.mp he, hof, hrest⟩, fun r hr => hrevisions r (Table.mem_rows.mpr hr)⟩

set_option maxRecDepth 10000 in
/-- No purge of the small tenant is cut short. -/
theorem lastingRun_parted :
    LastingRun .blind (Event.planning ++ Event.sealing ++ Event.dispatching) (.provisioned .pair) := by
  refine ⟨trivial, trivial, trivial, fun _ _ => Or.inr fun id hid scope hanchored => ?_, trivial, trivial⟩
  cases List.mem_singleton.mp hid
  have hobject : ∃ o ∈ Store.paired.anchor.objects.rows, o.id = 410 ∧ o.scopeId = 2 := by decide +kernel
  obtain ⟨o, ho, hid, hscope⟩ := hobject
  have hanchor : Anchored .paired 410 2 := ⟨o, Table.mem_rows.mp ho, hid, hscope⟩
  cases hanchored.unique hanchor
  have hheld : Holds (.ticking 800 1000) (.start 1 .paired) 2 .read := holds_of_lasting (by decide +kernel)
  exact hheld _

set_option maxRecDepth 10000 in
/-- The rule at the small tenant: its run is closed, and the effect that survives is given up, but
neither dispatched nor confirmed out of turn. -/
theorem runs_sealed_parted :
    RunClosed .blind (createTexts (Event.planning ++ Event.sealing ++ Event.dispatching))
        (checkpointIds .blind (.provisioned .pair)
          (Event.planning ++ Event.sealing ++ Event.dispatching) 2 3)
        (runEvents .blind Event.dispatching .parted) 2 3
      ∧ Store.parted.ledger.Ceased (runEvents .blind Event.dispatching .parted).ledger 2 3
      ∧ ((Call.moving .lose "key").exec .blind (runEvents .blind Event.dispatching .parted)).1
        = .ok (.receipt (.effect 510 2 .unknown))
      ∧ ((Call.moving .dispatch "key").exec .blind (runEvents .blind Event.dispatching .parted)).1
        = .error (.memory .effectRunInvalidated)
      ∧ ∃ code, (Call.moving .abandon "key").exec .blind (runEvents .blind Event.dispatching .parted)
        = (.error (.memory code), runEvents .blind Event.dispatching .parted) := by
  have hpast : runEvents .blind Event.planning (.provisioned .pair) = .paired := rfl
  have hbetween : runEvents .blind Event.sealing .paired = .parted := rfl
  have hlater : runEvents .blind Event.dispatching .parted
      = runEvents .blind Event.dispatching .parted := rfl
  -- Effect 510 survives the purge at revision 1, planned: it can be lost, but not dispatched.
  obtain ⟨hclosed, hceased, hsurvives⟩ := runs_sealed hpast hbetween hlater effectPurged_parted.1
  obtain ⟨⟨e, he, hof, hid, hhead⟩, hrevisions⟩ := survivor_parted
  obtain ⟨r, hr, hsurvivor⟩ := hsurvives lastingRun_parted e he hof
  obtain ⟨hpast, hplanned⟩ := hrevisions r hr.1.1
  have hheld : ∀ permission ∈ [Permission.read, .write],
      Holds (.ticking 1300 1400) (.start 7 (runEvents .blind Event.dispatching .parted)) 2
        permission := by
    intro permission hpermission
    rcases List.mem_cons.mp hpermission with rfl | hpermission
    · exact holds_of_lasting (by decide +kernel)
    · cases List.mem_singleton.mp hpermission
      exact holds_of_lasting (by decide +kernel)
  have hscope : e.scopeId = 2 := (Prod.mk.inj hof).1
  have hmover : Mover (.ticking 1300 1400) 7 (runEvents .blind Event.dispatching .parted) e r := by
    refine ⟨by decide +kernel, ?_, ?_, fun k => ?_⟩
    · rw [hscope]
      exact hheld .read List.mem_cons_self
    · rw [hscope]
      exact hheld .write (List.mem_cons_of_mem _ List.mem_cons_self)
    · exact lt_of_lt_of_le hpast ((Timeline.ticking 1300 1400).mono _ _ (Nat.zero_le k))
  have hfresh : ∀ row, ¬ (Session.start 7 (runEvents .blind Event.dispatching .parted)).Stored .blind
      .transitionToolEffect "key" row := by
    have hnone : ∀ row ∈ (runEvents .blind Event.dispatching .parted).operations.receipts.rows,
        (row.principalId, row.operation) ≠ (7, .transitionToolEffect) := by decide +kernel
    rintro row ⟨hrow, hkey⟩
    obtain ⟨hprincipal, hrest⟩ := Prod.mk.inj hkey
    exact hnone row (Table.mem_rows.mpr hrow) (Prod.ext hprincipal (Prod.mk.inj hrest).1)
  have hmoves := hsurvivor.moves _ _ hmover
  have hrefuses := hsurvivor.refuses _ _ hmover .abandon "key" (.brief rfl rfl)
    hfresh (Or.inl (by rw [hhead]; decide))
  rw [hid] at hmoves hrefuses
  refine ⟨hclosed, hceased, ?_, ?_, ?_⟩
  · have hlost := hmoves .lose "key" (.brief rfl rfl) hfresh hhead.symm (by rw [hplanned]; decide)
    rw [if_neg (by decide), hhead] at hlost
    exact hlost
  · exact hmoves .dispatch "key" (.brief rfl rfl) hfresh hhead.symm (by rw [hplanned]; decide)
  · exact hrefuses.imp fun _ h => h.1

end PgAgmemory

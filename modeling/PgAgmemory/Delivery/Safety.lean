import PgAgmemory.Delivery.Traffic
import PgAgmemory.Guarantees.AccessLog
import PgAgmemory.History.Seals

/-! # What the lock keeps

The invariant of the machine of a tenant (`Deployment.Sane`): whoever is in a transaction holds the
lock and has seen the store that is there, so that every committed transaction is the one that would
have run by itself, in the order of the log. `Deployment.Standing` says for each phase what a party has
sent, has committed and holds; a step of one party leaves the others where they stand (`Beside`). -/

namespace PgAgmemory

open Interactive (Program)
open Interactive.Program (Recorded Reached)

/-! ## Principals stay -/

/-- The principals of a tenant never change. -/
theorem Sound.principals {platform : Platform} {s : Store} (hs : Sound s) (e : Event) :
    (e.exec platform s).access.principals = s.access.principals := by
  cases e with
  | call c =>
    change (c.exec platform s).2.access.principals = _
    rcases c.exec_cases platform s with ⟨fault, hexec⟩ | ⟨response, s', hok, hexec⟩
    · rw [hexec]
    · rw [hexec]
      rcases hs.attempt_cases hok with hdeletes | rfl | ⟨gone, hpurged⟩
      · obtain ⟨n, σ, rfl, -, hgrown, -⟩ := Request.attempt_invariant (c := c.setting platform s)
          (I := fun σ => Grown s σ.store) hs.integrity.foreign hdeletes rfl (.refl s)
          (fun st n σ r σ' _ hgrown hallow hrun =>
            hgrown.trans (step_grown hallow.quiet hrun)) hok
        exact congrArg Access.principals hgrown.access
      · rfl
      · exact (congrArg Access.principals hpurged.access).trans rfl
  | access request now recordedAt =>
    rw [Event.exec]
    cases hrun : request.run now recordedAt s with
    | error e => rfl
    | ok result =>
      obtain ⟨r, s'⟩ := result
      have hruns := ScopeAccessRequest.runs hrun
      show s'.access.principals = s.access.principals
      cases hchanged : r.changed with
      | false => exact congrArg (·.access.principals) (hruns.stays hchanged)
      | true =>
        obtain ⟨-, -, -, event, hevent, -⟩ := hruns.changes hchanged
        exact hevent.others.2.2.1

/-- The principals after a run are those before it. -/
theorem Reachable.principals {platform : Platform} {s : Store} (h : Reachable platform s)
    (events : List Event) :
    (runEvents platform events s).access.principals = s.access.principals := by
  induction events generalizing s with
  | nil => rfl
  | cons e events ih => rw [runEvents_cons, ih (.event e h), h.sound.principals]

/-! ## Transactions that have come to their end -/

section Ends

variable {app : Application} {principal : UUID} {s after : Store} {incoming : Incoming}
  {body : Bytes} {timeline : Timeline}

/-- **A transaction run statement by statement** is the transaction on the timeline of its moments. -/
theorem attempt_of_reached {α : Type} {platform : Platform} {p : Tx α} {a : α} {session : Session}
    {elapsed : Elapsed} {m : Moment} (hm : elapsed.Before m)
    (h : Reached (step platform) p (.start principal s) elapsed.used (.pure a) session)
    (hcommit : PgAgmemory.commit m session = .ok after) :
    attempt platform (elapsed.timeline m hm) principal p s = .ok (a, after) := by
  have hrecorded : Recorded (elapsed.timeline m hm).moment elapsed.used := by
    intro i u hu
    change elapsed.used.getD i m = u
    rw [List.getD_eq_getElem?_getD, hu]
    rfl
  have hlast : (elapsed.timeline m hm).moment elapsed.used.length = m := by
    change elapsed.used.getD _ m = m
    rw [List.getD_eq_getElem?_getD, List.getElem?_eq_none (Nat.le_refl _)]
    rfl
  refine attempt_eq_ok.mpr ⟨_, _, h.run hrecorded, ?_⟩
  rw [hlast]
  exact hcommit

/-- **What a request's transaction ends with**: the response of its call, or the answer to what is no
request. -/
theorem attempt_serve {served : Served}
    (h : attempt app.platform timeline principal (app.serve incoming body) s = .ok (served, after)) :
    (∃ malformed, served = .refused (validationReply malformed incoming.requestId) ∧ after = s)
      ∨ ∃ request response, app.parse incoming.path incoming.idempotencyKey body = .ok request
        ∧ Call.exec app.platform ⟨principal, timeline, request⟩ s = (.ok response, after)
        ∧ served = app.served request response := by
  obtain ⟨n, session, hrun, hcommit⟩ := attempt_eq_ok.mp h
  obtain ⟨u, k, t, hbind, hrest⟩ := (Program.run_bind_eq_ok _ _).mp hrun
  cases hparse : app.parse incoming.path incoming.idempotencyKey body with
  | error malformed =>
    rw [hparse] at hrest
    cases hrest
    refine Or.inl ⟨malformed, rfl, ?_⟩
    have hsame := readOnly_bindIdentity.run_eq _ _ hbind
    rw [← (commit_eq_ok.mp hcommit).2, hsame]
    rfl
  | ok request =>
    rw [hparse] at hrest
    obtain ⟨response, k', t', hbody, hpure⟩ := (Program.run_bind_eq_ok _ _).mp hrest
    cases hpure
    refine Or.inr ⟨request, response, rfl, transact_eq_ok.mpr (attempt_eq_ok.mpr ?_), rfl⟩
    exact ⟨_, _, (Program.run_bind_eq_ok _ _).mpr ⟨u, k, t, hbind, hbody⟩, hcommit⟩

/-- **What a worker's transaction ends with**: the response of its call. -/
theorem attempt_work {request : Request} {served : Served}
    (h : attempt app.platform timeline principal (app.work request) s = .ok (served, after)) :
    ∃ response, Call.exec app.platform ⟨principal, timeline, request⟩ s = (.ok response, after)
      ∧ served = .answered request response none := by
  obtain ⟨n, session, hrun, hcommit⟩ := attempt_eq_ok.mp h
  obtain ⟨u, k, t, hbind, hrest⟩ := (Program.run_bind_eq_ok _ _).mp hrun
  obtain ⟨response, k', t', hbody, hpure⟩ := (Program.run_bind_eq_ok _ _).mp hrest
  cases hpure
  refine ⟨response, transact_eq_ok.mpr (attempt_eq_ok.mpr ?_), rfl⟩
  exact ⟨_, _, (Program.run_bind_eq_ok _ _).mpr ⟨u, k, t, hbind, hbody⟩, hcommit⟩

end Ends

/-! ## Where parties stand -/

variable {Party : Type}

/-- A party that has neither sent nor committed anything. -/
structure Traffic.Quiet (T : Traffic Party) (p : Party) : Prop where
  silent : T.wire p = []
  uncommitted : ∀ entry ∈ T.log, entry.party ≠ p

/-- A party in its transaction: it holds the lock and has seen the store that is there. -/
structure Traffic.Alone (T : Traffic Party) (p : Party) (base : Store) : Prop where
  quiet : T.Quiet p
  holds : T.holder = some p
  current : T.store = base

/-- **An error may be answered** to a party: it is no success, and a server error if the party has
committed. -/
structure Traffic.Fair (T : Traffic Party) (p : Party) (error : MemoryError) : Prop where
  failure : 400 ≤ error.status
  unknown : ∀ entry ∈ T.log, entry.party = p → 500 ≤ error.status

namespace Deployment

variable (d : Deployment Party)

/-- What a party has sent belongs to a transaction that it has committed. -/
def Told (T : Traffic Party) (p : Party) : Prop :=
  ∃ entry ∈ T.log, entry.party = p ∧ T.wire p <+: d.buffered p entry.reply

/-- What a party has sent belongs to an error that may be answered to it. -/
def Excused (T : Traffic Party) (p : Party) : Prop :=
  ∃ error : MemoryError, T.Fair p error ∧ T.wire p <+: error.messages (d.requestId p)

/-- The principal of a party: that of the subject of its token, or of the worker. -/
def Identifies (s : Store) (p : Party) (principal : UUID) : Prop :=
  ∃ row ∈ s.access.principals, row.id = principal
    ∧ match d.work p with
      | .http incoming => incoming.subject? d.app.verify = some row.externalSubject
      | .job subject _ => subject = row.externalSubject
      | .access _ => False

/-- The subject of a party that connects. -/
def Subject (p : Party) (subject : String) : Prop :=
  match d.work p with
  | .http incoming => incoming.subject? d.app.verify = some subject
  | .job subject' _ => subject' = subject
  | .access _ => False

/-- **What a party has done in a phase.** -/
def Standing (s : Store) (T : Traffic Party) (p : Party) : Phase → Prop
  | .reading subject | .connecting subject => T.Quiet p ∧ d.Subject p subject
  | .waiting principal => T.Quiet p ∧ d.Identifies s p principal
  | .queued | .severed => T.Quiet p
  | .working principal base elapsed rest session => T.Alone p base ∧ d.Identifies s p principal
    ∧ Reached (step d.app.platform) (d.program p (T.heard p)) (.start principal base) elapsed.used rest
      session
  | .administering => T.Quiet p ∧ T.holder = some p
  | .administered base after now recordedAt => T.Alone p base
    ∧ ∃ request result, d.work p = .access request
      ∧ request.run now recordedAt base = .ok (result, after)
  | .unwinding raised => T.wire p = [] ∧ ∀ error, raised.error? = some error → T.Fair p error
  | .sending rest => ∃ before entry after, T.log = before ++ entry :: after ∧ entry.party = p
    ∧ T.wire p ++ rest = d.buffered p entry.reply ∧ (T.holder = some p → after = [])
  | .closing => d.Told T p
  | .answering rest => ∃ error : MemoryError, T.Fair p error
    ∧ T.wire p ++ rest = error.messages (d.requestId p)
  | .finished => T.wire p = [] ∨ d.Told T p ∨ d.Excused T p

/-- **What a logged transaction is**: the call that its party asked for, as it runs by itself from a
store, and the reply to its response. -/
def Justified (s : Store) (heard : Party → Bytes) (before : Store) (entry : Entry Party) : Prop :=
  match d.work entry.party, entry.event with
  | .http incoming, some (.call c) => d.Identifies s entry.party c.principal
    ∧ d.app.parse incoming.path incoming.idempotencyKey (heard entry.party) = .ok c.request
    ∧ ∃ response status content, (c.exec d.app.platform before).1 = .ok response
      ∧ c.request.successStatus = some status ∧ d.app.render response = some content
      ∧ entry.reply = some ⟨status, content⟩
  | .http incoming, none => ∃ malformed, entry.reply = some (validationReply malformed incoming.requestId)
  | .job _ request, some (.call c) => d.Identifies s entry.party c.principal ∧ c.request = request
    ∧ entry.reply = none ∧ ∃ response, (c.exec d.app.platform before).1 = .ok response
  | .access request, some (.access request' now recordedAt) => request' = request ∧ entry.reply = none
    ∧ ∃ result, request.run now recordedAt before = .ok result
  | _, _ => False

/-- **The invariant of a tenant.** -/
structure Sane (s : Store) (T : Traffic Party) : Prop where
  /-- The store is that of the logged transactions, one after the other. -/
  serial : T.store = runEvents d.app.platform (loggedEvents T.log) s
  /-- No party commits twice. -/
  once : (T.log.map Entry.party).Nodup
  justified : ∀ before entry after, T.log = before ++ entry :: after →
    d.Justified s T.heard (runEvents d.app.platform (loggedEvents before) s) entry
  standing : ∀ p, d.Standing s T p (T.phase p)

end Deployment

/-! ## Frames -/

/-- **What a party stands on is alike** before and after: what it has heard and sent, whether it holds the
lock, and the store and the log, unless it does not hold the lock and another party commits. -/
structure Traffic.Alike (p : Party) (T T' : Traffic Party) : Prop where
  heard : T'.heard p = T.heard p
  wire : T'.wire p = T.wire p
  holder : T'.holder = some p ↔ T.holder = some p
  committed : (T'.store = T.store ∧ T'.log = T.log)
    ∨ (T.holder ≠ some p ∧ ∃ entry : Entry Party, entry.party ≠ p ∧ T'.log = T.log ++ [entry])

section Frames

variable {d : Deployment Party} {s : Store} {T T' : Traffic Party} {p : Party}

/-- Entries stay. -/
theorem Traffic.Alike.mem_log (h : T.Alike p T') {entry : Entry Party} (hentry : entry ∈ T.log) :
    entry ∈ T'.log := by
  rcases h.committed with ⟨-, hlog⟩ | ⟨-, new, -, hlog⟩
  · rw [hlog]
    exact hentry
  · rw [hlog]
    exact List.mem_append_left _ hentry

/-- The entries of the party are those from before. -/
theorem Traffic.Alike.mem_old (h : T.Alike p T') {entry : Entry Party} (hentry : entry ∈ T'.log)
    (hparty : entry.party = p) : entry ∈ T.log := by
  rcases h.committed with ⟨-, hlog⟩ | ⟨-, new, hnew, hlog⟩
  · rw [← hlog]
    exact hentry
  · rw [hlog] at hentry
    rcases List.mem_append.mp hentry with hold | hlast
    · exact hold
    · rw [List.mem_singleton.mp hlast] at hparty
      exact absurd hparty hnew

theorem Traffic.Quiet.alike (hq : T.Quiet p) (h : T.Alike p T') : T'.Quiet p where
  silent := h.wire.trans hq.silent
  uncommitted entry hentry hparty := hq.uncommitted entry (h.mem_old hentry hparty) hparty

theorem Traffic.Alone.alike {base : Store} (ha : T.Alone p base) (h : T.Alike p T') :
    T'.Alone p base where
  quiet := ha.quiet.alike h
  holds := h.holder.mpr ha.holds
  current := by
    rcases h.committed with ⟨hstore, -⟩ | ⟨hfree, -⟩
    · rw [hstore]
      exact ha.current
    · exact absurd ha.holds hfree

theorem Traffic.Fair.alike {error : MemoryError} (hf : T.Fair p error) (h : T.Alike p T') :
    T'.Fair p error where
  failure := hf.failure
  unknown entry hentry hparty := hf.unknown entry (h.mem_old hentry hparty) hparty

theorem Deployment.Told.alike (ht : d.Told T p) (h : T.Alike p T') : d.Told T' p := by
  obtain ⟨entry, hentry, hparty, hwire⟩ := ht
  refine ⟨entry, h.mem_log hentry, hparty, ?_⟩
  rw [h.wire]
  exact hwire

theorem Deployment.Excused.alike (he : d.Excused T p) (h : T.Alike p T') : d.Excused T' p := by
  obtain ⟨error, hfair, hwire⟩ := he
  refine ⟨error, hfair.alike h, ?_⟩
  rw [h.wire]
  exact hwire

/-- **Frame lemma**: a party stands where it stood. -/
theorem Deployment.Standing.alike {phase : Phase} (hs : d.Standing s T p phase) (h : T.Alike p T') :
    d.Standing s T' p phase := by
  cases phase with
  | reading subject => exact ⟨hs.1.alike h, hs.2⟩
  | connecting subject => exact ⟨hs.1.alike h, hs.2⟩
  | waiting principal => exact ⟨hs.1.alike h, hs.2⟩
  | queued => exact Traffic.Quiet.alike hs h
  | severed => exact Traffic.Quiet.alike hs h
  | working principal base elapsed rest session =>
    obtain ⟨halone, hidentifies, hreached⟩ := hs
    refine ⟨halone.alike h, hidentifies, ?_⟩
    rw [h.heard]
    exact hreached
  | administering => exact ⟨hs.1.alike h, h.holder.mpr hs.2⟩
  | administered base after now recordedAt => exact ⟨hs.1.alike h, hs.2⟩
  | unwinding raised =>
    exact ⟨h.wire.trans hs.1, fun error herror => (hs.2 error herror).alike h⟩
  | sending rest =>
    obtain ⟨before, entry, after, hlog, hparty, hwire, hlast⟩ := hs
    rw [← h.wire] at hwire
    rcases h.committed with ⟨-, hsame⟩ | ⟨hfree, new, -, hnew⟩
    · refine ⟨before, entry, after, hsame.trans hlog, hparty, hwire, fun hholds => ?_⟩
      exact hlast (h.holder.mp hholds)
    · refine ⟨before, entry, after ++ [new], ?_, hparty, hwire, fun hholds => ?_⟩
      · rw [hnew, hlog, List.append_assoc, List.cons_append]
      · exact absurd (h.holder.mp hholds) hfree
  | closing => exact Deployment.Told.alike hs h
  | answering rest =>
    obtain ⟨error, hfair, hwire⟩ := hs
    rw [← h.wire] at hwire
    exact ⟨error, hfair.alike h, hwire⟩
  | finished =>
    rcases hs with hsilent | htold | hexcused
    · exact Or.inl (h.wire.trans hsilent)
    · exact Or.inr (Or.inl (htold.alike h))
    · exact Or.inr (Or.inr (hexcused.alike h))

/-- **A step of one party** leaves the others where they are. -/
structure Traffic.Beside (p : Party) (T T' : Traffic Party) : Prop where
  phase : ∀ q, q ≠ p → T'.phase q = T.phase q
  alike : ∀ q, q ≠ p → T.Alike q T'

/-- **Step rule**, for a step that commits nothing. -/
theorem Deployment.Sane.step (h : d.Sane s T) (hbeside : T.Beside p T')
    (hstore : T'.store = T.store) (hlog : T'.log = T.log)
    (hheard : T'.heard p = T.heard p ∨ T.Quiet p) (hp : d.Standing s T' p (T'.phase p)) :
    d.Sane s T' where
  serial := by rw [hstore, hlog, h.serial]
  once := by rw [hlog]; exact h.once
  justified before entry after heq := by
    rw [hlog] at heq
    have hsame : T'.heard entry.party = T.heard entry.party := by
      by_cases hparty : entry.party = p
      · rcases hheard with hsame | hquiet
        · rw [hparty, hsame]
        · have hentry : entry ∈ T.log := by rw [heq]; simp
          exact absurd hparty (hquiet.uncommitted entry hentry)
      · exact (hbeside.alike _ hparty).heard
    have hold := h.justified before entry after heq
    unfold Deployment.Justified at hold ⊢
    rw [hsame]
    exact hold
  standing q := by
    by_cases hq : q = p
    · rw [hq]
      exact hp
    · rw [hbeside.phase q hq]
      exact (h.standing q).alike (hbeside.alike q hq)

/-- **Step rule** for a commit: the new entry is justified at the store before it, and its event leads to
the store after it. -/
theorem Deployment.Sane.committed (h : d.Sane s T) (entry : Entry Party) (hbeside : T.Beside p T')
    (hlog : T'.log = T.log ++ [entry]) (hheard : T'.heard = T.heard) (hparty : entry.party = p)
    (hquiet : T.Quiet p) (hjustified : d.Justified s T.heard T.store entry)
    (hstore : T'.store = runEvents d.app.platform entry.event.toList T.store)
    (hp : d.Standing s T' p (T'.phase p)) : d.Sane s T' where
  serial := by
    rw [hstore, hlog, loggedEvents, List.filterMap_append, runEvents_append]
    change _ = runEvents d.app.platform (loggedEvents [entry])
      (runEvents d.app.platform (loggedEvents T.log) s)
    rw [← h.serial, loggedEvents]
    cases hevent : entry.event with
    | none => rw [List.filterMap_cons_none hevent]; rfl
    | some event => rw [List.filterMap_cons_some hevent]; rfl
  once := by
    rw [hlog, List.map_append, List.map_singleton]
    refine h.once.append (List.nodup_singleton _) ?_
    rw [List.disjoint_singleton, hparty]
    intro hmem
    obtain ⟨old, hold, heq⟩ := List.mem_map.mp hmem
    exact hquiet.uncommitted old hold heq
  justified before e after heq := by
    rw [hlog] at heq
    rw [hheard]
    rcases List.eq_nil_or_concat after with rfl | ⟨init, last, rfl⟩
    · obtain ⟨rfl, hlast⟩ := List.append_inj' heq rfl
      cases hlast
      rw [← h.serial]
      exact hjustified
    · have hsplit : T.log ++ [entry] = (before ++ e :: init) ++ [last] := by
        rw [heq, List.append_assoc, List.cons_append, List.concat_eq_append]
      obtain ⟨hinit, -⟩ := List.append_inj' hsplit rfl
      exact h.justified before e init hinit
  standing q := by
    by_cases hq : q = p
    · rw [hq]
      exact hp
    · rw [hbeside.phase q hq]
      exact (h.standing q).alike (hbeside.alike q hq)

end Frames

end PgAgmemory

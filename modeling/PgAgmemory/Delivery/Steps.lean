import PgAgmemory.Delivery.Safety

/-! # Every step keeps a tenant sane

One lemma a kind of step, and from these the invariant of whatever a run of the parties leads to
(`Deployment.Sane.run`). -/

namespace PgAgmemory

open Interactive (Program)
open Interactive.Program (interactOnce Reached value?_eq_some)

variable {Party : Type} {d : Deployment Party} {s : Store} {T T' : Traffic Party} {p : Party}

/-! ## Errors -/

/-- An error may be answered to a party that has committed nothing. -/
theorem Traffic.Quiet.fair {error : MemoryError} (hq : T.Quiet p) (hstatus : 400 ≤ error.status) :
    T.Fair p error :=
  ⟨hstatus, fun entry hentry hparty => absurd hparty (hq.uncommitted entry hentry)⟩

/-- An exception from outside is answered with a server error, if at all. -/
theorem Raised.error?_interrupts {raised : Raised} (h : raised.interrupts = true) {error : MemoryError}
    (herror : raised.error? = some error) : 500 ≤ error.status := by
  cases raised with
  | dependency => cases herror; decide
  | database => cases herror; decide
  | other => cases herror
  | invalidToken => cases h
  | memory error => cases h

/-- So it may be answered to any party. -/
theorem Raised.fair (raised : Raised) (h : raised.interrupts = true) (T : Traffic Party) (p : Party)
    {error : MemoryError} (herror : raised.error? = some error) : T.Fair p error :=
  ⟨Nat.le_trans (by decide) (Raised.error?_interrupts h herror),
    fun _ _ _ => Raised.error?_interrupts h herror⟩

/-- **Where an exception leaves a party** that has sent nothing. -/
theorem Deployment.standing_failed {raised : Raised} (hsilent : T.wire p = [])
    (hfair : ∀ error, raised.error? = some error → T.Fair p error) :
    d.Standing s T p (d.failed p raised) := by
  unfold Deployment.failed
  cases hwork : d.work p with
  | job subject request => exact Or.inl hsilent
  | access request => exact Or.inl hsilent
  | http incoming =>
    cases herror : raised.error? with
    | none => exact Or.inl hsilent
    | some error =>
      refine ⟨error, hfair error herror, ?_⟩
      rw [hsilent, List.nil_append, Deployment.requestId, hwork]

/-- A party that sends has told what it has committed. -/
theorem Deployment.told_of_sending {rest : List Message} (h : d.Standing s T p (.sending rest)) :
    d.Told T p := by
  obtain ⟨before, entry, after, hlog, hparty, hwire, -⟩ := h
  refine ⟨entry, ?_, hparty, rest, hwire⟩
  rw [hlog]
  exact List.mem_append_right _ List.mem_cons_self

/-! ## Transactions -/

/-- What a party in a transaction has done: nothing yet. -/
theorem Deployment.Sane.quiet (h : d.Sane s T) (hin : (T.phase p).inTransaction = true) :
    T.Quiet p ∧ T.holder = some p := by
  have hstanding := h.standing p
  cases hphase : T.phase p <;> rw [hphase] at hin hstanding <;> try cases hin
  case working => exact ⟨hstanding.1.quiet, hstanding.1.holds⟩
  case administering => exact hstanding
  case administered => exact ⟨hstanding.1.quiet, hstanding.1.holds⟩

/-- The lock is free, and a party takes it. -/
theorem Deployment.Sane.acquire (h : d.Sane s T) (hfree : T.holder = none) (p : Party)
    (hwaits : d.Standing s { T with holder := some p } p (T.phase p)) :
    d.Sane s { T with holder := some p } := by
  refine h.step (p := p) ⟨fun _ _ => rfl, fun q hq => ?_⟩ rfl rfl (.inl rfl) hwaits
  refine ⟨rfl, rfl, ?_, Or.inl ⟨rfl, rfl⟩⟩
  rw [hfree]
  exact iff_of_false (fun heq => hq (Option.some.inj heq).symm) fun heq => by cases heq

/-- **A transaction sees nothing but its own changes**: nobody else has committed. -/
theorem Traffic.Alone.refreshed {base : Store} (h : T.Alone p base) (session : Session) :
    d.refreshed T base session = session := by
  unfold Deployment.refreshed
  rw [h.current, d.merge_same]

/-! ## Going on -/

variable [DecidableEq Party]

@[simp] theorem Traffic.set_phase_self (phase : Phase) : (T.set p phase).phase p = phase :=
  Function.update_self _ _ _

/-- A party may go on to where it stands. -/
theorem Deployment.Sane.set {phase : Phase} (h : d.Sane s T) (hp : d.Standing s T p phase) :
    d.Sane s (T.set p phase) := by
  refine h.step (p := p) ⟨fun q hq => Function.update_of_ne hq _ _, fun q _ => ?_⟩ rfl rfl (.inl rfl) ?_
  · exact ⟨rfl, rfl, Iff.rfl, Or.inl ⟨rfl, rfl⟩⟩
  · rw [Traffic.set_phase_self]
    exact Deployment.Standing.alike hp ⟨rfl, rfl, Iff.rfl, Or.inl ⟨rfl, rfl⟩⟩

/-! ## Before the lock -/

/-- What a party hears while it has done nothing. -/
theorem Deployment.Sane.hear {subject : String} (h : d.Sane s T)
    (hphase : T.phase p = .reading subject) (body : Bytes) :
    d.Sane s { T with heard := Function.update T.heard p body } := by
  have hstanding := h.standing p
  rw [hphase] at hstanding
  obtain ⟨hquiet, hsubject⟩ := hstanding
  refine h.step (p := p) ⟨fun _ _ => rfl, fun q hq => ?_⟩ rfl rfl (.inr hquiet) ?_
  · exact ⟨Function.update_of_ne hq _ _, rfl, Iff.rfl, Or.inl ⟨rfl, rfl⟩⟩
  · rw [hphase]
    exact ⟨⟨hquiet.silent, hquiet.uncommitted⟩, hsubject⟩

theorem Deployment.Sane.receive {subject : String} (h : d.Sane s T)
    (hphase : T.phase p = .reading subject) (limit : Nat) (received : Received) :
    d.Sane s (d.receive T p subject limit received) := by
  cases received with
  | disconnect =>
    have hstanding := h.standing p
    rw [hphase] at hstanding
    exact h.set (Or.inl hstanding.1.silent)
  | chunk content more =>
    have hheard := h.hear hphase (T.heard p ++ content)
    have hstanding := hheard.standing p
    change d.Standing s _ p (T.phase p) at hstanding
    rw [hphase] at hstanding
    obtain ⟨hquiet, hsubject⟩ := hstanding
    unfold Deployment.receive
    dsimp only
    split
    · refine hheard.set (Deployment.standing_failed hquiet.silent fun error herror => ?_)
      cases herror
      exact hquiet.fair (by decide)
    · split
      · exact hheard
      · exact hheard.set ⟨hquiet, hsubject⟩

theorem Deployment.Sane.connect {subject : String} (h : d.Sane s T)
    (hstays : T.store.access.principals = s.access.principals)
    (hphase : T.phase p = .connecting subject) : d.Sane s (d.connect T p subject) := by
  have hstanding := h.standing p
  rw [hphase] at hstanding
  obtain ⟨hquiet, hsubject⟩ := hstanding
  unfold Deployment.connect
  split
  · refine h.set (Deployment.standing_failed hquiet.silent fun error herror => ?_)
    cases herror
    exact hquiet.fair (by decide)
  next row hrow =>
    refine h.set ⟨hquiet, row, ?_, rfl, ?_⟩
    · rw [← hstays]
      exact List.mem_of_find?_eq_some hrow
    · have hfound := List.find?_some hrow
      have hname : row.externalSubject = subject := of_decide_eq_true hfound
      unfold Deployment.Subject at hsubject
      cases hwork : d.work p with
      | http incoming =>
        rw [hwork] at hsubject
        rw [hname]
        exact hsubject
      | job subject' request =>
        rw [hwork] at hsubject
        rw [hname]
        exact hsubject
      | access request =>
        rw [hwork] at hsubject
        exact hsubject

/-! ## Under the lock -/

theorem Deployment.Sane.lock (h : d.Sane s T) (hlock : d.lock T p = some T') : d.Sane s T' := by
  unfold Deployment.lock at hlock
  split at hlock
  · cases hlock
  next hfree =>
    have hfree : T.holder = none := Option.not_isSome_iff_eq_none.mp hfree
    have hstanding := h.standing p
    split at hlock
    next principal hphase =>
      cases hlock
      rw [hphase] at hstanding
      obtain ⟨hquiet, hidentifies⟩ := hstanding
      have hquiet' : Traffic.Quiet { T with holder := some p } p := ⟨hquiet.silent, hquiet.uncommitted⟩
      have hheld := h.acquire hfree p (by rw [hphase]; exact ⟨hquiet', hidentifies⟩)
      exact hheld.set ⟨⟨hquiet', rfl, rfl⟩, hidentifies, Reached.start⟩
    next hphase =>
      cases hlock
      rw [hphase] at hstanding
      have hquiet' : Traffic.Quiet { T with holder := some p } p :=
        ⟨hstanding.silent, hstanding.uncommitted⟩
      have hheld := h.acquire hfree p (by rw [hphase]; exact hquiet')
      exact hheld.set ⟨hquiet', rfl⟩
    next => cases hlock

theorem Deployment.Sane.interact {m : Moment} (h : d.Sane s T)
    (hinteract : d.interact T p m = some T') : d.Sane s T' := by
  unfold Deployment.interact at hinteract
  have hstanding := h.standing p
  split at hinteract
  next principal base elapsed rest session hphase =>
    rw [hphase] at hstanding
    obtain ⟨halone, hidentifies, hreached⟩ := hstanding
    split at hinteract
    next hm =>
      rw [halone.refreshed] at hinteract
      split at hinteract
      next rest' session' honce =>
        cases hinteract
        refine h.set ⟨⟨halone.quiet, halone.holds, rfl⟩, hidentifies, ?_⟩
        rw [halone.current]
        exact hreached.interactOnce (Option.isNone_iff_eq_none.mp hm.2) honce
      next fault honce =>
        cases hinteract
        exact h.set ⟨halone.quiet.silent, fun error herror =>
          halone.quiet.fair (Fault.error?_status herror)⟩
    next => cases hinteract
  next => cases hinteract

theorem Deployment.Sane.administer {now recordedAt : Time} (h : d.Sane s T)
    (hadminister : d.administer T p now recordedAt = some T') : d.Sane s T' := by
  unfold Deployment.administer at hadminister
  have hstanding := h.standing p
  split at hadminister
  next request hphase hwork =>
    rw [hphase] at hstanding
    obtain ⟨hquiet, hholds⟩ := hstanding
    split at hadminister
    next result after hrun =>
      cases hadminister
      exact h.set ⟨⟨hquiet, hholds, rfl⟩, request, result, hwork, hrun⟩
    next =>
      cases hadminister
      exact h.set ⟨hquiet.silent, fun error herror => by cases herror⟩
  next => cases hadminister

/-! ## Commits -/

/-- **A commit under the lock**: the log grows by a justified entry, whose event leads to the store. -/
theorem Deployment.Sane.settle {entry : Entry Party} {base after : Store} (h : d.Sane s T)
    (halone : T.Alone p base) (hparty : entry.party = p)
    (hjustified : d.Justified s T.heard T.store entry)
    (hafter : after = runEvents d.app.platform entry.event.toList T.store) (acknowledged : Bool) :
    d.Sane s (d.settle T p after entry acknowledged) := by
  refine h.committed (p := p) entry ⟨fun q hq => Function.update_of_ne hq _ _, fun q hq => ?_⟩
    rfl rfl hparty halone.quiet hjustified hafter ?_
  · refine ⟨rfl, rfl, Iff.rfl, Or.inr ⟨?_, entry, ?_, rfl⟩⟩
    · rw [halone.holds]
      exact fun heq => hq (Option.some.inj heq).symm
    · rw [hparty]
      exact hq.symm
  · unfold Deployment.settle
    rw [Traffic.set_phase_self]
    cases acknowledged with
    | true =>
      refine ⟨T.log, entry, [], rfl, hparty, ?_, fun _ => rfl⟩
      change T.wire p ++ _ = _
      rw [halone.quiet.silent, List.nil_append]
    | false =>
      refine ⟨halone.quiet.silent, fun error herror => ?_⟩
      exact Raised.fair .dependency rfl _ _ herror

/-- A commit of a session, which may be refused. -/
theorem Deployment.Sane.commitSession {entry : Entry Party} {base : Store} {m : Moment}
    {session : Session} (h : d.Sane s T) (halone : T.Alone p base) (hparty : entry.party = p)
    (hcommits : ∀ after, PgAgmemory.commit m session = .ok after →
      d.Justified s T.heard T.store entry
        ∧ after = runEvents d.app.platform entry.event.toList T.store) (acknowledged : Bool) :
    d.Sane s (d.commitSession T p m session entry acknowledged) := by
  unfold Deployment.commitSession
  split
  next fault hcommit =>
    exact h.set ⟨halone.quiet.silent, fun error herror =>
      halone.quiet.fair (Fault.error?_status herror)⟩
  next after hcommit =>
    obtain ⟨hjustified, hafter⟩ := hcommits after hcommit
    exact h.settle halone hparty hjustified hafter acknowledged

/-- **What a transaction that has come to its end commits** is what it would commit by itself. -/
theorem Deployment.Sane.commit {m : Moment} {acknowledged : Bool} (h : d.Sane s T)
    (hcommit : d.commit T p m acknowledged = some T') : d.Sane s T' := by
  unfold Deployment.commit at hcommit
  have hstanding := h.standing p
  -- Nobody has committed since the lock was taken: the store it began from is still the store.
  split at hcommit
  next principal base elapsed rest session hphase =>
    rw [hphase] at hstanding
    obtain ⟨halone, hidentifies, hreached⟩ := hstanding
    split at hcommit
    next hm =>
      rw [halone.refreshed] at hcommit
      split at hcommit
      next => cases hcommit
      next =>
        cases hcommit
        exact h.set ⟨halone.quiet.silent, fun error herror => by cases herror⟩
      -- The body was no request: what commits is the registration of its subject, if any.
      next reply hvalue =>
        cases hcommit
        refine h.commitSession halone rfl (fun after hafter => ?_) acknowledged
        rw [value?_eq_some.mp hvalue] at hreached
        have hattempt := attempt_of_reached hm hreached hafter
        unfold Deployment.program at hattempt
        unfold Deployment.Justified
        cases hwork : d.work p with
        | http incoming =>
          rw [hwork] at hattempt
          rcases attempt_serve hattempt with ⟨malformed, hserved, rfl⟩ | ⟨request, response, -, -, hserved⟩
          · cases hserved
            exact ⟨⟨malformed, rfl⟩, halone.current.symm⟩
          · unfold Application.served at hserved
            split at hserved <;> cases hserved
        | job subject request =>
          rw [hwork] at hattempt
          obtain ⟨response, -, hserved⟩ := attempt_work hattempt
          cases hserved
        | access request =>
          rw [hwork] at hattempt
          cases hattempt
      -- A handler has answered: the entry is its call, run alone on the store.
      next request response reply hvalue =>
        cases hcommit
        refine h.commitSession halone rfl (fun after hafter => ?_) acknowledged
        rw [value?_eq_some.mp hvalue] at hreached
        have hattempt := attempt_of_reached hm hreached hafter
        unfold Deployment.program at hattempt
        unfold Deployment.Justified
        rw [halone.current]
        cases hwork : d.work p with
        | http incoming =>
          rw [hwork] at hattempt
          rcases attempt_serve hattempt with ⟨malformed, hserved, -⟩ | ⟨request', response', hparse, hexec, hserved⟩
          · cases hserved
          · unfold Application.served at hserved
            split at hserved
            next status content hstatus hrender =>
              cases hserved
              refine ⟨⟨hidentifies, hparse, response, status, content, ?_, hstatus, hrender, rfl⟩, ?_⟩
              · rw [hexec]
              · exact (congrArg Prod.snd hexec).symm
            next => cases hserved
        | job subject request' =>
          rw [hwork] at hattempt
          obtain ⟨response', hexec, hserved⟩ := attempt_work hattempt
          cases hserved
          refine ⟨⟨hidentifies, rfl, rfl, response, ?_⟩, ?_⟩
          · rw [hexec]
          · exact (congrArg Prod.snd hexec).symm
        | access request' =>
          rw [hwork] at hattempt
          cases hattempt
    next => cases hcommit
  next base after now recordedAt request hphase hwork =>
    cases hcommit
    rw [hphase] at hstanding
    obtain ⟨halone, request', result, hwork', hrun⟩ := hstanding
    rw [hwork] at hwork'
    cases hwork'
    refine h.settle halone rfl ?_ ?_ acknowledged
    · unfold Deployment.Justified
      rw [hwork, halone.current]
      exact ⟨rfl, rfl, _, hrun⟩
    · rw [halone.current, d.merge_same]
      show after = Event.exec d.app.platform (.access request now recordedAt) base
      rw [Event.exec, hrun]
  next => cases hcommit

/-! ## After the transaction -/

/-- The lock of a party that is in no transaction is freed. -/
theorem Deployment.Sane.release (h : d.Sane s T) (hout : (T.phase p).inTransaction = false) :
    d.Sane s (T.release p) := by
  refine h.step (p := p) ⟨fun _ _ => rfl, fun q hq => ⟨rfl, rfl, ?_, Or.inl ⟨rfl, rfl⟩⟩⟩ rfl rfl
    (.inl rfl) ?_
  · unfold Traffic.release
    dsimp only
    split
    next heq =>
      rw [heq]
      exact iff_of_false (fun h => by cases h) fun h => hq (Option.some.inj h).symm
    next => exact Iff.rfl
  · have hfree : (T.release p).holder ≠ some p := by
      unfold Traffic.release
      dsimp only
      split
      next => exact fun h => by cases h
      next hne => exact hne
    -- Outside a transaction no standing speaks of the lock, so each phase stands as it stood.
    have hstanding := h.standing p
    change d.Standing s (T.release p) p (T.phase p)
    cases hphase : T.phase p with
    | reading subject =>
      rw [hphase] at hstanding
      exact ⟨⟨hstanding.1.silent, hstanding.1.uncommitted⟩, hstanding.2⟩
    | connecting subject =>
      rw [hphase] at hstanding
      exact ⟨⟨hstanding.1.silent, hstanding.1.uncommitted⟩, hstanding.2⟩
    | waiting principal =>
      rw [hphase] at hstanding
      exact ⟨⟨hstanding.1.silent, hstanding.1.uncommitted⟩, hstanding.2⟩
    | queued =>
      rw [hphase] at hstanding
      exact ⟨hstanding.silent, hstanding.uncommitted⟩
    | severed =>
      rw [hphase] at hstanding
      exact ⟨hstanding.silent, hstanding.uncommitted⟩
    | working principal base elapsed rest session => rw [hphase] at hout; cases hout
    | administering => rw [hphase] at hout; cases hout
    | administered base after now recordedAt => rw [hphase] at hout; cases hout
    | unwinding raised =>
      rw [hphase] at hstanding
      exact ⟨hstanding.1, fun error herror =>
        ⟨(hstanding.2 error herror).failure, (hstanding.2 error herror).unknown⟩⟩
    | sending rest =>
      rw [hphase] at hstanding
      obtain ⟨before, entry, after, hlog, hparty, hwire, -⟩ := hstanding
      exact ⟨before, entry, after, hlog, hparty, hwire, fun heq => absurd heq hfree⟩
    | closing =>
      rw [hphase] at hstanding
      exact hstanding
    | answering rest =>
      rw [hphase] at hstanding
      obtain ⟨error, hfair, hwire⟩ := hstanding
      exact ⟨error, ⟨hfair.failure, hfair.unknown⟩, hwire⟩
    | finished =>
      rw [hphase] at hstanding
      rcases hstanding with hsilent | htold | ⟨error, hfair, hwire⟩
      · exact Or.inl hsilent
      · exact Or.inr (Or.inl htold)
      · exact Or.inr (Or.inr ⟨error, ⟨hfair.failure, hfair.unknown⟩, hwire⟩)

theorem Deployment.Sane.dropped (h : d.Sane s T) (p : Party) : d.Sane s (T.dropped p) := by
  have hsevered : (T.phase p).inTransaction = true → d.Sane s ((T.set p .severed).release p) := by
    intro hin
    refine Deployment.Sane.release (h.set (h.quiet hin).1) ?_
    rw [Traffic.set_phase_self]
    rfl
  unfold Traffic.dropped
  split
  next hin => exact hsevered hin
  next hout => exact h.release (Bool.not_eq_true _ ▸ hout)

theorem Deployment.Sane.send (h : d.Sane s T) (hsend : T.send p = some T') : d.Sane s T' := by
  unfold Traffic.send at hsend
  have hstanding := h.standing p
  have hbeside : ∀ (sent : List Message) (phase : Phase), T.Beside p
      ({ T with wire := Function.update T.wire p sent }.set p phase) := fun sent phase =>
    ⟨fun q hq => Function.update_of_ne hq _ _, fun q hq =>
      ⟨rfl, Function.update_of_ne hq _ _, Iff.rfl, Or.inl ⟨rfl, rfl⟩⟩⟩
  split at hsend
  next message rest hphase =>
    cases hsend
    rw [hphase] at hstanding
    obtain ⟨before, entry, after, hlog, hparty, hwire, hlast⟩ := hstanding
    refine h.step (hbeside _ _) rfl rfl (.inl rfl) ?_
    rw [Traffic.set_phase_self]
    refine ⟨before, entry, after, hlog, hparty, ?_, hlast⟩
    change Function.update T.wire p (T.wire p ++ [message]) p ++ rest = _
    rw [Function.update_self, List.append_assoc, List.singleton_append, hwire]
  next message rest hphase =>
    cases hsend
    rw [hphase] at hstanding
    obtain ⟨error, hfair, hwire⟩ := hstanding
    refine h.step (hbeside _ _) rfl rfl (.inl rfl) ?_
    rw [Traffic.set_phase_self]
    refine ⟨error, ⟨hfair.failure, hfair.unknown⟩, ?_⟩
    change Function.update T.wire p (T.wire p ++ [message]) p ++ rest = _
    rw [Function.update_self, List.append_assoc, List.singleton_append, hwire]
  next => cases hsend

theorem Deployment.Sane.close (h : d.Sane s T) (hclose : d.close T p = some T') : d.Sane s T' := by
  unfold Deployment.close at hclose
  split at hclose
  next hphase =>
    cases hclose
    have hfreed := h.release (p := p) (by rw [hphase]; rfl)
    have hstanding := hfreed.standing p
    change d.Standing s _ p (T.phase p) at hstanding
    rw [hphase] at hstanding
    exact hfreed.set (Or.inr (Or.inl (Deployment.told_of_sending hstanding)))
  next hphase =>
    cases hclose
    have hfreed := h.release (p := p) (by rw [hphase]; rfl)
    have hstanding := hfreed.standing p
    change d.Standing s _ p (T.phase p) at hstanding
    rw [hphase] at hstanding
    exact hfreed.set (Or.inr (Or.inl hstanding))
  next raised hphase =>
    cases hclose
    have hfreed := h.release (p := p) (by rw [hphase]; rfl)
    have hstanding := hfreed.standing p
    change d.Standing s _ p (T.phase p) at hstanding
    rw [hphase] at hstanding
    exact hfreed.set (Deployment.standing_failed hstanding.1 hstanding.2)
  next => cases hclose

/-! ## Exceptions -/

theorem Deployment.Sane.interrupted {raised : Raised} (h : d.Sane s T)
    (hinterrupts : raised.interrupts = true) (hraise : d.interrupted T p raised = some T') :
    d.Sane s T' := by
  have hfails : T.Quiet p → d.Sane s (T.set p (d.failed p raised)) := fun hquiet =>
    h.set (Deployment.standing_failed hquiet.silent fun _ => Raised.fair raised hinterrupts T p)
  have hunwinds : T.wire p = [] → d.Sane s (T.set p (.unwinding raised)) := fun hsilent =>
    h.set ⟨hsilent, fun _ => Raised.fair raised hinterrupts T p⟩
  have hstanding := h.standing p
  unfold Deployment.interrupted at hraise
  split at hraise
  case h_1 hphase => cases hraise; rw [hphase] at hstanding; exact hfails hstanding.1
  case h_2 hphase => cases hraise; rw [hphase] at hstanding; exact hfails hstanding.1
  case h_3 hphase => cases hraise; rw [hphase] at hstanding; exact hfails hstanding.1
  case h_4 hphase => cases hraise; rw [hphase] at hstanding; exact hfails hstanding
  case h_5 hphase => cases hraise; rw [hphase] at hstanding; exact hfails hstanding
  case h_6 hphase => cases hraise; exact hunwinds (h.quiet (by rw [hphase]; rfl)).1.silent
  case h_7 hphase => cases hraise; exact hunwinds (h.quiet (by rw [hphase]; rfl)).1.silent
  case h_8 hphase => cases hraise; exact hunwinds (h.quiet (by rw [hphase]; rfl)).1.silent
  case h_9 hphase =>
    cases hraise
    rw [hphase] at hstanding
    exact h.set (Deployment.told_of_sending hstanding)
  case h_10 hphase => cases hraise; rw [hphase] at hstanding; exact hunwinds hstanding.1
  case h_11 hphase =>
    cases hraise
    rw [hphase] at hstanding
    obtain ⟨error, hfair, hwire⟩ := hstanding
    exact h.set (Or.inr (Or.inr ⟨error, hfair, _, hwire⟩))
  case h_12 => cases hraise

/-! ## Whatever parties reach -/

/-- **Every step keeps a tenant sane.** -/
theorem Deployment.Sane.act (h : d.Sane s T)
    (hstays : T.store.access.principals = s.access.principals) {a : Action Party}
    (hact : d.act T a = some T') : d.Sane s T' := by
  cases a with
  | receive p received =>
    simp only [Deployment.act] at hact
    split at hact
    next subject incoming hphase hwork => cases hact; exact h.receive hphase _ _
    next => cases hact
  | raise p raised =>
    simp only [Deployment.act] at hact
    split at hact
    next hinterrupts => exact h.interrupted hinterrupts hact
    next => cases hact
  | connect p =>
    simp only [Deployment.act] at hact
    split at hact
    next subject hphase => cases hact; exact h.connect hstays hphase
    next => cases hact
  | lock p => exact h.lock hact
  | interact p m => exact h.interact hact
  | administer p now recordedAt => exact h.administer hact
  | commit p m acknowledged => exact h.commit hact
  | send p => exact h.send hact
  | close p => exact h.close hact
  | drop p => cases hact; exact h.dropped p

omit [DecidableEq Party] in
/-- Where parties begin, nothing has been done. -/
theorem Deployment.sane_initial (d : Deployment Party) (s : Store) : d.Sane s (d.initial s) where
  serial := rfl
  once := List.nodup_nil
  justified before entry after heq := absurd heq.symm (List.append_ne_nil_of_right_ne_nil _ (by simp))
  standing p := by
    have hquiet : (d.initial s).Quiet p := ⟨rfl, fun entry hentry => by cases hentry⟩
    change d.Standing s (d.initial s) p (d.begins p)
    cases hwork : d.work p with
    | http incoming =>
      cases hsubject : incoming.subject? d.app.verify with
      | some subject =>
        have hbegins : d.begins p = .reading subject := by simp only [Deployment.begins, hwork, hsubject]
        rw [hbegins]
        refine ⟨hquiet, ?_⟩
        unfold Deployment.Subject
        rw [hwork]
        exact hsubject
      | none =>
        have hbegins : d.begins p = d.failed p .invalidToken := by
          simp only [Deployment.begins, hwork, hsubject]
        rw [hbegins]
        refine Deployment.standing_failed hquiet.silent fun error herror => ?_
        cases herror
        exact hquiet.fair (by decide)
    | job subject request =>
      have hbegins : d.begins p = .connecting subject := by simp only [Deployment.begins, hwork]
      rw [hbegins]
      refine ⟨hquiet, ?_⟩
      unfold Deployment.Subject
      rw [hwork]
    | access request =>
      have hbegins : d.begins p = .queued := by simp only [Deployment.begins, hwork]
      rw [hbegins]
      exact hquiet

/-- **Run lemma**: whatever steps are taken in whatever order, the tenant is sane. -/
theorem Deployment.Sane.run (h : d.Sane s T) (hs : Reachable d.app.platform s)
    {actions : List (Action Party)} (hrun : d.run T actions = some T') : d.Sane s T' := by
  induction actions generalizing T with
  | nil =>
    cases hrun
    exact h
  | cons a actions ih =>
    obtain ⟨T₁, hact, hrest⟩ := d.run_cons.mp hrun
    refine ih (h.act ?_ hact) hrest
    rw [h.serial]
    exact hs.principals _

end PgAgmemory

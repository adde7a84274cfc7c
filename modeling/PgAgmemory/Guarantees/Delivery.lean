import PgAgmemory.Delivery.Client
import PgAgmemory.Delivery.Lock

/-! # Delivery

What the lock, the transaction boundary and the client give together, whatever steps the parties of a
tenant take in whatever order: the tenant's store is that of its committed transactions one after the
other, a response goes out while its own transaction is the last one, and a client is never told that a
committed mutation has failed. -/

namespace PgAgmemory

open Json (Value)
open NativeHTTPClient (Asked)

variable {Party : Type} [DecidableEq Party] {d : Deployment Party} {s : Store} {T T' : Traffic Party}
  {p : Party} {actions : List (Action Party)}

/-! ## Serial execution -/

/-- **Any interleaving is serial**: the store is the one that the committed transactions lead to, one
after the other in the order of their commits. Each is the call that its party asked for, made by the
principal of its token, and the reply is that of the response it gives there by itself; no party commits
twice, and the store is one that runs reach. -/
theorem Deployment.run_serial (hs : Reachable d.app.platform s)
    (h : d.run (d.initial s) actions = some T) :
    T.store = runEvents d.app.platform (loggedEvents T.log) s
      ∧ Reachable d.app.platform T.store
      ∧ (T.log.map Entry.party).Nodup
      ∧ ∀ before entry after, T.log = before ++ entry :: after →
        d.Justified s T.heard (runEvents d.app.platform (loggedEvents before) s) entry := by
  have hsane := (d.sane_initial s).run hs h
  refine ⟨hsane.serial, ?_, hsane.once, hsane.justified⟩
  rw [hsane.serial]
  exact hs.run _

/-! ## The barrier -/

/-- **The barrier**: while a party whose connection has lasted sends its response, its transaction is the
last one that was committed. So whatever was committed before some moment of the run comes before the
party's transaction in the serial order, unless it is that transaction itself; and the response is the one
that it gives there. -/
theorem Deployment.run_barrier {T₁ : Traffic Party} {later : List (Action Party)} {message : Message} {rest : List Message}
    (hs : Reachable d.app.platform s) (h₁ : d.run (d.initial s) actions = some T₁)
    (h : d.run T₁ later = some T) (hkept : .drop p ∉ actions ++ later)
    (hsends : T.phase p = .sending (message :: rest)) :
    ∃ before entry, T.log = before ++ [entry] ∧ entry.party = p
      ∧ (T₁.log <+: before ∨ T₁.log = T.log)
      ∧ d.Justified s T.heard (runEvents d.app.platform (loggedEvents before) s) entry := by
  have hrun := d.run_append.mpr ⟨T₁, h₁, h⟩
  have hsane := (d.sane_initial s).run hs hrun
  have hguarded := (d.guarded_initial s).run hrun
  have hholds : T.holder = some p := by
    refine hguarded p ?_ (by rw [hsends]; rfl)
    rw [List.nil_append, mem_lostIn]
    exact hkept
  have hstanding := hsane.standing p
  rw [hsends] at hstanding
  obtain ⟨before, entry, after, hlog, hparty, -, hlast⟩ := hstanding
  rw [hlast hholds] at hlog
  refine ⟨before, entry, hlog, hparty, ?_, hsane.justified before entry [] hlog⟩
  have hgrown := (Deployment.extends_run h).log
  rw [hlog, List.prefix_concat_iff] at hgrown
  rcases hgrown with hall | hbefore
  · right
    rw [hall, hlog]
  · exact Or.inl hbefore

/-! ## What a client is told -/

section Told

omit [DecidableEq Party]

variable {incoming : Incoming} {status : Nat} {headers : List (String × String)} {sent : List Message}

/-- What a party has sent belongs to its committed transaction, or to an error that may be answered. -/
theorem Deployment.Sane.spoken (h : d.Sane s T) (hwire : T.wire p ≠ []) :
    d.Told T p ∨ d.Excused T p := by
  have hstanding := h.standing p
  cases hphase : T.phase p with
  | reading subject => rw [hphase] at hstanding; exact absurd hstanding.1.silent hwire
  | connecting subject => rw [hphase] at hstanding; exact absurd hstanding.1.silent hwire
  | waiting principal => rw [hphase] at hstanding; exact absurd hstanding.1.silent hwire
  | queued => rw [hphase] at hstanding; exact absurd hstanding.silent hwire
  | severed => rw [hphase] at hstanding; exact absurd hstanding.silent hwire
  | working principal base elapsed rest session =>
    rw [hphase] at hstanding
    exact absurd hstanding.1.quiet.silent hwire
  | administering => rw [hphase] at hstanding; exact absurd hstanding.1.silent hwire
  | administered base after now recordedAt =>
    rw [hphase] at hstanding
    exact absurd hstanding.1.quiet.silent hwire
  | unwinding raised => rw [hphase] at hstanding; exact absurd hstanding.1 hwire
  | sending rest =>
    rw [hphase] at hstanding
    exact Or.inl (Deployment.told_of_sending hstanding)
  | closing => rw [hphase] at hstanding; exact Or.inl hstanding
  | answering rest =>
    rw [hphase] at hstanding
    obtain ⟨error, hfair, hmessages⟩ := hstanding
    exact Or.inr ⟨error, hfair, rest, hmessages⟩
  | finished =>
    rw [hphase] at hstanding
    exact hstanding.resolve_left hwire

/-- What a response that is on the wire says of its reply. -/
theorem status_of_prefix {reply : Reply} {requestId : UUID}
    (h : .start status headers :: sent <+: reply.messages requestId) :
    reply.status = status ∧ sent <+: [.body reply.content] := by
  obtain ⟨hstart, hsent⟩ := List.cons_prefix_cons.mp h
  cases hstart
  exact ⟨rfl, hsent⟩

/-- **The reply that a party has buffered**: that of its call, a success, or that to what is no
request. -/
theorem Deployment.Sane.reply {entry : Entry Party} {before after : List (Entry Party)} (h : d.Sane s T)
    (hwork : d.work entry.party = .http incoming) (hlog : T.log = before ++ entry :: after) :
    (∃ c response code content, entry.event = some (.call c) ∧ d.Identifies s entry.party c.principal
      ∧ d.app.parse incoming.path incoming.idempotencyKey (T.heard entry.party) = .ok c.request
      ∧ (c.exec d.app.platform (runEvents d.app.platform (loggedEvents before) s)).1 = .ok response
      ∧ c.request.successStatus = some code ∧ d.app.render response = some content
      ∧ entry.reply = some ⟨code, content⟩)
    ∨ ∃ malformed, entry.event = none
      ∧ entry.reply = some (validationReply malformed incoming.requestId) := by
  have hjustified := h.justified before entry after hlog
  unfold Deployment.Justified at hjustified
  rw [hwork] at hjustified
  cases hevent : entry.event with
  | none =>
    rw [hevent] at hjustified
    obtain ⟨malformed, hreply⟩ := hjustified
    exact Or.inr ⟨malformed, rfl, hreply⟩
  | some event =>
    rw [hevent] at hjustified
    cases event with
    | access request now recordedAt => exact hjustified.elim
    | call c =>
      obtain ⟨hidentifies, hparse, response, code, content, hexec, hcode, hrender, hreply⟩ := hjustified
      exact Or.inl ⟨c, response, code, content, rfl, hidentifies, hparse, hexec, hcode, hrender, hreply⟩

/-- **No success is sent before its commit**: when the start of a successful response is on the wire, the
call of the party is in the log, and what is sent is the response that it gives there. -/
theorem Deployment.Sane.committed_of_success (h : d.Sane s T) (hwork : d.work p = .http incoming)
    (hwire : T.wire p = .start status headers :: sent) (hsuccess : 200 ≤ status ∧ status < 300) :
    ∃ before entry after c response content, T.log = before ++ entry :: after ∧ entry.party = p
      ∧ entry.event = some (.call c) ∧ d.Identifies s p c.principal
      ∧ d.app.parse incoming.path incoming.idempotencyKey (T.heard p) = .ok c.request
      ∧ (c.exec d.app.platform (runEvents d.app.platform (loggedEvents before) s)).1 = .ok response
      ∧ c.request.successStatus = some status ∧ d.app.render response = some content
      ∧ sent <+: [.body content] := by
  rcases h.spoken (by rw [hwire]; exact List.cons_ne_nil _ _) with ⟨entry, hentry, rfl, hprefix⟩
    | ⟨error, hfair, hprefix⟩
  · obtain ⟨before, after, hlog⟩ := List.append_of_mem hentry
    rcases h.reply hwork hlog with ⟨c, response, code, content, hevent, hidentifies, hparse, hexec, hcode,
      hrender, hreply⟩ | ⟨malformed, -, hreply⟩
    · rw [hwire, hreply] at hprefix
      obtain ⟨rfl, hsent⟩ := status_of_prefix hprefix
      exact ⟨before, entry, after, c, response, content, hlog, rfl, hevent, hidentifies, hparse, hexec,
        hcode, hrender, hsent⟩
    · rw [hwire, hreply] at hprefix
      obtain ⟨rfl, -⟩ := status_of_prefix hprefix
      have hrefused := (validationReply_status malformed incoming.requestId).1
      omega
  · rw [hwire] at hprefix
    obtain ⟨hstart, -⟩ := List.cons_prefix_cons.mp hprefix
    cases hstart
    have hfailure := hfair.failure
    omega

/-- **A client error is sent by a party that commits nothing**: its transaction, if it has one, is not that
of a call. -/
theorem Deployment.Sane.uncommitted_of_error (h : d.Sane s T) (hwork : d.work p = .http incoming)
    (hwire : T.wire p = .start status headers :: sent) (herror : status < 500)
    (hfailure : ¬(200 ≤ status ∧ status < 300)) {entry : Entry Party} (hentry : entry ∈ T.log)
    (hparty : entry.party = p) : entry.event = none := by
  rcases h.spoken (by rw [hwire]; exact List.cons_ne_nil _ _) with ⟨told, htold, htoldParty, hprefix⟩
    | ⟨error, hfair, hprefix⟩
  · have hsame : entry = told :=
      List.inj_on_of_nodup_map h.once hentry htold (hparty.trans htoldParty.symm)
    subst hsame
    subst hparty
    obtain ⟨before, after, hlog⟩ := List.append_of_mem hentry
    rcases h.reply hwork hlog with ⟨c, response, code, content, -, -, -, -, hcode, -, hreply⟩
      | ⟨malformed, hevent, -⟩
    · rw [hwire, hreply] at hprefix
      obtain ⟨rfl, -⟩ := status_of_prefix hprefix
      exact absurd (Request.successStatus_bounds hcode) hfailure
    · exact hevent
  · rw [hwire] at hprefix
    obtain ⟨hstart, -⟩ := List.cons_prefix_cons.mp hprefix
    cases hstart
    have hserver := hfair.unknown entry hentry hparty
    omega

end Told

section Client

variable {decoding : Decoding} {safeCodes : List String} {asked : Asked} {arrival : Arrival}
  {incoming : Incoming}

/-- **A result is that of a committed call**: where a client gets a result, the transaction of its request
is committed, and the result is the decoded response that the call gives at its place in the serial
order. -/
theorem Deployment.run_result {α : Type} {validate : Value → Option α} {a : α}
    (hs : Reachable d.app.platform s) (h : d.run (d.initial s) actions = some T)
    (hwork : d.work p = .http incoming) (hcarried : Carried (T.wire p) arrival)
    (hresult : NativeHTTPClient.request decoding safeCodes validate asked arrival = .ok a) :
    ∃ before entry after c response content, T.log = before ++ entry :: after ∧ entry.party = p
      ∧ entry.event = some (.call c) ∧ d.Identifies s p c.principal
      ∧ d.app.parse incoming.path incoming.idempotencyKey (T.heard p) = .ok c.request
      ∧ (c.exec d.app.platform (runEvents d.app.platform (loggedEvents before) s)).1 = .ok response
      ∧ c.request.successStatus = some asked.expectedStatus ∧ d.app.render response = some content
      ∧ (decoding.loads content).bind validate = some a := by
  unfold NativeHTTPClient.request at hresult
  split at hresult
  next => cases hresult
  next body hbody =>
    split at hresult
    next => cases hresult
    next =>
      obtain ⟨⟨status, payload⟩, hexchange, hrest⟩ := bind_eq_ok.mp hresult
      dsimp only at hrest
      split at hrest
      next => cases hrest
      next hexpected =>
        split at hrest
        next => cases hrest
        next value hvalidate =>
          cases hrest
          have hstatus : status = asked.expectedStatus := not_not.mp hexpected
          obtain ⟨hsuccess, headers, content, hwire, hloads⟩ :=
            NativeHTTPClient.sent_of_exchange hexchange hcarried
          obtain ⟨before, entry, after, c, response, content', hlog, hparty, hevent, hidentifies, hparse,
            hexec, hcode, hrender, hsent⟩ :=
            ((d.sane_initial s).run hs h).committed_of_success hwork hwire hsuccess
          have hsame : content = content' := by
            obtain ⟨hbody, -⟩ := List.cons_prefix_cons.mp hsent
            exact Message.body.inj hbody
          subst hsame
          refine ⟨before, entry, after, c, response, content, hlog, hparty, hevent, hidentifies, hparse,
            hexec, ?_, hrender, ?_⟩
          · rw [← hstatus]
            exact hcode
          · rw [hloads]
            exact hvalidate

/-- **A definite failure is a failure**: where a client gets an error of a mutation whose outcome is not
unknown, no call of its request is committed then or ever after. -/
theorem Deployment.run_definite {α : Type} {validate : Value → Option α} {error : AdapterError}
    {T₁ : Traffic Party} {later : List (Action Party)} (hs : Reachable d.app.platform s)
    (h₁ : d.run (d.initial s) actions = some T₁) (h : d.run T₁ later = some T)
    (hwork : d.work p = .http incoming) (hcarried : asked.sent = true → Carried (T₁.wire p) arrival)
    (hunsent : asked.sent = false → ∀ entry ∈ T.log, entry.party ≠ p) (hmutation : asked.mutation = true)
    (herror : NativeHTTPClient.request decoding safeCodes validate asked arrival = .error error)
    (hdefinite : error.outcomeUnknown = false) :
    ∀ entry ∈ T.log, entry.party = p → entry.event = none := by
  have hcases : asked.sent = false ∨ ∃ status headers rest, T₁.wire p = .start status headers :: rest
      ∧ status < 500 ∧ ¬(200 ≤ status ∧ status < 300) := by
    unfold NativeHTTPClient.request at herror
    unfold Asked.sent at hcarried ⊢
    split at herror
    next hbody => exact Or.inl (by rw [hbody]; rfl)
    next body hbody =>
      rw [hbody, Option.any_some] at hcarried ⊢
      split at herror
      next hlong => exact Or.inl (decide_eq_false (Nat.not_le.mpr hlong))
      next hshort =>
        have hcarried := hcarried (decide_eq_true (Nat.le_of_not_lt hshort))
        rw [hmutation] at herror
        cases hexchange : NativeHTTPClient.exchange decoding safeCodes true arrival with
        | error e =>
          rw [hexchange] at herror
          cases herror
          exact Or.inr (NativeHTTPClient.sent_of_failure hexchange hdefinite hcarried)
        | ok result =>
          rw [hexchange] at herror
          change (if result.1 ≠ asked.expectedStatus then _ else _) = _ at herror
          split at herror
          next => cases herror; cases hdefinite
          next => split at herror <;> cases herror; cases hdefinite
  intro entry hentry hparty
  rcases hcases with hno | ⟨status, headers, rest, hwire, hclient, hfailure⟩
  · exact absurd hparty (hunsent hno entry hentry)
  · obtain ⟨more, hmore⟩ := (Deployment.extends_run h).wire p
    rw [hwire, List.cons_append] at hmore
    have hsane := (d.sane_initial s).run hs (d.run_append.mpr ⟨T₁, h₁, h⟩)
    exact hsane.uncommitted_of_error hwork hmore.symm hclient hfailure hentry hparty

end Client

/-! ## A deployment of two parties -/

/-- The body of the observation. -/
def smallBody : Bytes := bytesOf (compactText (Observe.brief 2).dump)

/-- The response to the observation of the small tenant. -/
def smallResult (memoryId : UUID) : Value :=
  .obj [("memory_id", jsonUUID memoryId), ("revision", jsonNat 1)]

/-- An application of one token and one route. -/
def Application.small : Application where
  platform := .plain
  verify token := if token = "token" then some "subject" else none
  parse path key body :=
    if path = "/v1/observe" ∧ key = some "key" ∧ body = smallBody then
      .ok (.observe (.brief 2) "key")
    else .error true
  render
    | .receipt (.observed memoryId) => some (bytesOf (compactText (smallResult memoryId)))
    | _ => none

/-- A deployment of two parties: a request, and an administrator who takes the permission to delete from
the principal of the request. -/
def Deployment.small : Deployment Bool where
  app := .small
  work
    | false => .http ⟨7, "/v1/observe", "Bearer token", some "key"⟩
    | true => .access ⟨.set [.read, .write] none (by decide), 2, 1, 0⟩
  merge _ _ own := own
  merge_same _ _ := rfl

/-- The small deployment after some steps. -/
def smallRun (actions : List (Action Bool)) : Option (Traffic Bool) :=
  Deployment.small.run (Deployment.small.initial (.provisioned (.sole 1 2 none))) actions

/-- Some steps and then others. -/
theorem smallRun_append {actions later : List (Action Bool)} {T : Traffic Bool} :
    smallRun (actions ++ later) = some T
      ↔ ∃ T₁, smallRun actions = some T₁ ∧ Deployment.small.run T₁ later = some T :=
  Deployment.small.run_append

/-- The request until it waits for the lock: its body arrives in one piece. -/
def waitingSteps (body : Bytes) : List (Action Bool) :=
  [.receive false (.chunk body false), .connect false]

/-- The whole transaction of the administrator. -/
def administratorSteps : List (Action Bool) :=
  [.lock true, .administer true 50 51, .commit true ((Timeline.ticking 52 0).moment 0) true, .close true]

/-- The transaction of the request, of some statements. -/
def requestSteps (statements : Nat) : List (Action Bool) :=
  .lock false :: (List.range statements).map (fun n => .interact false ((Timeline.ticking 60 100).moment n))
    ++ [.commit false ((Timeline.ticking 60 100).moment statements) true]

/-- The steps of the observation, up to its commit: while it waits for the lock, the administrator has
its transaction. -/
def observingSteps : List (Action Bool) :=
  waitingSteps smallBody ++ administratorSteps ++ requestSteps 14

/-- The request with an empty body, answered and closed before the administrator begins. -/
def refusedSteps : List (Action Bool) :=
  waitingSteps [] ++ requestSteps 1 ++ [.send false, .send false, .close false]

/-- A client of the small deployment, which knows the texts that it receives. -/
def Decoding.small : Decoding where
  loads bytes :=
    if bytes = bytesOf (compactText (smallResult 107)) then some (smallResult 107) else some .null
  errorBody _ := some ⟨"malformed_json", "", false⟩
  uuid _ := some 7

/-- A mutation of the client. -/
def smallAsked : NativeHTTPClient.Asked := ⟨some [], true, 201, maxRequestBytes⟩

/-- The headers of the responses. -/
def smallHeaders : List (String × String) :=
  [("content-type", "application/json"), ("x-request-id", UUID.str 7), ("cache-control", "no-store")]

/-- Whether a party has something to send. -/
def Phase.sends : Phase → Bool
  | .sending (_ :: _) => true
  | _ => false

/-! ### Two commits, one after the other -/

set_option maxRecDepth 10000 in
/-- The store of the two parties is that of the administrator's change and then the observation. -/
theorem run_serial_small : ∃ T, smallRun observingSteps = some T
    ∧ T.log.map Entry.party = [true, false]
    ∧ T.store = runEvents .plain (loggedEvents T.log) (.provisioned (.sole 1 2 none)) := by
  have hparties : (smallRun observingSteps).map (fun T => T.log.map Entry.party) = some [true, false] := by
    decide +kernel
  obtain ⟨T, hT, hlog⟩ := Option.map_eq_some_iff.mp hparties
  exact ⟨T, hT, hlog, (Deployment.run_serial (.provisioned _) hT).1⟩

set_option maxRecDepth 10000 in
/-- The administrator's change, committed while the observation waits, comes before it in the serial
order. -/
theorem run_barrier_small : ∃ T₁ T before entry,
    smallRun (waitingSteps smallBody ++ administratorSteps) = some T₁
      ∧ T₁.log.length = 1 ∧ Deployment.small.run T₁ (requestSteps 14) = some T
      ∧ T.log = before ++ [entry] ∧ entry.party = false ∧ T₁.log <+: before := by
  have hlength : (smallRun (waitingSteps smallBody ++ administratorSteps)).map
      (fun T => T.log.length) = some 1 := by decide +kernel
  have hsends : (smallRun observingSteps).map (fun T => ((T.phase false).sends, T.log.length))
      = some (true, 2) := by
    decide +kernel
  obtain ⟨T, hrun, hstate⟩ := Option.map_eq_some_iff.mp hsends
  obtain ⟨hphase, htwo⟩ := Prod.mk.inj hstate
  obtain ⟨T₁, hT₁, hT⟩ := smallRun_append.mp hrun
  rw [hT₁] at hlength
  have hone : T₁.log.length = 1 := Option.some.inj hlength
  have hkept : Action.drop false ∉ observingSteps := mem_lostIn.not.mp (by decide +kernel)
  cases hp : T.phase false with
  | sending messages =>
    cases messages with
    | nil => rw [hp] at hphase; cases hphase
    | cons message rest =>
      obtain ⟨before, entry, hlog, hparty, hprefix | hsame, -⟩ :=
        Deployment.run_barrier (.provisioned _) hT₁ hT hkept hp
      · exact ⟨T₁, T, before, entry, hT₁, hone, hT, hlog, hparty, hprefix⟩
      · rw [hsame, htwo] at hone
        cases hone
  | _ => rw [hp] at hphase; cases hphase

/-! ### What the client is told -/

set_option maxRecDepth 10000 in
/-- The client's result is that of the observation, after the administrator's change. -/
theorem run_result_small : ∃ T before entry after c,
    smallRun (observingSteps ++ [.send false, .send false]) = some T ∧ T.log.length = 2
      ∧ T.log = before ++ entry :: after ∧ entry.party = false ∧ entry.event = some (.call c) := by
  have hwire : (smallRun (observingSteps ++ [.send false, .send false])).map
      (fun T => (T.wire false, T.log.length))
      = some ([.start 201 smallHeaders, .body (bytesOf (compactText (smallResult 107)))], 2) := by
    decide +kernel
  obtain ⟨T, hT, hsent⟩ := Option.map_eq_some_iff.mp hwire
  obtain ⟨hmessages, hlength⟩ := Prod.mk.inj hsent
  have hcarried : Carried (T.wire false)
      (.response 201 smallHeaders [bytesOf (compactText (smallResult 107))] true) :=
    Or.inr ⟨_, hmessages, fun _ => by rw [List.flatten_singleton]⟩
  have hresult : NativeHTTPClient.request .small [] (fun value => some value) smallAsked
      (.response 201 smallHeaders [bytesOf (compactText (smallResult 107))] true)
      = .ok (smallResult 107) := by decide +kernel
  obtain ⟨before, entry, after, c, -, -, hlog, hparty, hevent, -⟩ :=
    Deployment.run_result (.provisioned _) hT rfl hcarried hresult
  exact ⟨T, before, entry, after, c, hT, hlength, hlog, hparty, hevent⟩

set_option maxRecDepth 10000 in
/-- The client's request was malformed: nothing of it is committed then, nor after the administrator's
change. -/
theorem run_definite_small : ∃ T₁ T, smallRun refusedSteps = some T₁
    ∧ Deployment.small.run T₁ administratorSteps = some T ∧ T.log.map Entry.party = [false, true]
    ∧ ∀ entry ∈ T.log, entry.party = false → entry.event = none := by
  have hwire : (smallRun refusedSteps).map (fun T => T.wire false)
      = some [.start 400 smallHeaders, .body (validationReply true 7).content] := by
    decide +kernel
  have hparties : (smallRun (refusedSteps ++ administratorSteps)).map (fun T => T.log.map Entry.party)
      = some [false, true] := by
    decide +kernel
  obtain ⟨T, hrun, hlog⟩ := Option.map_eq_some_iff.mp hparties
  obtain ⟨T₁, hT₁, hT⟩ := smallRun_append.mp hrun
  rw [hT₁] at hwire
  have hcarried : Carried (T₁.wire false)
      (.response 400 smallHeaders [(validationReply true 7).content] true) :=
    Or.inr ⟨_, Option.some.inj hwire, fun _ => by rw [List.flatten_singleton]⟩
  have hresult : NativeHTTPClient.request .small ["malformed_json"] (fun value => some value) smallAsked
      (.response 400 smallHeaders [(validationReply true 7).content] true)
      = .error { code := "malformed_json", nativeStatus := some 400, requestId := some 7 } := by
    decide +kernel
  have hnone := Deployment.run_definite (.provisioned _) hT₁ hT rfl (fun _ => hcarried)
    (fun h => by cases h) rfl hresult rfl
  exact ⟨T₁, T, hT₁, hT, hlog, hnone⟩

end PgAgmemory

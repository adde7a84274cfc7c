import PgAgmemory.Delivery.Boundary
import PgAgmemory.Library.Stepwise

/-! # The machine of a tenant

API requests, worker transactions and changes of access run side by side. Each is a *party*: it
connects, waits for the tenant's advisory lock, runs its transaction one statement at a time, commits,
and still under the lock sends what it has buffered; the lock goes with the connection. Parties take
their steps in any order (`Action`), any of them may meet an exception at any step, and a connection
may be lost.

Nothing in the machine keeps parties apart but the lock. A statement is executed on the session's own
changes and on whatever has been committed since its last statement (`Deployment.merge`). -/

namespace PgAgmemory

open Interactive (Program)
open Interactive.Program (interactOnce)

/-! ## Parties -/

/-- What a party is there for. -/
inductive Work where
  /-- `TransactionBoundary.__call__`. -/
  | http (incoming : Incoming)
  /-- `job_transaction`, with what the worker does in it. -/
  | job (subject : String) (request : Request)
  /-- `scope_access`. -/
  | access (request : ScopeAccessRequest)

/-- **A deployment**: the parties and what each is there for, and how a transaction's store takes up what
others have committed: from the store that it last saw, the store that is there now and its own. -/
structure Deployment (Party : Type) where
  app : Application
  work : Party → Work
  merge : Store → Store → Store → Store
  /-- Where nothing was committed, a transaction goes on with its own store. -/
  merge_same : ∀ s own, merge s s own = own

/-- The moments of a transaction's statements so far; the server's timestamps never decrease. -/
structure Elapsed where
  used : List Moment
  sorted : used.Pairwise fun m m' => m.timestamp ≤ m'.timestamp

/-- Before the first statement. -/
def Elapsed.none : Elapsed := ⟨[], .nil⟩

/-- A moment that is not before the last one. -/
def Elapsed.Before (e : Elapsed) (m : Moment) : Prop := ∀ u ∈ e.used, u.timestamp ≤ m.timestamp

instance Elapsed.decidableBefore (e : Elapsed) (m : Moment) : Decidable (e.Before m) :=
  inferInstanceAs (Decidable (∀ u ∈ e.used, u.timestamp ≤ m.timestamp))

/-- One more statement. -/
def Elapsed.next (e : Elapsed) (m : Moment) (h : e.Before m) : Elapsed where
  used := e.used ++ [m]
  sorted := List.pairwise_append.mpr
    ⟨e.sorted, List.pairwise_singleton _ _, fun u hu v hv => by
      rw [List.mem_singleton.mp hv]
      exact h u hu⟩

/-- **The timeline of a transaction**: the moments of its statements, then that of its commit. -/
def Elapsed.timeline (e : Elapsed) (m : Moment) (h : e.Before m) : Timeline where
  moment n := e.used.getD n m
  mono i j hle := by
    rw [List.getD_eq_getElem?_getD, List.getD_eq_getElem?_getD]
    cases hj : e.used[j]? with
    | none =>
      cases hi : e.used[i]? with
      | none => exact Int.le_refl _
      | some u => exact h u (List.mem_of_getElem? hi)
    | some v =>
      obtain ⟨hlt, rfl⟩ := List.getElem?_eq_some_iff.mp hj
      have hi : i < e.used.length := Nat.lt_of_le_of_lt hle hlt
      rw [List.getElem?_eq_getElem hi]
      rcases Nat.lt_or_eq_of_le hle with hless | rfl
      · exact List.pairwise_iff_getElem.mp e.sorted i j hi hlt hless
      · exact Int.le_refl _

/-- Where a party stands. -/
inductive Phase where
  /-- The body of a request is being read. -/
  | reading (subject : String)
  /-- The connection is made and the principal looked up. -/
  | connecting (subject : String)
  /-- The lock is asked for. -/
  | waiting (principal : UUID)
  /-- The administrator's lock is asked for. -/
  | queued
  /-- In the transaction: the store last seen, the moments of its statements so far, what is left of its
  program, and its session. -/
  | working (principal : UUID) (base : Store) (elapsed : Elapsed) (rest : Tx Served)
      (session : Session)
  /-- In the administrator's transaction. -/
  | administering
  /-- Before the administrator's commit: the store last seen, the store to commit and the two clock
  readings. -/
  | administered (base after : Store) (now recordedAt : Time)
  /-- The connection was lost in the transaction. -/
  | severed
  /-- The transaction is rolled back, or its commit failed; the connection is still open. -/
  | unwinding (raised : Raised)
  /-- The transaction is committed, and the buffered messages are sent. -/
  | sending (rest : List Message)
  /-- Sending has failed. -/
  | closing
  /-- The connection is closed, and an error is answered. -/
  | answering (rest : List Message)
  | finished

/-- Whether a party is in a transaction. -/
def Phase.inTransaction : Phase → Bool
  | .working _ _ _ _ _ | .administering | .administered _ _ _ _ => true
  | _ => false

/-- A committed transaction: its party, its event, and the reply that its party buffered. -/
structure Entry (Party : Type) where
  party : Party
  /-- None when the body was no request. -/
  event : Option Event
  reply : Option Reply

/-- The events of a log. -/
def loggedEvents {Party : Type} (log : List (Entry Party)) : List Event := log.filterMap Entry.event

/-- **The state of a tenant.** -/
structure Traffic (Party : Type) where
  store : Store
  /-- Who holds the advisory lock. -/
  holder : Option Party
  phase : Party → Phase
  /-- What each party has read of its body. -/
  heard : Party → Bytes
  /-- What each party has sent. -/
  wire : Party → List Message
  /-- The committed transactions, in order. -/
  log : List (Entry Party)

/-- What the network hands to a request that is being read. -/
inductive Received where
  | chunk (content : Bytes) (more : Bool)
  | disconnect

/-- **The steps of parties.** -/
inductive Action (Party : Type) where
  | receive (p : Party) (received : Received)
  /-- An exception at the await that the party is at. -/
  | raise (p : Party) (raised : Raised)
  | connect (p : Party)
  | lock (p : Party)
  /-- One statement, or the exception that the program ends with. -/
  | interact (p : Party) (m : Moment)
  | administer (p : Party) (now recordedAt : Time)
  /-- A commit, whose acknowledgement may be lost. -/
  | commit (p : Party) (m : Moment) (acknowledged : Bool)
  | send (p : Party)
  | close (p : Party)
  /-- The connection of a party is lost. -/
  | drop (p : Party)

namespace Deployment

variable {Party : Type} (d : Deployment Party)

/-- The identifier of a party's request. -/
def requestId (p : Party) : UUID :=
  match d.work p with
  | .http incoming => incoming.requestId
  | _ => 0

/-- The program of a party's transaction, once its body is read. -/
def program (p : Party) (body : Bytes) : Tx Served :=
  match d.work p with
  | .http incoming => d.app.serve incoming body
  | .job _ request => d.app.work request
  | .access _ => .raise .database

/-- The messages that an HTTP party buffers for a reply. -/
def buffered (p : Party) (reply : Option Reply) : List Message :=
  (reply.map fun reply => reply.messages (d.requestId p)).getD []

/-- Where an exception leaves a party whose connection is closed: its error is answered, or the
exception goes on to the caller. -/
def failed (p : Party) (raised : Raised) : Phase :=
  match d.work p, raised.error? with
  | .http incoming, some error => .answering (error.messages incoming.requestId)
  | _, _ => .finished

/-- Where a party begins. -/
def begins (p : Party) : Phase :=
  match d.work p with
  | .http incoming =>
    match incoming.subject? d.app.verify with
    | some subject => .reading subject
    | none => d.failed p .invalidToken
  | .job subject _ => .connecting subject
  | .access _ => .queued

/-- The tenant before any party has taken a step. -/
def initial (s : Store) : Traffic Party where
  store := s
  holder := none
  phase := d.begins
  heard _ := []
  wire _ := []
  log := []

end Deployment

namespace Traffic

variable {Party : Type} [DecidableEq Party]

/-- A party goes on to a phase. -/
def set (T : Traffic Party) (p : Party) (phase : Phase) : Traffic Party :=
  { T with phase := Function.update T.phase p phase }

/-- The lock of a party is free again. -/
def release (T : Traffic Party) (p : Party) : Traffic Party :=
  { T with holder := if T.holder = some p then none else T.holder }

/-- A party commits a store. -/
def record (T : Traffic Party) (s : Store) (entry : Entry Party) : Traffic Party :=
  { T with store := s, log := T.log ++ [entry] }

/-- A message goes out. -/
def send (T : Traffic Party) (p : Party) : Option (Traffic Party) :=
  match T.phase p with
  | .sending (message :: rest) =>
    some ({ T with wire := Function.update T.wire p (T.wire p ++ [message]) }.set p (.sending rest))
  | .answering (message :: rest) =>
    some ({ T with wire := Function.update T.wire p (T.wire p ++ [message]) }.set p (.answering rest))
  | _ => none

/-- A connection is lost: the server rolls its transaction back and frees its lock, and the party goes on
with what it needs no connection for. -/
def dropped (T : Traffic Party) (p : Party) : Traffic Party :=
  if (T.phase p).inTransaction then (T.release p).set p .severed else T.release p

end Traffic

namespace Deployment

variable {Party : Type} [DecidableEq Party] (d : Deployment Party)

/-- A chunk of a body. -/
def receive (T : Traffic Party) (p : Party) (subject : String) (limit : Nat) : Received → Traffic Party
  | .disconnect => T.set p .finished
  | .chunk content more =>
    let T := { T with heard := Function.update T.heard p (T.heard p ++ content) }
    if limit < (T.heard p).length then T.set p (d.failed p (.memory .bodyTooLarge))
    else if more then T else T.set p (.connecting subject)

/-- An exception from outside. -/
def interrupted (T : Traffic Party) (p : Party) (raised : Raised) : Option (Traffic Party) :=
  match T.phase p with
  | .reading _ | .connecting _ | .waiting _ | .queued | .severed => some (T.set p (d.failed p raised))
  | .working _ _ _ _ _ | .administering | .administered _ _ _ _ => some (T.set p (.unwinding raised))
  -- `sent` is set before the first message goes out
  | .sending _ => some (T.set p .closing)
  | .unwinding _ => some (T.set p (.unwinding raised))
  | .answering _ => some (T.set p .finished)
  | _ => none

/-- The connection is made: the principal of the subject, or no principal. -/
def connect (T : Traffic Party) (p : Party) (subject : String) : Traffic Party :=
  match T.store.access.principals.rows.find? fun r => r.externalSubject = subject with
  | none => T.set p (d.failed p (.memory .unauthenticated))
  | some row => T.set p (.waiting row.id)

/-- The lock is taken, and the transaction begins. -/
def lock (T : Traffic Party) (p : Party) : Option (Traffic Party) :=
  if T.holder.isSome then none
  else
    match T.phase p with
    | .waiting principal => some ({ T with holder := some p }.set p
        (.working principal T.store .none (d.program p (T.heard p)) ⟨principal, T.store, []⟩))
    | .queued => some ({ T with holder := some p }.set p .administering)
    | _ => none

/-- The session of a transaction, with what it sees now. -/
def refreshed (T : Traffic Party) (base : Store) (session : Session) : Session :=
  { session with store := d.merge base T.store session.store }

/-- One statement of a transaction, or the fault that its program ends with. -/
def interact (T : Traffic Party) (p : Party) (m : Moment) : Option (Traffic Party) :=
  match T.phase p with
  | .working principal base elapsed rest session =>
    if h : elapsed.Before m ∧ rest.value?.isNone then
      match interactOnce (step d.app.platform) m rest (d.refreshed T base session) with
      | .ok (rest, session) =>
        some (T.set p (.working principal T.store (elapsed.next m h.1) rest session))
      | .error fault => some (T.set p (.unwinding fault.raised))
    else none
  | _ => none

/-- The administrator's statements. -/
def administer (T : Traffic Party) (p : Party) (now recordedAt : Time) : Option (Traffic Party) :=
  match T.phase p, d.work p with
  | .administering, .access request =>
    match request.run now recordedAt T.store with
    | .ok (_, after) => some (T.set p (.administered T.store after now recordedAt))
    | .error _ => some (T.set p (.unwinding .other))
  | _, _ => none

/-- The end of a commit; after a lost acknowledgement the party sees an exception. -/
def settle (T : Traffic Party) (p : Party) (after : Store) (entry : Entry Party) (acknowledged : Bool) :
    Traffic Party :=
  (T.record after entry).set p
    (if acknowledged then .sending (d.buffered p entry.reply) else .unwinding .dependency)

/-- A commit of a session. -/
def commitSession (T : Traffic Party) (p : Party) (m : Moment) (session : Session)
    (entry : Entry Party) (acknowledged : Bool) : Traffic Party :=
  match PgAgmemory.commit m session with
  | .error fault => T.set p (.unwinding fault.raised)
  | .ok after => d.settle T p after entry acknowledged

/-- A commit. -/
def commit (T : Traffic Party) (p : Party) (m : Moment) (acknowledged : Bool) : Option (Traffic Party) :=
  match T.phase p, d.work p with
  | .working principal base elapsed rest session, _ =>
    if h : elapsed.Before m then
      match rest.value? with
      | none => none
      | some .unserialisable => some (T.set p (.unwinding .other))
      | some (.refused reply) => some (d.commitSession T p m (d.refreshed T base session)
          ⟨p, none, some reply⟩ acknowledged)
      | some (.answered request _ reply) => some (d.commitSession T p m (d.refreshed T base session)
          ⟨p, some (.call ⟨principal, elapsed.timeline m h, request⟩), reply⟩ acknowledged)
    else none
  | .administered base after now recordedAt, .access request =>
    some (d.settle T p (d.merge base T.store after) ⟨p, some (.access request now recordedAt), none⟩
      acknowledged)
  | _, _ => none

/-- The connection is closed. -/
def close (T : Traffic Party) (p : Party) : Option (Traffic Party) :=
  match T.phase p with
  | .sending [] | .closing => some ((T.release p).set p .finished)
  | .unwinding raised => some ((T.release p).set p (d.failed p raised))
  | _ => none

/-- **One step of the tenant**, if it can be taken. -/
def act (T : Traffic Party) : Action Party → Option (Traffic Party)
  | .receive p received =>
    match T.phase p, d.work p with
    | .reading subject, .http incoming => some (d.receive T p subject incoming.limit received)
    | _, _ => none
  | .raise p raised => if raised.interrupts then d.interrupted T p raised else none
  | .connect p =>
    match T.phase p with
    | .connecting subject => some (d.connect T p subject)
    | _ => none
  | .lock p => d.lock T p
  | .interact p m => d.interact T p m
  | .administer p now recordedAt => d.administer T p now recordedAt
  | .commit p m acknowledged => d.commit T p m acknowledged
  | .send p => T.send p
  | .close p => d.close T p
  | .drop p => some (T.dropped p)

/-- **A run of the tenant**: some steps of its parties, in any order. -/
def run (T : Traffic Party) (actions : List (Action Party)) : Option (Traffic Party) :=
  actions.foldlM d.act T

@[simp] theorem run_nil (T : Traffic Party) : d.run T [] = some T := rfl

theorem run_cons {T T' : Traffic Party} {a : Action Party} {actions : List (Action Party)} :
    d.run T (a :: actions) = some T' ↔ ∃ T₁, d.act T a = some T₁ ∧ d.run T₁ actions = some T' := by
  unfold run
  rw [List.foldlM_cons]
  exact Option.bind_eq_some_iff

theorem run_append {T T' : Traffic Party} {actions later : List (Action Party)} :
    d.run T (actions ++ later) = some T'
      ↔ ∃ T₁, d.run T actions = some T₁ ∧ d.run T₁ later = some T' := by
  unfold run
  rw [List.foldlM_append]
  exact Option.bind_eq_some_iff

end Deployment

end PgAgmemory

import PgAgmemory.Library.Journal
import PgAgmemory.Service.Access
import PgAgmemory.Storage.Policies

/-! # The access log

Every change of a membership raises the access epoch of its tenant by one and records what it
replaces, so the log of a tenant replays to its memberships; whatever else a call does, it writes
nothing. -/

namespace PgAgmemory

open Journal (Follows replay)
open Keyed (HasKey Table)
open ScopeAccessRequest (Grant)

/-! ## Tenants -/

/-- The tenants of a deployment. -/
abbrev Tenants := UUID → Option Store

/-- How the connection to the database fares during a call. -/
inductive Connection where
  | holds
  /-- It fails before the commit. -/
  | breaks
  /-- It fails after the commit: the caller does not learn the outcome. -/
  | drops
  deriving DecidableEq

/-- An attempt to read or change a membership. -/
structure AccessAttempt where
  tenantId : UUID
  request : ScopeAccessRequest
  /-- The readings of the clock, for the evaluation and for the event. -/
  now : Time
  recordedAt : Time
  connection : Connection

/-- What an attempt returns, and the tenants that it leaves. -/
def AccessAttempt.exec (attempt : AccessAttempt) (tenants : Tenants) :
    Except ScopeAccessError ScopeAccessResult × Tenants :=
  match tenants attempt.tenantId with
  | none => (.error .notFound, tenants)
  | some s =>
    match attempt.request.run attempt.now attempt.recordedAt s with
    | .error error => (.error error, tenants)
    | .ok (r, s') =>
      match attempt.connection with
      | .holds => (.ok r, Function.update tenants attempt.tenantId (some s'))
      | .breaks => (.error .databaseError, tenants)
      | .drops => (.error .databaseError, Function.update tenants attempt.tenantId (some s'))

/-- The tenants after some attempts. -/
def runAttempts (attempts : List AccessAttempt) (tenants : Tenants) : Tenants :=
  attempts.foldl (fun tenants attempt => (attempt.exec tenants).2) tenants

/-! ## Changes -/

/-- The permissions and expiry that a principal has in a scope. -/
def Access.grant? (a : Access) (key : UUID × UUID) : Option Grant :=
  (a.members.find? key).map fun m => (m.permissions, m.expiresAt)

/-- An event as the entry of a journal. -/
def ScopeAccessEventRow.entry (e : ScopeAccessEventRow) : Journal.Entry (UUID × UUID) Grant where
  number := e.accessEpoch
  key := (e.scopeId, e.principalId)
  previous := e.previousPermissions.map fun p => (p, e.previousExpiresAt)
  after := e.permissions.map fun p => (p, e.expiresAt)

/-- **One change of one membership**, recorded by one event under the next access epoch. -/
structure Access.Changed (a a' : Access) (event : ScopeAccessEventRow) : Prop where
  epoch : a'.accessEpoch = a.accessEpoch + 1
  number : event.accessEpoch = a'.accessEpoch
  recorded : a'.events.rows = event :: a.events.rows
  /-- The event states the membership before it. -/
  previous : event.entry.previous = a.grant? event.entry.key
  /-- The memberships are those before it but for the one that it states. -/
  grants : a'.grant? = Journal.apply a.grant? event.entry
  others : a'.deletionEpoch = a.deletionEpoch ∧ a'.dedupSecret = a.dedupSecret
    ∧ a'.principals = a.principals ∧ a'.scopes = a.scopes

theorem grant?_put (a : Access) (m : ScopeMemberRow) :
    { a with members := a.members.put m }.grant?
      = Function.update a.grant? (m.scopeId, m.principalId) (some (m.permissions, m.expiresAt))
        := by
  funext key
  rw [Access.grant?, Table.find?_put, Function.update_apply]
  exact apply_ite _ _ _ _

theorem grant?_delete (a : Access) (key : UUID × UUID) :
    { a with members := a.members.delete fun m => (m.scopeId, m.principalId) = key }.grant?
      = Function.update a.grant? key none := by
  funext key'
  rw [Function.update_apply]
  exact (congrArg _ (Table.find?_delete_key a.members key key')).trans (apply_ite _ _ _ _)

section Requests

variable {request : ScopeAccessRequest} {now recordedAt : Time} {s s' : Store}

/-- The membership that a request is about. -/
def ScopeAccessRequest.key (request : ScopeAccessRequest) : UUID × UUID :=
  (request.scopeId, request.principalId)

/-- **What a write does**: one change, to the membership after it. -/
theorem ScopeAccessRequest.write_eq_ok {a a' : Access} {after : Option Grant}
    (h : request.write a (a.grant? request.key) after recordedAt = .ok a') :
    a.accessEpoch ≠ maxEpoch ∧ a'.grant? request.key = after ∧ ∃ event, a.Changed a' event
      ∧ event.entry.key = request.key := by
  unfold write at h
  split at h
  next => cases h
  next hroom =>
    dsimp only at h
    split at h
    next => cases h
    next events hinsert =>
      cases h
      obtain ⟨-, hrows⟩ := Table.insert?_eq_some_iff.mp hinsert
      have hstated : ∀ g : Option Grant, (g.map Prod.fst).map (fun p =>
        (p, g.bind Prod.snd)) = g := by
        intro g
        cases g <;> rfl
      cases after with
      | none =>
        have hgrants := grant?_delete a request.key
        refine ⟨hroom, (congrFun hgrants request.key).trans (Function.update_self _ _ _), _,
          ⟨rfl, rfl, hrows, ?_, hgrants, rfl, rfl, rfl, rfl⟩, rfl⟩
        exact hstated (a.grant? request.key)
      | some g =>
        have hgrants := grant?_put a ⟨request.scopeId, request.principalId, g.1, g.2⟩
        refine ⟨hroom, (congrFun hgrants request.key).trans (Function.update_self _ _ _), _,
          ⟨rfl, rfl, hrows, ?_, hgrants, rfl, rfl, rfl, rfl⟩, rfl⟩
        exact hstated (a.grant? request.key)

/-- Whether a request asks for the membership that is there, up to the order of its permissions. -/
def ScopeAccessRequest.asksNothing (request : ScopeAccessRequest) (before : Option Grant) : Prop :=
  match request.operation with
  | .get => True
  | .set permissions expiresAt _ => ∃ b, before = some b ∧ (∀ p, p ∈ permissions ↔ p ∈ b.1)
    ∧ expiresAt = b.2
  | .revoke => before = none

/-- Whether a request sets an expiry that is not in the future. -/
def ScopeAccessRequest.expires (request : ScopeAccessRequest) (now : Time) : Prop :=
  match request.operation with
  | .set _ (some t) _ => t ≤ now
  | _ => False

theorem mem_configured {ps : List Permission} {p : Permission} : p ∈ configured ps ↔ p ∈ ps := by
  rw [configured, List.mem_filter, List.contains_eq_mem, decide_eq_true_iff]
  refine and_iff_right ?_
  cases p <;> decide

/-- The canonical order tells which permissions there are. -/
theorem configured_eq_iff {ps qs : List Permission} :
    configured ps = configured qs ↔ ∀ p, p ∈ ps ↔ p ∈ qs := by
  constructor
  · intro h p
    rw [← mem_configured, h, mem_configured]
  · intro h
    refine List.filter_congr fun p _ => ?_
    rw [List.contains_eq_mem, List.contains_eq_mem]
    exact decide_eq_decide.mpr (h p)

/-- A membership that is read is the one that is there. -/
theorem ScopeAccessRequest.membership_eq_ok {before : Option Grant}
    (h : request.membership s = .ok before) : before = s.access.grant? request.key := by
  unfold membership at h
  dsimp only at h
  split at h
  next => cases h
  next =>
    cases h
    rfl

/-- **What a target is**: a get and a request that asks for nothing change nothing; a membership
that is not changed has the permissions and expiry of the target, and a set does not expire at
once. -/
theorem ScopeAccessRequest.target_eq_ok {before after : Option Grant} {changed : Bool}
    (h : request.target before now = .ok (after, changed)) :
    (request.asksNothing before ↔ changed = false) ∧ ¬request.expires now
      ∧ (changed = false → after.map (fun g => (configured g.1, g.2))
        = before.map fun g => (configured g.1, g.2))
      ∧ (changed = true → request.mutates = true) := by
  unfold target at h
  unfold asksNothing expires mutates
  cases hop : request.operation with
  | get =>
    rw [hop] at h
    cases h
    exact ⟨iff_of_true trivial rfl, not_false, fun _ => rfl, fun h => by cases h⟩
  | set permissions expiresAt valid =>
    rw [hop] at h
    dsimp only at h ⊢
    split at h
    next => cases h
    next =>
      split at h
      next => cases h
      next hfuture =>
        cases h
        have hasks : (∃ b, before = some b ∧ (∀ p, p ∈ permissions ↔ p ∈ b.1) ∧ expiresAt = b.2)
            ↔ (before.all fun b => decide (configured permissions ≠ configured b.1)
              || decide (expiresAt ≠ b.2)) = false := by
          cases before with
          | none => exact iff_of_false (fun ⟨_, h, _⟩ => by cases h) fun h => by cases h
          | some b =>
            rw [Option.all_some, Bool.or_eq_false_iff, decide_eq_false_iff_not,
              decide_eq_false_iff_not,
              not_not, not_not, configured_eq_iff]
            exact ⟨fun ⟨_, h, hp, he⟩ => by cases h; exact ⟨hp, he⟩, fun ⟨hp, he⟩ => ⟨b, rfl, hp, he⟩⟩
        refine ⟨hasks, ?_, fun hsame => ?_, fun _ => rfl⟩
        · cases expiresAt with
          | none => exact not_false
          | some t => exact fun hexpired => hfuture (decide_eq_true hexpired)
        · obtain ⟨b, rfl, hpermissions, rfl⟩ := hasks.mpr hsame
          rw [Option.map_some, Option.map_some, configured_eq_iff.mpr fun p => mem_configured.trans
            (hpermissions p)]
  | revoke =>
    rw [hop] at h
    cases h
    refine ⟨?_, not_false, ?_, fun _ => rfl⟩
    · cases before <;> simp
    · cases before <;> simp

/-- **What a request that succeeds does.** -/
structure ScopeAccessRequest.Runs (request : ScopeAccessRequest) (now : Time) (s : Store)
    (r : ScopeAccessResult) (s' : Store) : Prop where
  /-- A change is expected at the epoch it finds. -/
  expected : request.mutates = true → s.access.accessEpoch = request.expectedAccessEpoch
  future : ¬request.expires now
  asksNothing : request.asksNothing (s.access.grant? request.key) ↔ r.changed = false
  stays : r.changed = false → s' = s
  changes : r.changed = true → s.access.accessEpoch ≠ maxEpoch ∧ request.mutates = true
    ∧ s' = { s with access := s'.access }
    ∧ ∃ event, s.access.Changed s'.access event ∧ event.entry.key = request.key
  /-- It reports the membership that is there afterwards. -/
  reported : ∃ after, r = ScopeAccessRequest.result after s'.access.accessEpoch r.changed now
    ∧ after.map (fun g => (configured g.1, g.2))
      = (s'.access.grant? request.key).map fun g => (configured g.1, g.2)

/-- **Inversion of a request.** -/
theorem ScopeAccessRequest.runs {r : ScopeAccessResult}
    (h : request.run now recordedAt s = .ok (r, s')) : request.Runs now s r s' := by
  unfold run at h
  split at h
  next => cases h
  next =>
    split at h
    next => cases h
    next hepoch =>
      have hexpected : request.mutates = true → s.access.accessEpoch =
        request.expectedAccessEpoch := by
        intro hmutates
        by_contra hne
        exact hepoch (Bool.and_eq_true_iff.mpr ⟨hmutates, decide_eq_true hne⟩)
      obtain ⟨before, hbefore, h⟩ := bind_eq_ok.mp h
      obtain rfl := membership_eq_ok hbefore
      cases htarget : request.target (s.access.grant? request.key) now with
      | error e =>
        rw [htarget] at h
        cases h
      | ok result =>
        obtain ⟨after, changed⟩ := result
        rw [htarget] at h
        obtain ⟨hasks, hfuture, hsame, hmutates⟩ := target_eq_ok htarget
        cases changed with
        | false =>
          cases h
          refine ⟨hexpected, hfuture, hasks, fun _ => rfl, fun hchanged =>
            ?_, ⟨after, rfl, hsame rfl⟩⟩
          cases hchanged
        | true =>
          change (request.write s.access (s.access.grant? request.key) after recordedAt >>= _) =
            _ at h
          cases hwrite : request.write s.access (s.access.grant? request.key) after recordedAt with
          | error e =>
            rw [hwrite] at h
            cases h
          | ok access =>
            rw [hwrite] at h
            cases h
            obtain ⟨hroom, hafter, event, hchanged, hkey⟩ := write_eq_ok hwrite
            refine ⟨hexpected, hfuture, hasks, fun hsame => ?_,
              fun _ => ⟨hroom, hmutates rfl, rfl, event, hchanged, hkey⟩, ⟨after, rfl, ?_⟩⟩
            · cases hsame
            · exact congrArg _ hafter.symm

/-- **The reported permissions are the permitted ones** at the instant of the evaluation. -/
theorem ScopeAccessRequest.Runs.effective {r : ScopeAccessResult} (h : request.Runs now s r s') :
    r.effectivePermissions = permissionOrder.filter fun p =>
      View.permitted ⟨s', request.principalId, now⟩ request.scopeId p := by
  obtain ⟨after, hr, hafter⟩ := h.reported
  have hpermitted : ∀ p, View.permitted ⟨s', request.principalId, now⟩ request.scopeId p
      = (s'.access.grant? request.key).any fun g => (g.1.contains p || g.1.contains .admin)
        && g.2.all fun expiry => decide (now < expiry) := by
    intro p
    rw [Access.grant?, Option.any_map]
    rfl
  rw [hr]
  simp only [hpermitted]
  cases hgrant : s'.access.grant? request.key with
  | none =>
    rw [hgrant] at hafter
    rw [Option.map_eq_none_iff.mp hafter]
    rfl
  | some g =>
    rw [hgrant] at hafter
    obtain ⟨g', rfl, hsame⟩ := Option.map_eq_some_iff.mp hafter
    obtain ⟨hpermissions, hexpiry⟩ := Prod.mk.inj hsame
    simp only [ScopeAccessRequest.result, Option.map_some, Option.getD_some, Option.bind_some,
      Option.any_some, hpermissions, hexpiry]
    have hlive : (g.2.all fun t => decide (now < t)) = !(g.2.any fun t => decide (t ≤ now)) := by
      cases g.2 with
      | none => rfl
      | some t => simp only [Option.all_some, Option.any_some, ← decide_not, Int.not_le]
    rw [hlive]
    cases g.2.any fun t => decide (t ≤ now) with
    | true =>
      rw [if_pos rfl, if_neg (by decide), eq_comm, List.filter_eq_nil_iff]
      intro p _
      rw [Bool.not_true, Bool.and_false]
      exact Bool.false_ne_true
    | false =>
      rw [if_neg Bool.false_ne_true]
      simp only [Bool.not_false, Bool.and_true]
      have hadmin : (configured g.1).contains .admin = g.1.contains .admin := by
        rw [List.contains_eq_mem, List.contains_eq_mem]
        exact decide_eq_decide.mpr mem_configured
      rw [hadmin]
      cases g.1.contains Permission.admin with
      | true =>
        simp only [Bool.or_true, List.filter_true]
        rfl
      | false =>
        simp only [Bool.or_false]
        rfl

end Requests

/-! ## Attempts -/

/-- **One attempt**: it changes one membership and records it, or writes nothing. -/
structure AccessStep (attempt : AccessAttempt) (tenants : Tenants) : Prop where
  writes : (attempt.exec tenants).2 = tenants ∨ ∃ s s' event, tenants attempt.tenantId = some s
    ∧ (attempt.exec tenants).2 = Function.update tenants attempt.tenantId (some s')
    ∧ s' = { s with access := s'.access } ∧ s.access.Changed s'.access event
    ∧ event.entry.key = attempt.request.key
  /-- A change is reported as one. -/
  reported : ∀ r, (attempt.exec tenants).1 = .ok r →
    (r.changed = true ↔ (attempt.exec tenants).2 ≠ tenants)
  /-- An expectation of another epoch writes nothing. -/
  stale : ∀ s, tenants attempt.tenantId = some s → attempt.request.mutates = true →
    s.access.accessEpoch ≠ attempt.request.expectedAccessEpoch → (attempt.exec tenants).2 = tenants
  /-- An expiry that is not in the future writes nothing. -/
  expired : attempt.request.expires attempt.now → (attempt.exec tenants).2 = tenants
  /-- A request for the membership that is there writes nothing. -/
  noop : ∀ s, tenants attempt.tenantId = some s →
    attempt.request.asksNothing (s.access.grant? attempt.request.key) →
      (attempt.exec tenants).2 = tenants
  /-- With the largest epoch nothing is written. -/
  exhausted : ∀ s, tenants attempt.tenantId = some s → s.access.accessEpoch = maxEpoch →
    (attempt.exec tenants).2 = tenants
  /-- The effective permissions are those that the policies grant at the instant of the
    evaluation. -/
  effective : ∀ r, (attempt.exec tenants).1 = .ok r → r.evaluatedAt = attempt.now
    ∧ ∃ s', (attempt.exec tenants).2 attempt.tenantId = some s'
      ∧ r.effectivePermissions = permissionOrder.filter fun p =>
        View.permitted ⟨s', attempt.request.principalId, r.evaluatedAt⟩ attempt.request.scopeId p

section Attempts

variable {attempt : AccessAttempt} {tenants : Tenants}

/-- What an attempt does: nothing, or what its request does to its tenant. -/
theorem AccessAttempt.exec_cases (attempt : AccessAttempt) (tenants : Tenants) :
    ((attempt.exec tenants).2 = tenants ∧ ∃ error, (attempt.exec tenants).1 = .error error)
      ∨ ∃ s r s', tenants attempt.tenantId = some s ∧ attempt.request.Runs attempt.now s r s'
        ∧ (attempt.exec tenants).2 = Function.update tenants attempt.tenantId (some s')
        ∧ ∀ r', (attempt.exec tenants).1 = .ok r' → r' = r := by
  unfold exec
  cases htenant : tenants attempt.tenantId with
  | none => exact Or.inl ⟨rfl, _, rfl⟩
  | some s =>
    dsimp only
    cases hrun : attempt.request.run attempt.now attempt.recordedAt s with
    | error error => exact Or.inl ⟨rfl, _, rfl⟩
    | ok result =>
      obtain ⟨r, s'⟩ := result
      have hruns := ScopeAccessRequest.runs hrun
      cases hconnection : attempt.connection with
      | holds => exact Or.inr ⟨s, r, s', rfl, hruns, rfl, fun r' h => (Except.ok.inj h).symm⟩
      | breaks => exact Or.inl ⟨rfl, _, rfl⟩
      | drops => exact Or.inr ⟨s, r, s', rfl, hruns, rfl, fun r' h => by cases h⟩

theorem accessStep (attempt : AccessAttempt) (tenants : Tenants) : AccessStep attempt tenants := by
  -- An attempt fails and leaves the tenants alone, or runs on the store of one tenant.
  rcases attempt.exec_cases tenants with ⟨hsame, error, hfails⟩ | ⟨s, r, s', htenant, hruns,
    hafter, hresult⟩
  · have hno : ∀ r, (attempt.exec tenants).1 ≠ .ok r := by
      intro r hok
      rw [hfails] at hok
      cases hok
    exact {
      writes := Or.inl hsame
      reported := fun r hok => absurd hok (hno r)
      stale := fun _ _ _ _ => hsame
      expired := fun _ => hsame
      noop := fun _ _ _ => hsame
      exhausted := fun _ _ _ => hsame
      effective := fun r hok => absurd hok (hno r) }
  -- A run that reports no change wrote nothing, so every refusal to write is read off the report.
  · have hstays : r.changed = false → (attempt.exec tenants).2 = tenants := by
      intro hchanged
      rw [hafter, hruns.stays hchanged, ← htenant, Function.update_eq_self]
    have hfound : ∀ {s₁}, tenants attempt.tenantId = some s₁ → s₁ = s := fun h =>
      Option.some.inj (h.symm.trans htenant)
    have hunless : (r.changed = true → False) → (attempt.exec tenants).2 = tenants := fun h =>
      hstays (eq_false_of_ne_true h)
    exact {
      writes := by
        cases hchanged : r.changed with
        | false => exact Or.inl (hstays hchanged)
        | true =>
          obtain ⟨-, -, hframe, event, hevent, hkey⟩ := hruns.changes hchanged
          exact Or.inr ⟨s, s', event, htenant, hafter, hframe, hevent, hkey⟩
      reported := by
        intro r' hok
        rw [hresult r' hok]
        refine ⟨fun hchanged hsame => ?_, fun hne => ?_⟩
        · obtain ⟨-, -, -, event, hevent, -⟩ := hruns.changes hchanged
          have hthere := congrFun (hafter.symm.trans hsame) attempt.tenantId
          rw [Function.update_self, htenant] at hthere
          have hepoch := hevent.epoch
          rw [Option.some.inj hthere] at hepoch
          exact Nat.succ_ne_self _ hepoch.symm
        · by_contra hchanged
          exact hne (hunless hchanged)
      stale := fun s₁ hs₁ hmutates hne => absurd (hruns.expected hmutates) (hfound hs₁ ▸ hne)
      expired := fun hexpires => absurd hexpires hruns.future
      noop := fun s₁ hs₁ hasks => hstays (hruns.asksNothing.mp (hfound hs₁ ▸ hasks))
      exhausted := fun s₁ hs₁ hmax => hunless fun hchanged =>
        (hruns.changes hchanged).1 (hfound hs₁ ▸ hmax)
      effective := by
        intro r' hok
        rw [hresult r' hok, hafter]
        obtain ⟨after, hr, -⟩ := hruns.reported
        have hnow : r.evaluatedAt = attempt.now := by
          rw [hr]
          rfl
        refine ⟨hnow, s', Function.update_self _ _ _, ?_⟩
        rw [hnow]
        exact hruns.effective }

end Attempts

/-! ## Runs -/

/-- **A tenant's log leads from one state to another**: the events between them, in the order of
their epochs, count on from the first state's epoch, each stating the membership before it, and
replay to the second state's memberships. -/
structure LogsTo (s s' : Store) (log : List ScopeAccessEventRow) : Prop where
  follows : Follows s.access.accessEpoch s.access.grant? (log.map ScopeAccessEventRow.entry)
  recorded : s'.access.events.rows = log.reverse ++ s.access.events.rows
  epoch : s'.access.accessEpoch = s.access.accessEpoch + log.length
  replays : s'.access.grant? = replay (log.map ScopeAccessEventRow.entry) s.access.grant?
  /-- Nothing else changes. -/
  frame : s' = { s with access := s'.access }

theorem LogsTo.refl (s : Store) : LogsTo s s [] := ⟨.nil _ _, rfl, rfl, rfl, rfl⟩

/-- A change is in front of the log from the state that it leads to. -/
theorem LogsTo.cons {s s' s'' : Store} {event : ScopeAccessEventRow}
    {log : List ScopeAccessEventRow}
    (hevent : s.access.Changed s'.access event) (hframe : s' = { s with access := s'.access })
    (h : LogsTo s' s'' log) : LogsTo s s'' (event :: log) := by
  have hnumber : event.accessEpoch = s.access.accessEpoch + 1 := hevent.number.trans hevent.epoch
  refine ⟨.cons hnumber hevent.previous ?_, ?_, ?_, ?_, ?_⟩
  · rw [← hevent.grants, ← hevent.epoch]
    exact h.follows
  · rw [h.recorded, hevent.recorded, List.reverse_cons, List.append_assoc]
    rfl
  · rw [h.epoch, hevent.epoch, List.length_cons, Nat.add_assoc, Nat.add_comm 1]
  · rw [h.replays, hevent.grants]
    rfl
  · rw [h.frame, hframe]

/-- **The access log replays to the memberships**: each attempt changes one membership and records
it, or writes nothing; so over every run the events of each tenant lead from its first state to its
last. -/
theorem access_log_replays :
    (∀ attempt tenants, AccessStep attempt tenants)
      ∧ ∀ (attempts : List AccessAttempt) (tenants : Tenants) (tenantId : UUID) (s : Store),
        tenants tenantId = some s →
          ∃ s' log, runAttempts attempts tenants tenantId = some s' ∧ LogsTo s s' log := by
  refine ⟨accessStep, fun attempts => ?_⟩
  induction attempts with
  | nil => exact fun tenants tenantId s hs => ⟨s, [], hs, .refl s⟩
  | cons attempt attempts ih =>
    intro tenants tenantId s hs
    rcases (accessStep attempt tenants).writes with hsame | ⟨s₀, s₁, event, hs₀, hafter, hframe,
      hevent, -⟩
    · obtain ⟨s', log, hs', hlogs⟩ := ih tenants tenantId s hs
      refine ⟨s', log, ?_, hlogs⟩
      rw [← hs', runAttempts, List.foldl_cons, hsame]
      rfl
    · by_cases htenant : tenantId = attempt.tenantId
      · subst htenant
        obtain ⟨s', log, hs', hlogs⟩ := ih (Function.update tenants attempt.tenantId (some s₁))
          attempt.tenantId s₁ (Function.update_self _ _ _)
        obtain rfl := Option.some.inj (hs₀.symm.trans hs)
        refine ⟨s', event :: log, ?_, hlogs.cons hevent hframe⟩
        rw [← hs', runAttempts, List.foldl_cons, hafter]
        rfl
      · obtain ⟨s', log, hs', hlogs⟩ := ih (Function.update tenants attempt.tenantId (some s₁))
          tenantId s ((Function.update_of_ne htenant _ _).trans hs)
        refine ⟨s', log, ?_, hlogs⟩
        rw [← hs', runAttempts, List.foldl_cons, hafter]
        rfl

end PgAgmemory

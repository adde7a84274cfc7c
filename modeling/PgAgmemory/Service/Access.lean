import PgAgmemory.Storage.Engine

/-! # Scope access

`scope_access` sets and revokes memberships. The administrator's connection bypasses row-level
security, so a change is a function of the store and two clock readings; every change takes the access
epoch it expects, raises it and records an event under the new one. -/

namespace PgAgmemory

open Keyed (HasKey Table)

/-- Why a change of access is refused. -/
inductive ScopeAccessError where
  | notFound | accessEpochConflict | invalidExpiration | accessEpochExhausted | databaseError
  /-- `OverflowError`: an expiry that has no `datetime` in UTC. -/
  | overflow
  deriving DecidableEq

/-- The permissions in their canonical order. -/
def permissionOrder : List Permission := [.read, .write, .delete, .admin]

/-- The largest access epoch. -/
def maxEpoch : Nat := 9223372036854775807

/-- What a request does to a membership. -/
inductive AccessOperation where
  | get
  /-- Distinct permissions, or admin alone. -/
  | set (permissions : List Permission) (expiresAt : Option Time)
      (valid : permissions ≠ [] ∧ permissions.Nodup
        ∧ (Permission.admin ∈ permissions → permissions.length = 1))
  | revoke

/-- A request of the administrator. -/
structure ScopeAccessRequest where
  operation : AccessOperation
  scopeId : UUID
  principalId : UUID
  /-- Only a `get` has no expectation. -/
  expectedAccessEpoch : Nat

/-- What a request returns. -/
structure ScopeAccessResult where
  accessEpoch : Nat
  changed : Bool
  membershipExists : Bool
  permissions : List Permission
  expiresAt : Option Time
  effectivePermissions : List Permission
  evaluatedAt : Time
  deriving DecidableEq

/-- Permissions in their canonical order, each once. -/
def configured (permissions : List Permission) : List Permission :=
  permissionOrder.filter permissions.contains

namespace ScopeAccessRequest

/-- The permissions and expiry of a membership. -/
abbrev Grant := List Permission × Option Time

/-- The membership before a request; an expiry beyond the years of a `datetime` cannot be read. -/
def membership (request : ScopeAccessRequest) (s : Store) : Except ScopeAccessError (Option Grant) :=
  let before := (s.access.members.find? (request.scopeId, request.principalId)).map fun m =>
    (m.permissions, m.expiresAt)
  if before.any fun b => b.2.any fun t => !decide (readableTime t) then .error .databaseError
  else .ok before

/-- The membership that a request leaves, and whether that is a change. -/
def target (request : ScopeAccessRequest) (before : Option Grant) (now : Time) :
    Except ScopeAccessError (Option Grant × Bool) :=
  match request.operation with
  | .get => .ok (before, false)
  | .set permissions expiresAt _ =>
    if expiresAt.any fun t => !decide (readableTime t) then .error .overflow
    else if expiresAt.any fun t => t ≤ now then .error .invalidExpiration
    else .ok (some (configured permissions, expiresAt),
      before.all fun b => decide (configured permissions ≠ configured b.1)
        || decide (expiresAt ≠ b.2))
  | .revoke => .ok (none, before.isSome)

/-- Whether a request mutates. -/
def mutates (request : ScopeAccessRequest) : Bool :=
  match request.operation with
  | .get => false
  | _ => true

/-- Write a membership, its event and the new access epoch. -/
def write (request : ScopeAccessRequest) (access : Access) (before after : Option Grant)
    (recordedAt : Time) : Except ScopeAccessError Access :=
  if access.accessEpoch = maxEpoch then .error .accessEpochExhausted
  else
    let key := (request.scopeId, request.principalId)
    let event : ScopeAccessEventRow := {
      accessEpoch := access.accessEpoch + 1
      scopeId := request.scopeId
      principalId := request.principalId
      set := after.isSome
      previousPermissions := before.map Prod.fst
      previousExpiresAt := before.bind Prod.snd
      permissions := after.map Prod.fst
      expiresAt := after.bind Prod.snd
      recordedAt := recordedAt }
    match access.events.insert? event with
    | none => .error .databaseError
    | some events => .ok { access with
        accessEpoch := access.accessEpoch + 1
        members := match after with
          | none => access.members.delete fun m => (m.scopeId, m.principalId) = key
          | some g => access.members.put ⟨request.scopeId, request.principalId, g.1, g.2⟩
        events := events }

/-- The result of a request. -/
def result (after : Option Grant) (epoch : Nat) (changed : Bool) (now : Time) : ScopeAccessResult :=
  let permissions := (after.map fun g => configured g.1).getD []
  let expiresAt := after.bind Prod.snd
  let effective := if expiresAt.any fun t => t ≤ now then [] else permissions
  { accessEpoch := epoch
    changed := changed
    membershipExists := after.isSome
    permissions := permissions
    expiresAt := expiresAt
    effectivePermissions := if effective.contains .admin then permissionOrder else effective
    evaluatedAt := now }

/-- `scope_access`. -/
def run (request : ScopeAccessRequest) (now recordedAt : Time) (s : Store) :
    Except ScopeAccessError (ScopeAccessResult × Store) := do
  if (s.access.scopes.find? request.scopeId).isNone
      || (s.access.principals.find? request.principalId).isNone then .error .notFound
  else if request.mutates && decide (s.access.accessEpoch ≠ request.expectedAccessEpoch) then
    .error .accessEpochConflict
  else do
    let before ← request.membership s
    let (after, changed) ← request.target before now
    if changed then do
      let access ← request.write s.access before after recordedAt
      pure (result after access.accessEpoch true now, { s with access := access })
    else pure (result after s.access.accessEpoch false now, s)

end ScopeAccessRequest

end PgAgmemory

import PgAgmemory.Storage.Schema

/-! # The first schema

The tables of the first schema that hold content, for all tenants at once, with their constraints.
Intervals are ranges of `timestamptz` as the database has them, whose bounds may be missing, inclusive or
exclusive, and may be one of the two infinite values: the first schema does not forbid those everywhere. -/

namespace PgAgmemory

open Keyed (HasKey Table)
open Keyed.Table (References)

/-! ## Ranges of instants -/

/-- A value of `timestamptz`: an instant, or `-infinity` or `infinity`. -/
inductive Timestamptz where
  | past
  | instant (t : Time)
  | future
  deriving DecidableEq

/-- The order of these values. -/
def Timestamptz.before : Timestamptz → Timestamptz → Bool
  | .past, .past => false
  | .past, _ => true
  | .instant t, .instant u => decide (t < u)
  | .instant _, .future => true
  | _, _ => false

/-- `isfinite`. -/
def Timestamptz.isFinite : Timestamptz → Bool
  | .instant _ => true
  | _ => false

/-- A bound of a range. -/
structure Bound where
  value : Timestamptz
  inclusive : Bool
  deriving DecidableEq

/-- A value of `tstzrange`. -/
inductive TstzRange where
  | empty
  | between (lower upper : Option Bound)
  deriving DecidableEq

namespace TstzRange

/-- `lower`, with whether it belongs to the range. -/
def lower? : TstzRange → Option Bound
  | .empty => none
  | .between lower _ => lower

/-- `upper`, with whether it belongs to the range. -/
def upper? : TstzRange → Option Bound
  | .empty => none
  | .between _ upper => upper

/-- Whether an upper bound leaves nothing above a lower one. -/
def crossed (lower upper : Bound) : Bool :=
  upper.value.before lower.value
    || (decide (upper.value = lower.value) && !(lower.inclusive && upper.inclusive))

/-- `isempty`. -/
def isEmpty : TstzRange → Bool
  | .empty => true
  | .between lower upper => lower.any fun l => upper.any fun u => crossed l u

/-- `lower_inf`: the bound is missing. -/
def lowerInf : TstzRange → Bool
  | .empty => false
  | .between lower _ => lower.isNone

/-- `upper_inf`: the bound is missing. -/
def upperInf : TstzRange → Bool
  | .empty => false
  | .between _ upper => upper.isNone

/-- `lower_inc`. -/
def lowerInc (r : TstzRange) : Bool := r.lower?.any Bound.inclusive

/-- `upper_inc`. -/
def upperInc (r : TstzRange) : Bool := r.upper?.any Bound.inclusive

/-- `<<`: a range lies before another one. -/
def strictlyBefore (r s : TstzRange) : Bool :=
  r.upper?.any fun u => s.lower?.any fun l => crossed l u

/-- `&&`: two ranges have an instant in common. -/
def overlaps (r s : TstzRange) : Bool :=
  !r.isEmpty && !s.isEmpty && !r.strictlyBefore s && !s.strictlyBefore r

/-- `tstzrange(lower, NULL, '[)')`. -/
def since (t : Time) : TstzRange := .between (some ⟨.instant t, true⟩) none

/-- The check of a valid time, in both schemas. -/
def validCheck (r : TstzRange) : Bool := !r.isEmpty && (r.lowerInf || r.lowerInc) && !r.upperInc

/-- The check of a system time in the first schema. -/
def systemCheck (r : TstzRange) : Bool := !r.isEmpty && !r.lowerInf && r.lowerInc && !r.upperInc

/-- The bounds of a range that are there are finite. -/
def finite (r : TstzRange) : Bool :=
  (r.lower?.all fun l => l.value.isFinite) && r.upper?.all fun u => u.value.isFinite

end TstzRange

/-! ## Rows -/

/-- An object of a tenant. -/
structure LegacyObjectRow where
  tenantId : UUID
  id : UUID
  scopeId : UUID
  kind : ObjectKind

instance : HasKey LegacyObjectRow (UUID × UUID) := ⟨fun r => (r.tenantId, r.id)⟩

/-- A tombstone of a tenant. -/
structure LegacyTombstoneRow where
  tenantId : UUID
  objectId : UUID
  scopeId : UUID

instance : HasKey LegacyTombstoneRow (UUID × UUID) := ⟨fun r => (r.tenantId, r.objectId)⟩

/-- An episode of a tenant. -/
structure LegacyEpisodeRow where
  tenantId : UUID
  id : UUID
  scopeId : UUID
  content : String

instance : HasKey LegacyEpisodeRow (UUID × UUID) := ⟨fun r => (r.tenantId, r.id)⟩

/-- An assertion of the first schema, with its only version. -/
structure LegacyAssertionRow where
  tenantId : UUID
  id : UUID
  scopeId : UUID
  subject : String
  predicate : String
  value : String
  validTime : TstzRange
  systemTime : TstzRange
  epistemicStatus : String
  explicitIntent : Bool

instance : HasKey LegacyAssertionRow (UUID × UUID) := ⟨fun r => (r.tenantId, r.id)⟩

/-- The evidence of an assertion from one episode. -/
structure LegacyEdgeRow where
  tenantId : UUID
  childId : UUID
  parentId : UUID
  scopeId : UUID
  quote : String

instance : HasKey LegacyEdgeRow (UUID × UUID × UUID) := ⟨fun r => (r.tenantId, r.childId, r.parentId)⟩

/-- The content of a database of the first schema. -/
structure LegacyStore where
  objects : Table LegacyObjectRow
  tombstones : Table LegacyTombstoneRow
  episodes : Table LegacyEpisodeRow
  assertions : Table LegacyAssertionRow
  edges : Table LegacyEdgeRow

/-! ## Constraints -/

/-- The check constraints of an assertion; the form of a predicate is left out, as nothing reads it. -/
def LegacyAssertionRow.checks (a : LegacyAssertionRow) : Bool :=
  a.validTime.validCheck && a.systemTime.systemCheck && decide (a.epistemicStatus = "reported")
    && a.explicitIntent

/-- **The constraints of the first schema.** -/
structure LegacyStore.Valid (s : LegacyStore) : Prop where
  tombstone_object : References s.tombstones (fun r => some (r.tenantId, r.objectId, r.scopeId))
    s.objects fun o => (o.tenantId, o.id, o.scopeId)
  episode_object : References s.episodes
    (fun r => some (r.tenantId, r.id, r.scopeId, ObjectKind.episode)) s.objects
    fun o => (o.tenantId, o.id, o.scopeId, o.kind)
  assertion_object : References s.assertions
    (fun r => some (r.tenantId, r.id, r.scopeId, ObjectKind.assertion)) s.objects
    fun o => (o.tenantId, o.id, o.scopeId, o.kind)
  edge_child : References s.edges (fun r => some (r.tenantId, r.childId, r.scopeId))
    s.assertions fun a => (a.tenantId, a.id, a.scopeId)
  edge_parent : References s.edges (fun r => some (r.tenantId, r.parentId, r.scopeId))
    s.episodes fun e => (e.tenantId, e.id, e.scopeId)
  assertions : ∀ a ∈ s.assertions, a.checks = true
  quotes : ∀ e ∈ s.edges, e.quote ≠ ""

/-- Whether an assertion has evidence. -/
def LegacyStore.evidenced (s : LegacyStore) (a : LegacyAssertionRow) : Bool :=
  s.edges.rows.any fun e => decide ((e.tenantId, e.childId) = (a.tenantId, a.id))

/-- An object is live when no tombstone marks it. -/
def LegacyStore.live (s : LegacyStore) (tenantId id : UUID) : Bool :=
  s.tombstones.rows.all fun t => decide ((t.tenantId, t.objectId) ≠ (tenantId, id))

/-- Whether an assertion has evidence from a live episode. -/
def LegacyStore.supported (s : LegacyStore) (a : LegacyAssertionRow) : Bool :=
  s.edges.rows.any fun e =>
    decide ((e.tenantId, e.childId) = (a.tenantId, a.id)) && s.live e.tenantId e.parentId

end PgAgmemory

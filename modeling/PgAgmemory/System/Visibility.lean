import PgAgmemory.System.Integrity

/-! # Visibility

What the policies let through, in the terms of the store: a tombstone has the scope of its object
(`Marked`), so an object is readable exactly when its scope is and no tombstone marks it. A permission
that a membership grants at one instant it granted at every earlier one (`permitted_of_le`): within a
transaction, permissions can only be lost. -/

namespace PgAgmemory

open Keyed (HasKey Table key)
open Keyed.Table (References)

/-- The object of this identifier is not deleted. -/
def Untombstoned (s : Store) (id : UUID) : Prop := ∀ t ∈ s.anchor.tombstones, t.objectId ≠ id

/-- Every tombstone marks an object of its own scope. -/
def Marked (s : Store) : Prop :=
  References s.anchor.tombstones (fun r => some (r.objectId, r.scopeId)) s.anchor.objects
    (fun o => (o.id, o.scopeId))

/-- Only objects are marked. -/
theorem ForeignKeys.marked {s : Store} (h : ForeignKeys s) : Marked s := h.content.tombstone_object

/-! ## Permissions -/

section Permissions

variable {v w : View}

/-- A grant that holds at an instant held before. -/
theorem ScopeMemberRow.grants_of_le {m : ScopeMemberRow} {permission : Permission} {t t' : Time}
    (hle : t ≤ t') (h : m.grants permission t' = true) : m.grants permission t = true := by
  rw [grants, Bool.and_eq_true] at h ⊢
  refine ⟨h.1, ?_⟩
  cases hexpiry : m.expiresAt with
  | none => rfl
  | some expiry =>
    have hlt : t' < expiry := by simpa [hexpiry] using h.2
    simpa [hexpiry] using lt_of_le_of_lt hle hlt

/-- **Permissions can only be lost**: with the same memberships, what is permitted was permitted
earlier. -/
theorem View.permitted_of_le (hmembers : w.store.access.members = v.store.access.members)
    (hprincipal : w.principal = v.principal) (hle : v.timestamp ≤ w.timestamp) {scope : UUID}
    {permission : Permission} (h : w.permitted scope permission = true) :
    v.permitted scope permission = true := by
  obtain ⟨m, hm, hscope, hp, hgrants⟩ := View.permitted_eq_true.mp h
  rw [hmembers] at hm
  exact View.permitted_eq_true.mpr ⟨m, hm, hscope, hp.trans hprincipal, m.grants_of_le hle hgrants⟩

/-- What is permitted depends on the memberships, the principal and the instant only. -/
theorem View.permitted_congr (hmembers : w.store.access.members = v.store.access.members)
    (hprincipal : w.principal = v.principal) (htime : w.timestamp = v.timestamp) (scope : UUID)
    (permission : Permission) : w.permitted scope permission = v.permitted scope permission := by
  simp only [View.permitted, hmembers, hprincipal, htime]

/-- **One membership decides**: where two permissions of a scope were granted at one instant, they
expire together. -/
theorem View.permitted_iff_permitted (hmembers : w.store.access.members = v.store.access.members)
    (hprincipal : w.principal = v.principal) {scope : UUID} {p q : Permission}
    (hp : v.permitted scope p = true) (hq : v.permitted scope q = true) :
    w.permitted scope p = true ↔ w.permitted scope q = true := by
  have key : ∀ {p q : Permission}, v.permitted scope q = true → w.permitted scope p = true →
      w.permitted scope q = true := by
    intro p q hq hw
    obtain ⟨m, hm, hscope, hprin, hgrants⟩ := View.permitted_eq_true.mp hq
    obtain ⟨m', hm', hscope', hprin', hgrants'⟩ := View.permitted_eq_true.mp hw
    rw [hmembers] at hm'
    have hsame : m' = m := Table.eq_of_key_eq hm' hm
      (Prod.ext (hscope'.trans hscope.symm) ((hprin'.trans hprincipal).trans hprin.symm))
    subst hsame
    rw [ScopeMemberRow.grants, Bool.and_eq_true] at hgrants hgrants'
    refine View.permitted_eq_true.mpr ⟨m', hmembers ▸ hm, hscope, hprin', ?_⟩
    rw [ScopeMemberRow.grants, Bool.and_eq_true]
    exact ⟨hgrants.1, hgrants'.2⟩
  exact ⟨key hq, key hp⟩

end Permissions

/-! ## Objects -/

section Objects

variable {v : View}

/-- **An object is readable** when its scope is and no tombstone marks it. -/
theorem View.readable_iff (hmarked : Marked v.store) {o : ObjectRow}
    (ho : o ∈ v.store.anchor.objects) :
    v.readable o = true ↔ v.permitted o.scopeId .read = true ∧ Untombstoned v.store o.id := by
  rw [readable, Bool.and_eq_true, Bool.not_eq_true', tombstoned]
  refine and_congr_right fun hread => ?_
  constructor
  · intro hnone t ht heq
    obtain ⟨o', ho', hkey⟩ := hmarked.exists_parent ht rfl
    obtain ⟨hid, hscope⟩ := Prod.mk.inj hkey
    have hsame : o' = o := Table.eq_of_key_eq ho' ho (hid.trans heq)
    have hfind : v.store.anchor.tombstones.find? o.id = some t :=
      Table.find?_eq_some_iff.mpr ⟨ht, heq⟩
    rw [hfind, Option.any_some, ← hscope, hsame, hread] at hnone
    exact Bool.noConfusion hnone
  · intro hfree
    cases hfind : v.store.anchor.tombstones.find? o.id with
    | none => rfl
    | some t =>
      obtain ⟨ht, hid⟩ := Table.find?_eq_some_iff.mp hfind
      exact absurd hid (hfree t ht)

/-- **An object is visible** when it exists in a readable scope and no tombstone marks it. -/
theorem View.visible_iff (hmarked : Marked v.store) {id : UUID} :
    v.visible id = true ↔ Untombstoned v.store id
      ∧ ∃ o ∈ v.store.anchor.objects, o.id = id ∧ v.permitted o.scopeId .read = true := by
  rw [visible_eq_true]
  constructor
  · rintro ⟨o, ho, rfl, hread⟩
    obtain ⟨hpermitted, hfree⟩ := (readable_iff hmarked ho).mp hread
    exact ⟨hfree, o, ho, rfl, hpermitted⟩
  · rintro ⟨hfree, o, ho, rfl, hpermitted⟩
    exact ⟨o, ho, rfl, (readable_iff hmarked ho).mpr ⟨hpermitted, hfree⟩⟩

/-- An object of a known scope is visible when the scope is readable and no tombstone marks it. -/
theorem View.visible_object (hmarked : Marked v.store) {o : ObjectRow}
    (ho : o ∈ v.store.anchor.objects) :
    v.visible o.id = true ↔ v.permitted o.scopeId .read = true ∧ Untombstoned v.store o.id := by
  rw [visible_iff hmarked]
  constructor
  · rintro ⟨hfree, o', ho', hid, hread⟩
    have hsame : o' = o := Table.eq_of_key_eq ho' ho hid
    exact ⟨hsame ▸ hread, hfree⟩
  · rintro ⟨hread, hfree⟩
    exact ⟨hfree, o, ho, rfl, hread⟩

/-- An object of a known scope is writable when its scope can be read and written and no tombstone
marks it. -/
theorem View.writable_object (hmarked : Marked v.store) {o : ObjectRow}
    (ho : o ∈ v.store.anchor.objects) :
    v.writable o.id = true ↔ (v.permitted o.scopeId .read = true ∧ Untombstoned v.store o.id)
      ∧ v.permitted o.scopeId .write = true := by
  rw [writable_eq_true, ← readable_iff hmarked ho]
  constructor
  · rintro ⟨o', ho', hid, hread, hwrite⟩
    have hsame : o' = o := Table.eq_of_key_eq ho' ho hid
    exact hsame ▸ ⟨hread, hwrite⟩
  · rintro ⟨hread, hwrite⟩
    exact ⟨o, ho, rfl, hread, hwrite⟩

/-- An object of a known scope is deletable when its scope can be read and deleted from and no
tombstone marks it. -/
theorem View.deletable_object (hmarked : Marked v.store) {o : ObjectRow}
    (ho : o ∈ v.store.anchor.objects) :
    v.deletable o.id = true ↔ (v.permitted o.scopeId .read = true ∧ Untombstoned v.store o.id)
      ∧ v.permitted o.scopeId .delete = true := by
  rw [deletable_eq_true, ← readable_iff hmarked ho]
  constructor
  · rintro ⟨o', ho', hid, hread, hdelete⟩
    have hsame : o' = o := Table.eq_of_key_eq ho' ho hid
    exact hsame ▸ ⟨hread, hdelete⟩
  · rintro ⟨hread, hdelete⟩
    exact ⟨o, ho, rfl, hread, hdelete⟩

end Objects

end PgAgmemory

import PgAgmemory.History.Whole

/-! # What runs never change

Object anchors are kept, the current revision of an assertion only advances, and a job keeps the time
of its creation (`Steady`). An assertion or a job that appears anew has a new object, so an id that was
once taken never comes back as something else. -/

namespace PgAgmemory

open Keyed (HasKey Table key)

/-- **A steady change** of a store. -/
structure Steady (s s' : Store) : Prop where
  objects : ∀ o ∈ s.anchor.objects, o ∈ s'.anchor.objects
  heads : ∀ a' ∈ s'.contents.assertions, Fresh s a'.id
    ∨ ∃ a ∈ s.contents.assertions, a.id = a'.id ∧ a.currentRevision ≤ a'.currentRevision
  jobs : ∀ j' ∈ s'.queue.jobs, Fresh s j'.id
    ∨ ∃ j ∈ s.queue.jobs, j.id = j'.id ∧ j.createdAt = j'.createdAt

namespace Steady

variable {s s' s'' : Store}

theorem refl (s : Store) : Steady s s where
  objects _ h := h
  heads a h := Or.inr ⟨a, h, rfl, Nat.le_refl _⟩
  jobs j h := Or.inr ⟨j, h, rfl, rfl⟩

/-- An id that is fresh later was fresh before. -/
theorem fresh (h : Steady s s') {id : UUID} (hfresh : Fresh s' id) : Fresh s id :=
  fun o ho => hfresh o (h.objects o ho)

theorem trans (h : Steady s s') (h' : Steady s' s'') : Steady s s'' where
  objects o ho := h'.objects o (h.objects o ho)
  heads a'' ha'' := by
    rcases h'.heads a'' ha'' with hfresh | ⟨a', ha', hid', hle'⟩
    · exact Or.inl (h.fresh hfresh)
    rcases h.heads a' ha' with hfresh | ⟨a, ha, hid, hle⟩
    · exact Or.inl (hid' ▸ hfresh)
    · exact Or.inr ⟨a, ha, hid.trans hid', hle.trans hle'⟩
  jobs j'' hj'' := by
    rcases h'.jobs j'' hj'' with hfresh | ⟨j', hj', hid', hcreated'⟩
    · exact Or.inl (h.fresh hfresh)
    rcases h.jobs j' hj' with hfresh | ⟨j, hj, hid, hcreated⟩
    · exact Or.inl (hid' ▸ hfresh)
    · exact Or.inr ⟨j, hj, hid.trans hid', hcreated.trans hcreated'⟩

/-- **The head of an assertion does not fall back.** -/
theorem head_le (h : Steady s s') (hkeys : ForeignKeys s) {a a' : AssertionRow}
    (ha : a ∈ s.contents.assertions) (ha' : a' ∈ s'.contents.assertions) (hid : a'.id = a.id) :
    a.currentRevision ≤ a'.currentRevision := by
  rcases h.heads a' ha' with hfresh | ⟨b, hb, hbid, hle⟩
  · obtain ⟨o, ho, hkey⟩ := hkeys.content.assertion_object.exists_parent ha rfl
    exact absurd ((Prod.mk.inj hkey).1.trans hid.symm) (hfresh o ho)
  · obtain rfl : b = a := Table.eq_of_key_eq hb ha (hbid.trans hid)
    exact hle

/-- **A job keeps the time of its creation.** -/
theorem createdAt_eq (h : Steady s s') (hkeys : ForeignKeys s) {j j' : JobRow}
    (hj : j ∈ s.queue.jobs) (hj' : j' ∈ s'.queue.jobs) (hid : j'.id = j.id) :
    j'.createdAt = j.createdAt := by
  rcases h.jobs j' hj' with hfresh | ⟨i, hi, hiid, hcreated⟩
  · obtain ⟨o, ho, hkey⟩ := hkeys.queue.job_object.exists_parent hj rfl
    exact absurd ((Prod.mk.inj hkey).1.trans hid.symm) (hfresh o ho)
  · obtain rfl : i = j := Table.eq_of_key_eq hi hj (hiid.trans hid)
    exact hcreated.symm

/-- **An object keeps the time of its creation.** -/
theorem object_eq (h : Steady s s') {o o' : ObjectRow} (ho : o ∈ s.anchor.objects)
    (ho' : o' ∈ s'.anchor.objects) (hid : o'.id = o.id) : o' = o :=
  Table.eq_of_key_eq ho' (h.objects o ho) hid

end Steady

/-! ## Statements -/

/-- An update keeps the time at which a job was created. -/
theorem ChangesJob.createdAt {v : View} {m : Moment} {id : UUID} {change : JobChange}
    {old new : JobRow} (h : ChangesJob v m id change old new) : new.createdAt = old.createdAt := by
  rw [h.stamped]
  cases change <;> rfl

/-- Moving a head to a later revision. -/
theorem mem_moveHead_le {t : Table AssertionRow} {head : AssertionRow} (hhead : head ∈ t)
    {a : AssertionRow} (h : a ∈ moveHead t head.id (head.currentRevision + 1)) :
    ∃ a' ∈ t, a'.id = a.id ∧ a'.currentRevision ≤ a.currentRevision := by
  obtain ⟨a', ha', rfl⟩ := Table.mem_update.mp h
  refine ⟨a', ha', ?_⟩
  split
  next hmatch =>
    obtain rfl : a' = head := Table.eq_of_key_eq ha' hhead (of_decide_eq_true hmatch)
    exact ⟨rfl, Nat.le_succ _⟩
  next => exact ⟨rfl, Nat.le_refl _⟩

/-- **Every statement of the discipline is steady.** -/
theorem Writes.steady {c : Setting} {σ σ' : Session} {m : Moment} {st : Statement} {r : Returned}
    (hallow : Writes c σ st) (hstep : step c.platform st m σ = .ok (r, σ'))
    (h : Steady c.start σ.store) : Steady c.start σ'.store := by
  have haccepted := st.accepted (step_eq_ok.mp hstep).2.1
  have hgrown := haccepted.grown hallow.quiet
  refine ⟨fun o ho => hgrown.objects o (h.objects o ho), ?_, ?_⟩
  · intro a' ha'
    rcases haccepted.contents_cases hallow.quiet with hsame | ⟨st', rfl, hcontent⟩
    · exact h.heads a' (hsame ▸ ha')
    cases st' with
    | insertAssertion id scope subject predicate isRelation =>
      obtain ⟨-, t, ht, heq⟩ := hcontent
      rw [heq] at ha'
      rcases (Table.mem_insert? ht).mp ha' with rfl | hold
      · exact Or.inl hallow
      · exact h.heads a' hold
    -- A correction moves the head on, and never back.
    | insertRevision n =>
      obtain ⟨-, t, c', ⟨hadopts, -⟩, heq⟩ := hcontent
      rw [heq] at ha'
      cases hadopts with
      | first _ _ _ => exact h.heads a' ha'
      | next hhead _ hnext _ _ _ =>
        obtain ⟨hfind, -⟩ := Option.filter_eq_some_iff.mp hhead
        obtain ⟨hmem, hid⟩ := Table.find?_eq_some_iff.mp hfind
        rw [hnext, ← hid] at ha'
        obtain ⟨a, ha, haid, hle⟩ := mem_moveHead_le hmem ha'
        rcases h.heads a ha with hfresh | ⟨b, hb, hbid, hble⟩
        · exact Or.inl (haid ▸ hfresh)
        · exact Or.inr ⟨b, hb, hbid.trans haid, hble.trans hle⟩
    | _ =>
      obtain ⟨-, t, -, heq⟩ := hcontent
      rw [heq] at ha'
      exact h.heads a' ha'
  · intro j' hj'
    rcases haccepted.queue_cases hallow.quiet with hsame | ⟨st', row, rfl, hqueue⟩
    · exact h.jobs j' (hsame ▸ hj')
    cases st' with
    | insertJob n =>
      obtain ⟨-, t, ht, heq⟩ := hqueue
      rw [heq] at hj'
      rcases (Table.mem_insert? ht).mp hj' with rfl | hold
      · exact Or.inl hallow
      · exact h.jobs j' hold
    -- An update of a job leaves its creation as it is.
    | updateJob id change =>
      rcases hqueue with ⟨-, heq⟩ | ⟨old, new, hnew, hchanges, -, heq⟩
      · exact h.jobs j' (heq ▸ hj')
      rw [heq] at hj'
      rcases (mem_replaceJob_iff hnew).mp hj' with ⟨rfl, -⟩ | ⟨hold, -⟩
      · obtain ⟨hold, hid⟩ := Table.find?_eq_some_iff.mp hchanges.found
        rcases h.jobs old hold with hfresh | ⟨j, hj, hjid, hcreated⟩
        · exact Or.inl (hnew.trans hid.symm ▸ hfresh)
        · exact Or.inr ⟨j, hj, hjid.trans (hid.trans hnew.symm),
            hcreated.trans hchanges.createdAt.symm⟩
      · exact h.jobs j' hold
    | _ =>
      obtain ⟨-, t, -, heq⟩ := hqueue
      rw [heq] at hj'
      exact h.jobs j' hj'

/-! ## Events -/

/-- A purge is steady. -/
theorem Purged.steady {s s' : Store} {gone : Gone} (h : Purged s s' gone) : Steady s s' := by
  refine ⟨fun o ho => h.objects ▸ ho, fun a ha => ?_, fun j hj => ?_⟩
  · rw [h.contents] at ha
    exact Or.inr ⟨a, (Table.mem_delete.mp ha).1, rfl, Nat.le_refl _⟩
  · rw [h.queue] at hj
    exact Or.inr ⟨j, (Table.mem_delete.mp hj).1, rfl, rfl⟩

/-- A change of access is steady. -/
theorem Steady.access (s : Store) (access : Access) : Steady s { s with access := access } :=
  ⟨fun _ h => h, fun a ha => Or.inr ⟨a, ha, rfl, Nat.le_refl _⟩,
    fun j hj => Or.inr ⟨j, hj, rfl, rfl⟩⟩

/-- **Every event of a sound store is steady.** -/
theorem Sound.steady {platform : Platform} {s : Store} (hs : Sound s) (e : Event) :
    Steady s (e.exec platform s) := by
  refine Sound.transition (T := Steady) (R := Steady) Steady.refl ?_ (fun _ _ h => h)
    (fun _ _ _ _ hpurged => hpurged.steady) Steady.access hs e
  intro c st m σ r σ' hplatform _ _ _ hsteady hallow hstep
  exact hallow.steady (hplatform ▸ hstep) hsteady

/-- A run from a sound store leads to a sound store. -/
theorem Sound.run {platform : Platform} {s : Store} (hs : Sound s) (events : List Event) :
    Sound (runEvents platform events s) := by
  induction events generalizing s with
  | nil => exact hs
  | cons e events ih => exact ih (hs.event e)

/-- **Every run from a sound store is steady.** -/
theorem Sound.steady_run {platform : Platform} {s : Store} (hs : Sound s) (events : List Event) :
    Steady s (runEvents platform events s) := by
  induction events generalizing s with
  | nil => exact .refl s
  | cons e events ih => exact (hs.steady e).trans (ih (hs.event e))

end PgAgmemory

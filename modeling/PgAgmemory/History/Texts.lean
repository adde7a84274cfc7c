import PgAgmemory.History.Steady

/-! # What runs never reword

The subject and the predicate of an assertion, the value of a revision and the content of an episode
stay what they are (`Worded`). A revision that appears anew has a number past the head that its
assertion had, so a number that was once taken never comes back with another value. -/

namespace PgAgmemory

open Keyed (HasKey Table key)

/-- **A later revision**: of an assertion that the store has never had, or past its head. -/
def Store.Later (s : Store) (id : UUID) (revision : Nat) : Prop :=
  Fresh s id ∨ ∃ a ∈ s.contents.assertions, a.id = id ∧ a.currentRevision < revision

/-- **A change that rewords nothing.** -/
structure Worded (s s' : Store) : Prop where
  steady : Steady s s'
  assertions : ∀ a' ∈ s'.contents.assertions, Fresh s a'.id
    ∨ ∃ a ∈ s.contents.assertions, a.id = a'.id ∧ a.subject = a'.subject ∧ a.predicate = a'.predicate
  revisions : ∀ r' ∈ s'.contents.revisions, s.Later r'.assertionId r'.revision
    ∨ ∃ r ∈ s.contents.revisions, key r = key r' ∧ r.value = r'.value
  episodes : ∀ e' ∈ s'.contents.episodes, Fresh s e'.id ∨ e' ∈ s.contents.episodes

/-- What is later now was later before. -/
theorem Steady.later {s s' : Store} (h : Steady s s') {id : UUID} {n : Nat} (hlater : s'.Later id n) :
    s.Later id n := by
  rcases hlater with hfresh | ⟨a', ha', hid', hlt⟩
  · exact Or.inl (h.fresh hfresh)
  rcases h.heads a' ha' with hfresh | ⟨a, ha, hid, hle⟩
  · exact Or.inl (hid' ▸ hfresh)
  · exact Or.inr ⟨a, ha, hid.trans hid', Nat.lt_of_le_of_lt hle hlt⟩

namespace Worded

variable {s s' s'' : Store}

theorem refl (s : Store) : Worded s s where
  steady := .refl s
  assertions a h := Or.inr ⟨a, h, rfl, rfl, rfl⟩
  revisions r h := Or.inr ⟨r, h, rfl, rfl⟩
  episodes _ h := Or.inr h

theorem trans (h : Worded s s') (h' : Worded s' s'') : Worded s s'' where
  steady := h.steady.trans h'.steady
  assertions a'' ha'' := by
    rcases h'.assertions a'' ha'' with hfresh | ⟨a', ha', hid', hsubject', hpredicate'⟩
    · exact Or.inl (h.steady.fresh hfresh)
    rcases h.assertions a' ha' with hfresh | ⟨a, ha, hid, hsubject, hpredicate⟩
    · exact Or.inl (hid' ▸ hfresh)
    · exact Or.inr ⟨a, ha, hid.trans hid', hsubject.trans hsubject', hpredicate.trans hpredicate'⟩
  revisions r'' hr'' := by
    rcases h'.revisions r'' hr'' with hlater | ⟨r', hr', hkey', hvalue'⟩
    · exact Or.inl (h.steady.later hlater)
    rcases h.revisions r' hr' with hlater | ⟨r, hr, hkey, hvalue⟩
    · obtain ⟨hid, hnumber⟩ := Prod.mk.inj hkey'
      exact Or.inl (hid ▸ hnumber ▸ hlater)
    · exact Or.inr ⟨r, hr, hkey.trans hkey', hvalue.trans hvalue'⟩
  episodes e'' he'' := by
    rcases h'.episodes e'' he'' with hfresh | he'
    · exact Or.inl (h.steady.fresh hfresh)
    · exact h.episodes e'' he'

/-- **An assertion keeps its subject and its predicate.** -/
theorem assertion_eq (h : Worded s s') (hkeys : ForeignKeys s) {a a' : AssertionRow}
    (ha : a ∈ s.contents.assertions) (ha' : a' ∈ s'.contents.assertions) (hid : a'.id = a.id) :
    a'.subject = a.subject ∧ a'.predicate = a.predicate := by
  rcases h.assertions a' ha' with hfresh | ⟨b, hb, hbid, hsubject, hpredicate⟩
  · obtain ⟨o, ho, hkey⟩ := hkeys.content.assertion_object.exists_parent ha rfl
    exact absurd ((Prod.mk.inj hkey).1.trans hid.symm) (hfresh o ho)
  · obtain rfl : b = a := Table.eq_of_key_eq hb ha (hbid.trans hid)
    exact ⟨hsubject.symm, hpredicate.symm⟩

/-- **A revision keeps its value.** -/
theorem value_eq (h : Worded s s') (hkeys : ForeignKeys s) {a : AssertionRow}
    (ha : a ∈ s.contents.assertions) {r r' : AssertionRevisionRow} (hr : r ∈ s.contents.revisions)
    (hof : r.assertionId = a.id) (hle : r.revision ≤ a.currentRevision)
    (hr' : r' ∈ s'.contents.revisions) (hkey : key r' = key r) : r'.value = r.value := by
  obtain ⟨hid, hnumber⟩ := Prod.mk.inj hkey
  rcases h.revisions r' hr' with (hfresh | ⟨b, hb, hbid, hlt⟩) | ⟨b, hb, hbkey, hvalue⟩
  · obtain ⟨o, ho, hokey⟩ := hkeys.content.assertion_object.exists_parent ha rfl
    exact absurd ((Prod.mk.inj hokey).1.trans (hof.symm.trans hid.symm)) (hfresh o ho)
  · -- the number is not past the head
    obtain rfl : b = a := Table.eq_of_key_eq hb ha (hbid.trans (hid.trans hof))
    have hnumber : r'.revision = r.revision := hnumber
    omega
  · obtain rfl : b = r := Table.eq_of_key_eq hb hr (hbkey.trans hkey)
    exact hvalue.symm

/-- **An episode stays as it is.** -/
theorem episode_eq (h : Worded s s') (hkeys : ForeignKeys s) {e e' : EpisodeRow}
    (he : e ∈ s.contents.episodes) (he' : e' ∈ s'.contents.episodes) (hid : e'.id = e.id) :
    e' = e := by
  rcases h.episodes e' he' with hfresh | hold
  · obtain ⟨o, ho, hkey⟩ := hkeys.content.episode_object.exists_parent he rfl
    exact absurd ((Prod.mk.inj hkey).1.trans hid.symm) (hfresh o ho)
  · exact Table.eq_of_key_eq hold he hid

end Worded

/-! ## Statements -/

/-- Adopting a revision keeps the values of all others. -/
theorem AdoptsRevision.values {v : View} {m : Moment} {id : UUID} {n : Nat} {c : Contents}
    (h : AdoptsRevision v m id n c) {r : AssertionRevisionRow} (hr : r ∈ c.revisions) :
    ∃ r' ∈ v.store.contents.revisions, key r' = key r ∧ r'.value = r.value := by
  obtain ⟨-, -, hrevisions⟩ := h.kept
  obtain ⟨r', hr', closed, rfl⟩ := hrevisions r hr
  exact ⟨r', hr', rfl, rfl⟩

/-- Adopting a revision keeps the texts of all assertions. -/
theorem AdoptsRevision.texts {v : View} {m : Moment} {id : UUID} {n : Nat} {c : Contents}
    (h : AdoptsRevision v m id n c) {a : AssertionRow} (ha : a ∈ c.assertions) :
    ∃ a' ∈ v.store.contents.assertions,
      a'.id = a.id ∧ a'.subject = a.subject ∧ a'.predicate = a.predicate := by
  obtain ⟨-, hassertions, -⟩ := h.kept
  obtain ⟨a', ha', head, rfl⟩ := hassertions a ha
  exact ⟨a', ha', rfl, rfl, rfl⟩

/-- **An adopted revision is later** than those of the start of the transaction. -/
theorem AdoptsRevision.later {start : Store} {v : View} {m : Moment} {n : NewRevision} {c : Contents}
    (h : AdoptsRevision v m n.assertionId n.revision c) {t : Table AssertionRevisionRow}
    (ht : c.revisions.insert? (n.row m) = some t) (hsteady : Steady start v.store)
    (hgrown : Grown start v.store) (hdeferred : DeferredKeys start) :
    start.Later n.assertionId n.revision := by
  cases h with
  | first hhead hone hcurrent =>
    obtain ⟨hmem, hid⟩ := Table.find?_eq_some_iff.mp (Option.filter_eq_some_iff.mp hhead).1
    rcases hsteady.heads _ hmem with hfresh | ⟨a, ha, haid, hle⟩
    · exact Or.inl (hid ▸ hfresh)
    refine Or.inr ⟨a, ha, haid.trans hid, ?_⟩
    by_contra hnot
    -- the assertion had its first revision already, so the number is taken
    have hfirst : a.currentRevision = 1 := by omega
    obtain ⟨r, hr, hkey⟩ := hdeferred.assertion_current.exists_parent ha rfl
    obtain ⟨r', hr', hkey'⟩ := hgrown.revisions r hr
    refine (Table.insert?_eq_some_iff.mp ht).1 r' hr' (hkey'.trans (hkey.trans ?_))
    exact Prod.ext (haid.trans hid) (hfirst.trans hone.symm)
  | next hhead _ hnext _ _ _ =>
    obtain ⟨hmem, hid⟩ := Table.find?_eq_some_iff.mp (Option.filter_eq_some_iff.mp hhead).1
    rcases hsteady.heads _ hmem with hfresh | ⟨a, ha, haid, hle⟩
    · exact Or.inl (hid ▸ hfresh)
    · exact Or.inr ⟨a, ha, haid.trans hid, by omega⟩

/-- **Statements on contents reword nothing.** -/
theorem ContentStatement.Accepted.worded {s : Setting} {σ : Session} {v : View} {m : Moment}
    {st : ContentStatement} {c : Contents} (h : st.Accepted v m c) (hallow : Writes s σ (.content st))
    (hgrown : Grown s.start v.store) (hdeferred : DeferredKeys s.start)
    (hworded : Worded s.start v.store) :
    (∀ a' ∈ c.assertions, Fresh s.start a'.id ∨ ∃ a ∈ s.start.contents.assertions,
        a.id = a'.id ∧ a.subject = a'.subject ∧ a.predicate = a'.predicate)
      ∧ (∀ r' ∈ c.revisions, s.start.Later r'.assertionId r'.revision
        ∨ ∃ r ∈ s.start.contents.revisions, key r = key r' ∧ r.value = r'.value)
      ∧ ∀ e' ∈ c.episodes, Fresh s.start e'.id ∨ e' ∈ s.start.contents.episodes := by
  cases st with
  | insertEpisode row =>
    obtain ⟨-, t, ht, rfl⟩ := h
    refine ⟨hworded.assertions, hworded.revisions, fun e' he' => ?_⟩
    rcases (Table.mem_insert? ht).mp he' with rfl | hold
    · exact Or.inl hallow
    · exact hworded.episodes e' hold
  | insertAssertion id scope subject predicate isRelation =>
    obtain ⟨-, t, ht, rfl⟩ := h
    refine ⟨fun a' ha' => ?_, hworded.revisions, hworded.episodes⟩
    rcases (Table.mem_insert? ht).mp ha' with rfl | hold
    · exact Or.inl hallow
    · exact hworded.assertions a' hold
  -- The new revision has a later number; closing the old head changes no text.
  | insertRevision n =>
    obtain ⟨-, t, c', ⟨hadopts, ht⟩, rfl⟩ := h
    refine ⟨fun a'' ha'' => ?_, fun r'' hr'' => ?_, fun e' he' => hworded.episodes e' ?_⟩
    · obtain ⟨a', ha', hid', hsubject', hpredicate'⟩ := hadopts.texts ha''
      rcases hworded.assertions a' ha' with hfresh | ⟨a, ha, hid, hsubject, hpredicate⟩
      · exact Or.inl (hid' ▸ hfresh)
      · exact Or.inr ⟨a, ha, hid.trans hid', hsubject.trans hsubject',
          hpredicate.trans hpredicate'⟩
    · rcases (Table.mem_insert? ht).mp hr'' with rfl | hold
      · exact Or.inl (hadopts.later ht hworded.steady hgrown hdeferred)
      obtain ⟨r', hr', hkey', hvalue'⟩ := hadopts.values hold
      rcases hworded.revisions r' hr' with hlater | ⟨r, hr, hkey, hvalue⟩
      · obtain ⟨hid, hnumber⟩ := Prod.mk.inj hkey'
        exact Or.inl (hid ▸ hnumber ▸ hlater)
      · exact Or.inr ⟨r, hr, hkey.trans hkey', hvalue.trans hvalue'⟩
    · rw [hadopts.kept.1] at he'
      exact he'
  | _ =>
    obtain ⟨-, t, -, rfl⟩ := h
    exact ⟨hworded.assertions, hworded.revisions, hworded.episodes⟩

/-- **Every statement of the discipline rewords nothing.** -/
theorem Writes.worded {c : Setting} {σ σ' : Session} {m : Moment} {st : Statement} {r : Returned}
    (hallow : Writes c σ st) (hstep : step c.platform st m σ = .ok (r, σ'))
    (hgrown : Grown c.start σ.store) (hdeferred : DeferredKeys c.start)
    (h : Worded c.start σ.store) : Worded c.start σ'.store := by
  have hsteady := hallow.steady hstep h.steady
  have haccepted := st.accepted (step_eq_ok.mp hstep).2.1
  rcases haccepted.contents_cases hallow.quiet with hsame | ⟨st', rfl, hcontent⟩
  · exact ⟨hsteady, hsame ▸ h.assertions, hsame ▸ h.revisions, hsame ▸ h.episodes⟩
  obtain ⟨hassertions, hrevisions, hepisodes⟩ := hcontent.worded hallow hgrown hdeferred h
  exact ⟨hsteady, hassertions, hrevisions, hepisodes⟩

/-! ## Runs -/

/-- **Every event of a sound store rewords nothing.** -/
theorem Sound.worded {platform : Platform} {s : Store} (hs : Sound s) (e : Event) :
    Worded s (e.exec platform s) := by
  refine Sound.transition (T := Worded) (R := Worded) Worded.refl ?_ (fun _ _ h => h) ?_ ?_ hs e
  · intro c st m σ r σ' hplatform hstart hσ _ hworded hallow hstep
    exact hallow.worded (hplatform ▸ hstep) hσ.grown hstart.integrity.deferred hworded
  · intro s s' gone _ hpurged
    refine ⟨hpurged.steady, fun a ha => ?_, fun r hr => ?_, fun e he => ?_⟩
    · rw [hpurged.contents] at ha
      exact Or.inr ⟨a, (Table.mem_delete.mp ha).1, rfl, rfl, rfl⟩
    · rw [hpurged.contents] at hr
      exact Or.inr ⟨r, (Table.mem_delete.mp hr).1, rfl, rfl⟩
    · rw [hpurged.contents] at he
      exact Or.inr (Table.mem_delete.mp he).1
  · intro s access
    exact ⟨.access s access, fun a ha => Or.inr ⟨a, ha, rfl, rfl, rfl⟩,
      fun r hr => Or.inr ⟨r, hr, rfl, rfl⟩, fun _ he => Or.inr he⟩

/-- **Every run from a sound store rewords nothing.** -/
theorem Sound.worded_run {platform : Platform} {s : Store} (hs : Sound s) (events : List Event) :
    Worded s (runEvents platform events s) := by
  induction events generalizing s with
  | nil => exact .refl s
  | cons e events ih => exact (hs.worded e).trans (ih (hs.event e))

end PgAgmemory

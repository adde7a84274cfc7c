import PgAgmemory.History.Sound
import PgAgmemory.Library.Chain

/-! # The history of an assertion

The revisions of an assertion are a chain: numbered from one up to the current revision, each ending
where the next begins (`Contents.Historied`). Between the insertion of an assertion and that of its
first revision there are none yet; at a commit, the deferred key of the current revision rules that
out. -/

namespace PgAgmemory

open Keyed (HasKey Table key)
open Versions (Dating Chain)

/-- Revisions are numbered, and dated by their system time. -/
def revisionDating : Dating AssertionRevisionRow Time where
  number := AssertionRevisionRow.revision
  start := AssertionRevisionRow.systemFrom
  stop := AssertionRevisionRow.systemTo

/-- A revision is in force when its system time contains the instant. -/
theorem inForce_iff {r : AssertionRevisionRow} {t : Time} :
    revisionDating.InForce r t ↔ r.systemTime.contains t = true := by
  rw [AssertionRevisionRow.systemTime, Range.contains, Bool.and_eq_true, Option.all_eq_true,
    Option.all_eq_true]
  simp only [decide_eq_true_eq]
  constructor
  · rintro ⟨hstart, hstop⟩
    exact ⟨fun a ha => Option.some.inj ha ▸ hstart, hstop⟩
  · rintro ⟨hstart, hstop⟩
    exact ⟨hstart _ rfl, hstop⟩

/-- The revisions of an assertion. -/
def Contents.revisionsOf (c : Contents) (id : UUID) : Set AssertionRevisionRow :=
  {r | r ∈ c.revisions ∧ r.assertionId = id}

/-- **The history of an assertion**: a chain up to its current revision, of at most a thousand. -/
structure Contents.Historied (c : Contents) (a : AssertionRow) : Prop where
  chain : Chain revisionDating (c.revisionsOf a.id) a.currentRevision
  positive : 1 ≤ a.currentRevision
  bounded : a.currentRevision ≤ 1000

/-- **In the middle of a transaction**, an assertion may not have a revision yet. -/
def Contents.Chained (c : Contents) : Prop :=
  ∀ a ∈ c.assertions, (a.currentRevision = 1 ∧ c.revisionsOf a.id = ∅) ∨ c.Historied a

/-- Histories depend on assertions and revisions only. -/
theorem Contents.Chained.congr {c c' : Contents} (h : c.Chained)
    (hassertions : c'.assertions = c.assertions) (hrevisions : c'.revisions = c.revisions) :
    c'.Chained := by
  have hset : ∀ id, c'.revisionsOf id = c.revisionsOf id := by
    intro id
    unfold Contents.revisionsOf
    rw [hrevisions]
  intro a ha
  rw [hassertions] at ha
  rcases h a ha with ⟨hcurrent, hempty⟩ | ⟨hchain, hpositive, hbounded⟩
  · exact Or.inl ⟨hcurrent, (hset a.id).trans hempty⟩
  · exact Or.inr ⟨(hset a.id).symm ▸ hchain, hpositive, hbounded⟩

/-! ## Statements -/

section Statements

variable {v : View} {m : Moment} {c : Contents}

/-- The revisions of an assertion after an insertion. -/
theorem mem_revisionsOf_insert {n : NewRevision} {t : Table AssertionRevisionRow}
    (ht : c.revisions.insert? (n.row m) = some t) {id : UUID} {r : AssertionRevisionRow} :
    r ∈ Contents.revisionsOf { c with revisions := t } id
      ↔ (r = n.row m ∧ n.assertionId = id) ∨ r ∈ c.revisionsOf id := by
  change (r ∈ t ∧ r.assertionId = id) ↔ _
  rw [Table.mem_insert? ht]
  constructor
  · rintro ⟨rfl | hr, hid⟩
    · exact Or.inl ⟨rfl, hid⟩
    · exact Or.inr ⟨hr, hid⟩
  · rintro (⟨rfl, hid⟩ | ⟨hr, hid⟩)
    · exact ⟨Or.inl rfl, hid⟩
    · exact ⟨Or.inr hr, hid⟩

/-- Inserting a revision of one assertion leaves those of another alone. -/
theorem revisionsOf_insert_of_ne {n : NewRevision} {t : Table AssertionRevisionRow}
    (ht : c.revisions.insert? (n.row m) = some t) {id : UUID} (hne : n.assertionId ≠ id) :
    Contents.revisionsOf { c with revisions := t } id = c.revisionsOf id := by
  ext r
  rw [mem_revisionsOf_insert ht, or_iff_right fun hnew => hne hnew.2]

/-- **A first revision** starts a history. -/
theorem Contents.Chained.first (h : c.Chained) {n : NewRevision} (hone : n.revision = 1)
    {t : Table AssertionRevisionRow} (ht : c.revisions.insert? (n.row m) = some t) :
    Contents.Chained { c with revisions := t } := by
  intro a ha
  have hold : a ∈ c.assertions := ha
  by_cases hid : n.assertionId = a.id
  · rcases h a hold with ⟨hcurrent, hempty⟩ | hhistory
    · have hsingle : Contents.revisionsOf { c with revisions := t } a.id = {n.row m} := by
        ext r
        rw [mem_revisionsOf_insert ht, hempty, and_iff_left hid, or_iff_left (Set.notMem_empty r),
          Set.mem_singleton_iff]
      refine Or.inr ⟨?_, by rw [hcurrent], by rw [hcurrent]; decide⟩
      rw [hsingle, hcurrent]
      exact Chain.single (d := revisionDating) hone rfl
    · -- a history has a first revision already, so its key is taken
      obtain ⟨r, hr, hnumber⟩ := (hhistory.chain.numbered 1).mpr ⟨Nat.le_refl 1, hhistory.positive⟩
      refine absurd ?_ ((Table.insert?_eq_some_iff.mp ht).1 r hr.1)
      exact Prod.ext (hr.2.trans hid.symm) (hnumber.trans hone.symm)
  · have hsame := revisionsOf_insert_of_ne ht hid
    rcases h a hold with ⟨hcurrent, hempty⟩ | ⟨hchain, hpositive, hbounded⟩
    · exact Or.inl ⟨hcurrent, hsame.trans hempty⟩
    · exact Or.inr ⟨hsame.symm ▸ hchain, hpositive, hbounded⟩

/-- The revisions of an assertion after its head has been closed. -/
theorem mem_revisionsOf_closeAt {id : UUID} {revision : Nat} {time : Time}
    {assertions : Table AssertionRow} {id' : UUID} {r' : AssertionRevisionRow} :
    r' ∈ Contents.revisionsOf { c with
        revisions := closeAt c.revisions id revision time, assertions := assertions } id'
      ↔ ∃ r ∈ c.revisionsOf id', r' = if id' = id ∧ r.revision = revision
        then { r with systemTo := some time } else r := by
  change (r' ∈ closeAt c.revisions id revision time ∧ r'.assertionId = id') ↔ _
  rw [closeAt, Table.mem_update]
  have hmatch : ∀ r : AssertionRevisionRow, r.assertionId = id' →
      ((decide (r.assertionId = id) && decide (r.revision = revision)) = true
        ↔ id' = id ∧ r.revision = revision) := by
    rintro r rfl
    rw [Bool.and_eq_true, decide_eq_true_eq, decide_eq_true_eq]
  have hkept : ∀ r : AssertionRevisionRow, (if (decide (r.assertionId = id)
      && decide (r.revision = revision)) = true then { r with systemTo := some time } else r).assertionId
        = r.assertionId := by
    intro r
    split <;> rfl
  constructor
  · rintro ⟨⟨r, hr, rfl⟩, hid⟩
    rw [hkept] at hid
    refine ⟨r, ⟨hr, hid⟩, ?_⟩
    simp only [hmatch r hid]
  · rintro ⟨r, ⟨hr, hid⟩, rfl⟩
    refine ⟨⟨r, hr, ?_⟩, ?_⟩
    · simp only [hmatch r hid]
    · split <;> exact hid

/-- The assertions after a head has been moved. -/
theorem mem_moveHead_iff {id : UUID} {revision : Nat} {t : Table AssertionRow} {a : AssertionRow} :
    a ∈ moveHead t id revision
      ↔ ∃ a' ∈ t, (if a'.id = id then { a' with currentRevision := revision } else a') = a := by
  rw [moveHead, Table.mem_update]
  simp only [decide_eq_true_eq]

/-- **A later revision** continues the history of its assertion. -/
theorem Contents.Chained.next (h : c.Chained) {n : NewRevision} {head : AssertionRow}
    {previous : AssertionRevisionRow} (hhead : head ∈ c.assertions) (hid : head.id = n.assertionId)
    (hnext : n.revision = head.currentRevision + 1) (hprevious : previous ∈ c.revisions)
    (hkey : (previous.assertionId, previous.revision) = (n.assertionId, head.currentRevision))
    (hlater : previous.systemFrom < m.clock 0) (hbounded : n.revision ≤ 1000)
    {t : Table AssertionRevisionRow}
    (ht : (closeAt c.revisions n.assertionId head.currentRevision (m.clock 0)).insert? (n.row m)
      = some t) :
    Contents.Chained { c with
      revisions := t, assertions := moveHead c.assertions n.assertionId n.revision } := by
  obtain ⟨hchild, hrevision⟩ := Prod.mk.inj hkey
  -- the store between the trigger and the insertion
  let closed : Contents := { c with
    revisions := closeAt c.revisions n.assertionId head.currentRevision (m.clock 0)
    assertions := moveHead c.assertions n.assertionId n.revision }
  have hinsert : closed.revisions.insert? (n.row m) = some t := ht
  intro a ha
  have hmove : a ∈ moveHead c.assertions n.assertionId n.revision := ha
  obtain ⟨a', ha', rfl⟩ := mem_moveHead_iff.mp hmove
  by_cases hmoved : a'.id = n.assertionId
  · obtain rfl : a' = head := Table.eq_of_key_eq ha' hhead (hmoved.trans hid.symm)
    rw [if_pos hmoved]
    have hmember : previous ∈ c.revisionsOf a'.id := ⟨hprevious, hchild.trans hmoved.symm⟩
    rcases h a' ha' with ⟨-, hempty⟩ | hhistory
    · exact absurd (hempty ▸ hmember) (Set.notMem_empty previous)
    · refine Or.inr ⟨?_, Nat.le_trans (Nat.le_add_left 1 _) (le_of_eq hnext.symm), hbounded⟩
      change Chain revisionDating _ n.revision
      rw [hnext]
      have hnumber : revisionDating.number (n.row m) = a'.currentRevision + 1 := hnext
      refine hhistory.chain.extend
        (c := fun r => { r with systemTo := some (m.clock 0) }) (fun _ => rfl) (fun _ => rfl)
        (fun _ => rfl) hnumber rfl (fun r hr hnumber => ?_) fun r' => ?_
      · rwa [hhistory.chain.unique r hr previous hmember (hnumber.trans hrevision.symm)]
      · refine (mem_revisionsOf_insert (c := closed) hinsert).trans ?_
        refine or_congr (and_iff_left hmoved.symm) ?_
        refine mem_revisionsOf_closeAt.trans (exists_congr fun r => and_congr_right fun _ => ?_)
        simp only [hmoved, true_and]
        exact Iff.rfl
  · rw [if_neg hmoved]
    have hsame : Contents.revisionsOf { c with
        revisions := t, assertions := moveHead c.assertions n.assertionId n.revision } a'.id
        = c.revisionsOf a'.id := by
      refine (revisionsOf_insert_of_ne (c := closed) hinsert fun heq => hmoved heq.symm).trans ?_
      ext r'
      rw [mem_revisionsOf_closeAt]
      simp only [hmoved, false_and, if_false, exists_eq_right']
    rcases h a' ha' with ⟨hcurrent, hempty⟩ | ⟨hchain, hpositive, hlimit⟩
    · exact Or.inl ⟨hcurrent, hsame.trans hempty⟩
    · exact Or.inr ⟨hsame.symm ▸ hchain, hpositive, hlimit⟩

/-- **A new assertion** has no revision yet. -/
theorem Contents.Chained.assertion (h : c.Chained)
    (hkeys : ∀ r ∈ c.revisions, ∃ a ∈ c.assertions, a.id = r.assertionId) {row : AssertionRow}
    (hone : row.currentRevision = 1) {t : Table AssertionRow}
    (ht : c.assertions.insert? row = some t) : Contents.Chained { c with assertions := t } := by
  intro a ha
  rcases (Table.mem_insert? ht).mp ha with rfl | hold
  · refine Or.inl ⟨hone, Set.eq_empty_of_forall_notMem ?_⟩
    rintro r ⟨hr, hid⟩
    obtain ⟨a', ha', hkey⟩ := hkeys r hr
    exact (Table.insert?_eq_some_iff.mp ht).1 a' ha' (hkey.trans hid)
  · rcases h a hold with hnone | ⟨hchain, hpositive, hbounded⟩
    · exact Or.inl hnone
    · exact Or.inr ⟨hchain, hpositive, hbounded⟩

/-- **Statements on contents keep histories.** -/
theorem ContentStatement.Accepted.chained (hkeys : ForeignKeys v.store) {st : ContentStatement}
    (h : st.Accepted v m c) (hchained : v.store.contents.Chained) : c.Chained := by
  cases st with
  | insertAssertion id scope subject predicate isRelation =>
    obtain ⟨-, t, ht, rfl⟩ := h
    refine hchained.assertion (fun r hr => ?_) rfl ht
    obtain ⟨a, ha, hkey⟩ := hkeys.content.revision_assertion.exists_parent hr rfl
    exact ⟨a, ha, (Prod.mk.inj hkey).1⟩
  | insertRevision n =>
    obtain ⟨⟨-, hchecks⟩, t, c', ⟨hadopts, ht⟩, rfl⟩ := h
    cases hadopts with
    | first _ hone _ => exact hchained.first hone ht
    | next hhead _ hnext hprevious _ hlater =>
      obtain ⟨hfind, -⟩ := Option.filter_eq_some_iff.mp hhead
      obtain ⟨hmem, hid⟩ := Table.find?_eq_some_iff.mp hfind
      obtain ⟨hfind', -⟩ := Option.filter_eq_some_iff.mp hprevious
      obtain ⟨hmem', hkey⟩ := Table.find?_eq_some_iff.mp hfind'
      rw [NewRevision.checks, Bool.and_eq_true, Bool.and_eq_true, Bool.and_eq_true,
        decide_eq_true_eq, decide_eq_true_eq] at hchecks
      exact hchained.next hmem hid hnext hmem' hkey hlater hchecks.1.1.2 ht
  | _ =>
    obtain ⟨-, t, -, rfl⟩ := h
    exact hchained.congr rfl rfl

end Statements

/-! ## Runs -/

/-- **A purge keeps the histories of what it leaves.** -/
theorem Purged.chained {s s' : Store} {gone : Gone} (h : Purged s s' gone)
    (hchained : s.contents.Chained) : s'.contents.Chained := by
  rw [h.contents]
  intro a ha
  obtain ⟨hold, hkept⟩ := Table.mem_delete.mp ha
  rw [h.heads a hold] at hkept
  have hsame : (s.erase gone).contents.revisionsOf a.id = s.contents.revisionsOf a.id := by
    ext r
    refine and_congr_left fun hid => Table.mem_delete.trans (and_iff_left ?_)
    rw [hid]
    exact hkept
  rcases hchained a hold with ⟨hcurrent, hempty⟩ | ⟨hchain, hpositive, hbounded⟩
  · exact Or.inl ⟨hcurrent, hsame.trans hempty⟩
  · exact Or.inr ⟨hsame.symm ▸ hchain, hpositive, hbounded⟩

/-- Histories are chains in every reachable store. -/
theorem Reachable.chained {platform : Platform} {s : Store} (h : Reachable platform s) :
    s.contents.Chained := by
  refine h.invariant (I := fun s => s.contents.Chained)
    (fun access a ha => absurd ha (Table.not_mem_empty a)) ?_ (fun _ _ _ _ hp => hp.chained)
    fun _ _ hchained => hchained
  intro c st m σ r σ' _ _ _ hgrounded hchained hallow hstep
  have haccepted := st.accepted (step_eq_ok.mp hstep).2.1
  rcases haccepted.contents_cases hallow.quiet with hsame | ⟨st', -, hcontent⟩
  · rw [hsame]
    exact hchained
  · exact hcontent.chained hgrounded.foreign hchained

/-- **Every assertion of a reachable store has a history.** -/
theorem Reachable.historied {platform : Platform} {s : Store} (h : Reachable platform s)
    {a : AssertionRow} (ha : a ∈ s.contents.assertions) : s.contents.Historied a := by
  rcases h.chained a ha with ⟨hcurrent, hempty⟩ | hhistory
  · obtain ⟨r, hr, hkey⟩ := h.sound.integrity.deferred.assertion_current.exists_parent ha rfl
    have hmember : r ∈ s.contents.revisionsOf a.id := ⟨hr, (Prod.mk.inj hkey).1⟩
    exact absurd (hempty ▸ hmember) (Set.notMem_empty r)
  · exact hhistory

end PgAgmemory

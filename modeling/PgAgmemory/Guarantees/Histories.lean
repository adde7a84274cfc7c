import PgAgmemory.Guarantees.Bitemporal
import PgAgmemory.History.Loads
import PgAgmemory.History.Steady
import PgAgmemory.Recalling.Reports
import PgAgmemory.System.Calls

/-! # Paging through a history

What a page of a history shows: the numbers below its start, from the greatest down, as many as were
asked for, each with the revision of that number. A number without a revision is an error, so no
page has a gap, and a chain of pages shows every revision below its start once. -/

namespace PgAgmemory

open Keyed (HasKey Table key)
open Interactive.Program (ReadOnly)
open MemoryService

/-! ## Counting down -/

theorem mem_countdown {start stop k : Nat} : k ∈ countdown start stop ↔ stop < k ∧ k ≤ start := by
  rw [countdown, List.mem_map]
  constructor
  · rintro ⟨i, hi, rfl⟩
    rw [List.mem_range] at hi
    omega
  · rintro ⟨hstop, hstart⟩
    exact ⟨start - k, List.mem_range.mpr (by omega), by omega⟩

theorem length_countdown (start stop : Nat) : (countdown start stop).length = start - stop := by
  rw [countdown, List.length_map, List.length_range]

/-- The numbers come from the greatest down. -/
theorem pairwise_countdown (start stop : Nat) : (countdown start stop).Pairwise (· > ·) := by
  rw [countdown, List.pairwise_map]
  refine List.pairwise_lt_range.imp_of_mem fun {i j} _ hj hlt => ?_
  rw [List.mem_range] at hj
  omega

/-- The first numbers. -/
theorem take_countdown (start stop n : Nat) :
    (countdown start stop).take n = countdown start (max stop (start - n)) := by
  rw [countdown, countdown, ← List.map_take, List.take_range]
  congr 2
  omega

/-- Counting down in two parts. -/
theorem countdown_append {start middle stop : Nat} (hstop : stop ≤ middle) (hmiddle : middle ≤
  start) :
    countdown start middle ++ countdown middle stop = countdown start stop := by
  have hlength : (countdown start middle).length = start - middle := length_countdown start middle
  refine List.Perm.eq_of_pairwise (fun a b _ _ hab hba => absurd hab (not_lt_of_gt hba)) ?_
    (pairwise_countdown start stop) ?_
  · refine List.pairwise_append.mpr ⟨pairwise_countdown _ _, pairwise_countdown _ _, ?_⟩
    intro a ha b hb
    have hleft := mem_countdown.mp ha
    have hright := mem_countdown.mp hb
    omega
  · refine (List.perm_ext_iff_of_nodup ?_ (pairwise_countdown start stop).nodup).mpr fun k => ?_
    · refine List.Nodup.append (pairwise_countdown _ _).nodup (pairwise_countdown _ _).nodup ?_
      intro k hleft hright
      have hk := mem_countdown.mp hleft
      have hk' := mem_countdown.mp hright
      omega
    · rw [List.mem_append, mem_countdown, mem_countdown, mem_countdown]
      omega

/-- The last number of a countdown. -/
theorem getLast?_countdown {start stop : Nat} (h : stop < start) :
    (countdown start stop).getLast? = some (stop + 1) := by
  have hlast : countdown start stop = countdown start (stop + 1) ++ [stop + 1] := by
    rw [← countdown_append (Nat.le_succ stop) h]
    have hone : countdown (stop + 1) stop = [stop + 1] := by
      rw [countdown, Nat.add_sub_cancel_left]
      rfl
    rw [hone]
  rw [hlast, List.getLast?_append, List.getLast?_singleton, Option.some_or]

/-! ## What a reader sees of a revision -/

/-- What is to be said about a revision of an assertion. -/
def Store.metadata (s : Store) (a : AssertionRow) (r : AssertionRevisionRow) :
    AssertionRevisionMetadata where
  revision := r.revision
  validFrom := r.validTime.lower
  validTo := r.validTime.upper
  recordedAt := r.systemFrom
  knownUntil := r.systemTo
  correctionReason := r.correctionReason
  evidenceRefs := s.evidenceRefs a.id r.revision
  relation := if a.isRelation then s.endpoints? a.id r.revision else none

/-- **A presentable revision** still has its evidence, and a relation its endpoints. -/
structure Presentable (s : Store) (a : AssertionRow) (revision : Nat) : Prop where
  evidence : 1 ≤ (s.evidenceRefs a.id revision).length ∧ (s.evidenceRefs a.id revision).length ≤ 32
  endpoints : a.isRelation = true → (s.endpoints? a.id revision).isSome = true

/-! ## Views of a readable scope -/

section Views

variable {v : View} {a : AssertionRow}

/-- The revisions of an assertion up to a number, the latest first. -/
def Store.revisionsUpTo (s : Store) (id : UUID) (highest : Nat) : List AssertionRevisionRow :=
  (s.contents.revisions.rows.filter fun r =>
    r.assertionId = id && decide (r.revision ≤ highest)).insertionSort
    AssertionRevisionRow.after

theorem Store.mem_revisionsUpTo {s : Store} {id : UUID} {highest : Nat} {r : AssertionRevisionRow} :
    r ∈ s.revisionsUpTo id highest ↔ r ∈ s.contents.revisionsOf id ∧ r.revision ≤ highest := by
  rw [Store.revisionsUpTo, List.mem_insertionSort, List.mem_filter, Table.mem_rows,
    Bool.and_eq_true,
    decide_eq_true_eq, decide_eq_true_eq, ← and_assoc]
  exact Iff.rfl

/-- The reader of a scope sees all the revisions of its assertions. -/
theorem View.historyRows_eq (hgrounded : Grounded v.store) (ha : a ∈ v.store.contents.assertions)
    (hread : v.permitted a.scopeId .read = true) (highest limit : Nat) :
    v.historyRows a.id highest limit
      = ((v.store.revisionsUpTo a.id highest).take limit).map v.historyRow := by
  have hvisible : v.visible a.id = true :=
    ((hgrounded.assertion ha).visible hgrounded.foreign.marked rfl).mpr hread
  have hrows : v.revisions.filter (fun r => r.assertionId = a.id && decide (r.revision ≤ highest))
      = v.store.contents.revisions.rows.filter fun r =>
        r.assertionId = a.id && decide (r.revision ≤ highest) := by
    rw [View.revisions, List.filter_filter]
    refine List.filter_congr fun r _ => ?_
    rw [Bool.eq_iff_iff, Bool.and_eq_true, and_iff_left_iff_imp, Bool.and_eq_true,
      decide_eq_true_eq]
    rintro ⟨hid, -⟩
    rw [hid]
    exact hvisible
  rw [View.historyRows, Store.revisionsUpTo, hrows]

/-- **The revisions of a history are numbered down to one.** -/
theorem Contents.Historied.numbers {s : Store} {a : AssertionRow} (h : s.contents.Historied a)
    {highest : Nat} (hle : highest ≤ a.currentRevision) :
    (s.revisionsUpTo a.id highest).map AssertionRevisionRow.revision = countdown highest 0 := by
  have hnodup : ((s.revisionsUpTo a.id highest).map AssertionRevisionRow.revision).Nodup := by
    refine List.Nodup.map_on (fun r hr r' hr' hnumber => ?_) ?_
    · exact h.chain.unique r (Store.mem_revisionsUpTo.mp hr).1 r' (Store.mem_revisionsUpTo.mp hr').1
        hnumber
    · exact (List.perm_insertionSort _ _).nodup_iff.mpr ((Table.nodup_rows _).filter _)
  have hsorted : ((s.revisionsUpTo a.id highest).map AssertionRevisionRow.revision).Pairwise
      (· ≥ ·) := by
    rw [List.pairwise_map, Store.revisionsUpTo]
    have htotal : Std.Total AssertionRevisionRow.after := ⟨fun x y =>
      Nat.le_total y.revision x.revision⟩
    have htrans : IsTrans AssertionRevisionRow AssertionRevisionRow.after :=
      ⟨fun _ _ _ hxy hyz => Nat.le_trans hyz hxy⟩
    exact List.pairwise_insertionSort _ _
  refine List.Perm.eq_of_pairwise (fun x y _ _ hxy hyx => Nat.le_antisymm hyx hxy) hsorted
    ((pairwise_countdown highest 0).imp fun hlt => Nat.le_of_lt hlt) ?_
  refine (List.perm_ext_iff_of_nodup hnodup (pairwise_countdown highest 0).nodup).mpr fun k => ?_
  rw [List.mem_map, mem_countdown]
  constructor
  · rintro ⟨r, hr, rfl⟩
    obtain ⟨hof, hbelow⟩ := Store.mem_revisionsUpTo.mp hr
    exact ⟨(h.chain.bounds hof).1, hbelow⟩
  · rintro ⟨hpositive, hbelow⟩
    obtain ⟨r, hr, hnumber⟩ := (h.chain.numbered k).mpr ⟨hpositive, hbelow.trans hle⟩
    have hnumber : r.revision = k := hnumber
    exact ⟨r, Store.mem_revisionsUpTo.mpr ⟨hr, hnumber.symm ▸ hbelow⟩, hnumber⟩

end Views

/-! ## One page -/

/-- The numbers that a page shows. -/
def AssertionHistory.shown (data : AssertionHistory) (highest : Nat) : List Nat :=
  countdown highest (highest - data.maxItems)

/-- **The page of a history**: the numbers from the highest one down, as many as were asked for,
each with its revision, and the last of them as the next start unless it is the first revision. -/
structure HistoryPage (s : Store) (a : AssertionRow) (data : AssertionHistory)
    (page : AssertionHistoryPage) : Prop where
  identity : page.memoryId = a.id ∧ page.scopeId = a.scopeId ∧ page.subject = a.subject
    ∧ page.predicate = a.predicate ∧ page.currentRevision = a.currentRevision
  revisions : List.Forall₂ (fun k m => ∃ r ∈ s.contents.revisionsOf a.id, r.revision = k
    ∧ m = s.metadata a r) (data.shown (data.highest a.currentRevision)) page.revisions
  next : page.nextBeforeRevision = if data.maxItems < data.highest a.currentRevision
    then some (data.highest a.currentRevision - data.maxItems + 1) else none

/-- Why a page of a history is refused. -/
inductive HistoryFails (s : Store) (a : AssertionRow) (data : AssertionHistory) : Fault → Prop where
  /-- An instant of a fetched revision is out of the client's range. -/
  | unreadable {r : AssertionRevisionRow} (h : r ∈ s.contents.revisionsOf a.id)
      (hnumber : r.revision ∈ data.expected (data.highest a.currentRevision))
      (hreadable : r.readable = false) : HistoryFails s a data .database
  /-- A shown revision has lost its evidence. -/
  | evidence {k : Nat} (h : k ∈ data.shown (data.highest a.currentRevision))
      (hlost : ¬ Presentable s a k) : HistoryFails s a data (.memory .assertionInvalidated)
  /-- A shown revision of a relation has lost an endpoint. -/
  | endpoint {k : Nat} (h : k ∈ data.shown (data.highest a.currentRevision))
      (hlost : ¬ Presentable s a k) : HistoryFails s a data (.memory .relationInvalidated)

section Page

variable {platform : Platform} {timeline : Timeline} {n : Nat} {σ : Session} {a : AssertionRow}

/-- **A shown revision** is presented, unless it has lost something. -/
theorem outcome_historyItem {s : Store} {data : AssertionHistory} {row : HistoryRow}
    {r : AssertionRevisionRow} (hrevision : row.revision = r)
    (hevidence : row.evidenceRefs = s.evidenceRefs a.id r.revision)
    (hendpoints : (row.sourceId.bind fun source => row.targetId.map fun target =>
      RelationEndpoints.mk source target) = s.endpoints? a.id r.revision)
    (hshown : r.revision ∈ data.shown (data.highest a.currentRevision)) :
    Outcome platform timeline (historyItem a.isRelation row)
      (fun m _ σ' => σ' = σ ∧ m = s.metadata a r ∧ Presentable s a r.revision)
      (HistoryFails s a data) n σ := by
  unfold historyItem
  rw [hevidence, hendpoints, hrevision]
  refine outcome_demand (fun hcount => ?_) fun hcount => ?_
  swap
  · refine .evidence hshown fun hpresent => ?_
    rw [decide_eq_true hpresent.evidence.1, decide_eq_true hpresent.evidence.2] at hcount
    cases hcount
  rw [Bool.and_eq_true, decide_eq_true_eq, decide_eq_true_eq] at hcount
  cases hrelation : a.isRelation with
  | false =>
    rw [if_neg Bool.false_ne_true]
    have hpresent : Presentable s a r.revision :=
      ⟨hcount, fun h => absurd (hrelation.symm.trans h) Bool.false_ne_true⟩
    refine outcome_pure ⟨rfl, ?_, hpresent⟩
    rw [Store.metadata, hrelation, if_neg Bool.false_ne_true]
  | true =>
    rw [if_pos rfl]
    refine outcome_found (fun endpoints hfound => ?_) fun hnone => ?_
    · have hpresent : Presentable s a r.revision := ⟨hcount, fun _ => hfound ▸ rfl⟩
      refine outcome_pure ⟨rfl, ?_, hpresent⟩
      rw [Store.metadata, hrelation, if_pos rfl, hfound]
    · refine .endpoint hshown fun hpresent => ?_
      have hsome := hpresent.endpoints hrelation
      rw [hnone] at hsome
      cases hsome

theorem AssertionHistory.highest_le (data : AssertionHistory) (currentRevision : Nat) :
    data.highest currentRevision ≤ currentRevision := Nat.min_le_left _ _

/-- The fetched revisions are the expected ones. -/
theorem Contents.Historied.fetched {s : Store} (h : s.contents.Historied a)
    (data : AssertionHistory) :
    ((s.revisionsUpTo a.id (data.highest a.currentRevision)).take (data.maxItems + 1)).map
        AssertionRevisionRow.revision
      = data.expected (data.highest a.currentRevision) := by
  rw [List.map_take, h.numbers (data.highest_le _), take_countdown, AssertionHistory.expected,
    Nat.zero_max, Nat.sub_sub]

/-- The selected revisions are the shown ones. -/
theorem Contents.Historied.selected {s : Store} (h : s.contents.Historied a)
    (data : AssertionHistory) :
    ((s.revisionsUpTo a.id (data.highest a.currentRevision)).take data.maxItems).map
        AssertionRevisionRow.revision
      = data.shown (data.highest a.currentRevision) := by
  rw [List.map_take, h.numbers (data.highest_le _), take_countdown, AssertionHistory.shown,
    Nat.zero_max]

/-- The next start of a page, from the numbers that it shows. -/
theorem next_of_shown {data : AssertionHistory} {highest fetched : Nat}
    {selected : List AssertionRevisionMetadata}
    (hselected : selected.map AssertionRevisionMetadata.revision = data.shown highest)
    (hfetched : fetched = min (data.maxItems + 1) highest) :
    (if data.maxItems < fetched then selected.getLast?.map AssertionRevisionMetadata.revision
      else none)
      = if data.maxItems < highest then some (highest - data.maxItems + 1) else none := by
  have hpositive := data.limits.1
  by_cases hmore : data.maxItems < highest
  · rw [if_pos (by omega), if_pos hmore, ← List.getLast?_map, hselected, AssertionHistory.shown,
      getLast?_countdown (by omega)]
  · rw [if_neg (by omega), if_neg hmore]

/-- A fetched revision of a readable assertion is shown with all that belongs to it. -/
theorem outcome_historyRow (hgrounded : Grounded σ.store) (ha : a ∈ σ.store.contents.assertions)
    (hread : Holds timeline σ a.scopeId .read) {data : AssertionHistory} {r : AssertionRevisionRow}
    (hof : r.assertionId = a.id) (hshown : r.revision ∈ data.shown (data.highest a.currentRevision))
    (k : Nat) :
    Outcome platform timeline (historyItem a.isRelation ((σ.view (timeline.moment k)).historyRow r))
      (fun m _ σ' => σ' = σ ∧ m = σ.store.metadata a r ∧ Presentable σ.store a r.revision)
      (HistoryFails σ.store a data) n σ := by
  refine outcome_historyItem rfl ?_ ?_ hshown
  · rw [View.historyRow, hof]
    exact View.evidenceRefs_eq (v := σ.view (timeline.moment k)) hgrounded ha (hread k) _
  · rw [View.historyRow, hof]
    dsimp only
    rw [View.relation?_eq (v := σ.view (timeline.moment k)) hgrounded ha (hread k),
      View.target?_eq (v := σ.view (timeline.moment k)) hgrounded ha (hread k)]
    rw [Store.endpoints?, Option.bind_map]
    refine Option.bind_congr fun l _ => ?_
    rw [Function.comp_apply, Option.map_map]
    rfl

/-- **The page of a history** in a readable scope. -/
theorem outcome_assertionHistory (hgrounded : Grounded σ.store)
    (ha : a ∈ σ.store.contents.assertions) (hhistory : σ.store.contents.Historied a)
    (hread : Holds timeline σ a.scopeId .read) {data : AssertionHistory} (hid : data.memoryId =
      a.id) :
    Outcome platform timeline (assertionHistory data)
      (fun page _ _ => HistoryPage σ.store a data page
        ∧ (∀ r ∈ σ.store.contents.revisionsOf a.id,
          r.revision ∈ data.expected (data.highest a.currentRevision) → r.readable = true)
        ∧ ∀ k ∈ data.shown (data.highest a.currentRevision), Presentable σ.store a k)
      (HistoryFails σ.store a data) n σ := by
  unfold assertionHistory
  rw [hid]
  refine outcome_bind ((outcome_object_holds hgrounded
    (hgrounded.foreign.content.assertion_object.exists_parent ha rfl) (hgrounded.assertion ha).free
    hread hread).mono (fun _ _ _ _ h => h) fun _ h => h.elim) ?_
  rintro obj m σ' - ⟨rfl, hscope, hkind⟩
  refine outcome_demand (fun _ => outcome_read ?_) fun hfail => by simp [hkind] at hfail
  have hvisible : (σ'.view (timeline.moment m)).visible a.id = true :=
    ((hgrounded.assertion ha).visible hgrounded.foreign.marked rfl).mpr (hread m)
  have hanchor : (σ'.view (timeline.moment m)).assertion? a.id = some a :=
    Option.filter_eq_some_iff.mpr ⟨Table.find?_eq_some_iff.mpr ⟨ha, rfl⟩, hvisible⟩
  refine outcome_found (fun anchor hfound => ?_) fun hnone => by rw [hanchor] at hnone; cases hnone
  obtain rfl : a = anchor := Option.some.inj (hanchor.symm.trans hfound)
  refine outcome_read ?_
  have hrows : (σ'.view (timeline.moment (m + 1))).historyRows a.id
        (data.highest a.currentRevision) (data.maxItems + 1)
      = ((σ'.store.revisionsUpTo a.id (data.highest a.currentRevision)).take (data.maxItems +
        1)).map
        (σ'.view (timeline.moment (m + 1))).historyRow :=
    View.historyRows_eq hgrounded ha (hread (m + 1)) _ _
  rw [hrows]
  have hfetched := hhistory.fetched data
  have hselected := hhistory.selected data
  refine outcome_decode (fun hreadable => ?_) fun hunreadable => ?_
  swap
  · rw [List.all_map, List.all_eq_false] at hunreadable
    obtain ⟨r, hr, hnot⟩ := hunreadable
    refine .unreadable (Store.mem_revisionsUpTo.mp (List.mem_of_mem_take hr)).1 ?_
      (eq_false_of_ne_true hnot)
    exact hfetched ▸ List.mem_map_of_mem hr
  refine outcome_demand (fun _ => ?_) fun hgap => ?_
  swap
  · rw [decide_eq_false_iff_not, List.map_map] at hgap
    exact absurd hfetched hgap
  rw [← List.map_take, List.take_take, Nat.min_eq_left (Nat.le_succ data.maxItems)]
  -- every selected row shows its revision with all that belongs to it
  refine outcome_bind (outcome_forCollect (P := fun row item =>
    item = σ'.store.metadata a row.revision ∧ Presentable σ'.store a row.revision.revision) ?_) ?_
  · intro row hrow k _
    obtain ⟨r, hr, rfl⟩ := List.mem_map.mp hrow
    have hof := (Store.mem_revisionsUpTo.mp (List.mem_of_mem_take hr)).1
    exact outcome_historyRow hgrounded ha hread hof.2 (hselected ▸ List.mem_map_of_mem hr) (m + 1)
  rintro items k σ'' - ⟨rfl, hitems⟩
  rw [List.forall₂_map_left_iff] at hitems
  have hmetadata : items = ((σ''.store.revisionsUpTo a.id (data.highest a.currentRevision)).take
      data.maxItems).map (σ''.store.metadata a) := eq_map_of_forall₂ (hitems.imp fun _ _ h => h.1)
  have hnumbers : items.map AssertionRevisionMetadata.revision
      = data.shown (data.highest a.currentRevision) := by
    rw [hmetadata, List.map_map, ← hselected]
    rfl
  refine outcome_read (outcome_pure ⟨⟨⟨rfl, hscope, rfl, rfl, rfl⟩, ?_, ?_⟩, ?_, ?_⟩)
  · rw [← hselected, List.forall₂_map_left_iff, hmetadata, List.forall₂_map_right_iff,
      List.forall₂_same]
    exact fun r hr => ⟨r, (Store.mem_revisionsUpTo.mp (List.mem_of_mem_take hr)).1, rfl, rfl⟩
  · refine next_of_shown hnumbers ?_
    have hlength := congrArg List.length hfetched
    rw [List.length_map, AssertionHistory.expected, length_countdown] at hlength
    rw [List.length_map, hlength]
    omega
  · intro r hr hexpected
    rw [← hfetched] at hexpected
    obtain ⟨r', hr', hnumber⟩ := List.mem_map.mp hexpected
    have hof := (Store.mem_revisionsUpTo.mp (List.mem_of_mem_take hr')).1
    obtain rfl : r' = r := hhistory.chain.unique r' hof r hr hnumber
    rw [List.all_map, List.all_eq_true] at hreadable
    exact hreadable r' hr'
  · intro k hk
    rw [← hselected] at hk
    obtain ⟨r, hr, rfl⟩ := List.mem_map.mp hk
    obtain ⟨item, -, -, hpresent⟩ := exists_of_forall₂ hitems.flip hr
    exact hpresent

/-- The first of the expected revisions are shown. -/
theorem AssertionHistory.take_expected (data : AssertionHistory) (highest : Nat) :
    (data.expected highest).take data.maxItems = data.shown highest := by
  rw [AssertionHistory.expected, take_countdown, AssertionHistory.shown]
  congr 1
  omega

/-- **What every page is**, whatever the store: it shows the expected numbers, and every one of
them, and the one after them, is the number of a revision. -/
structure Gapless (s : Store) (a : AssertionRow) (data : AssertionHistory)
    (page : AssertionHistoryPage) : Prop where
  rows : ∀ k ∈ data.expected (data.highest a.currentRevision),
    ∃ r ∈ s.contents.revisionsOf a.id, r.revision = k
  shown : page.revisions.map AssertionRevisionMetadata.revision
    = data.shown (data.highest a.currentRevision)
  next : page.nextBeforeRevision = if data.maxItems < data.highest a.currentRevision
    then some (data.highest a.currentRevision - data.maxItems + 1) else none

/-- A presented revision keeps its number. -/
theorem outcome_historyItem_number (isRelation : Bool) (row : HistoryRow) :
    Outcome platform timeline (historyItem isRelation row)
      (fun m _ σ' => σ' = σ ∧ m.revision = row.revision.revision) (fun _ => True) n σ := by
  unfold historyItem
  refine outcome_demand (fun _ => ?_) fun _ => trivial
  cases isRelation with
  | false => exact outcome_pure ⟨rfl, rfl⟩
  | true => exact outcome_found (fun _ _ => outcome_pure ⟨rfl, rfl⟩) fun _ => trivial

/-- **No page has a gap**, whatever the store. -/
theorem outcome_assertionHistory_gapless (data : AssertionHistory) :
    Outcome platform timeline (assertionHistory data)
      (fun page _ _ => ∃ a ∈ σ.store.contents.assertions, a.id = data.memoryId
        ∧ Gapless σ.store a data page) (fun _ => True) n σ := by
  refine outcome_bind ((outcome_object _ _).mono (fun _ _ _ _ h => h) fun _ _ => trivial) ?_
  rintro obj m σ' - ⟨rfl, -⟩
  refine outcome_demand (fun _ => outcome_read ?_) fun _ => trivial
  refine outcome_found (fun a hfound => outcome_read ?_) fun _ => trivial
  obtain ⟨hfind, -⟩ := Option.filter_eq_some_iff.mp hfound
  obtain ⟨ha, hid⟩ := Table.find?_eq_some_iff.mp hfind
  have hid : a.id = data.memoryId := hid
  refine outcome_decode (fun _ => ?_) fun _ => trivial
  refine outcome_demand (fun hgapless => ?_) fun _ => trivial
  rw [decide_eq_true_eq] at hgapless
  have hrevisions : ∀ k ∈ data.expected (data.highest a.currentRevision),
      ∃ r ∈ σ'.store.contents.revisionsOf a.id, r.revision = k := by
    intro k hk
    rw [← hgapless] at hk
    obtain ⟨row, hrow, rfl⟩ := List.mem_map.mp hk
    obtain ⟨r, hr, rfl⟩ := List.mem_map.mp hrow
    have hlisted := List.mem_filter.mp ((List.mem_insertionSort _).mp (List.mem_of_mem_take hr))
    obtain ⟨hassertion, -⟩ := Bool.and_eq_true_iff.mp hlisted.2
    exact ⟨r, ⟨(List.mem_filter.mp hlisted.1).1, (of_decide_eq_true hassertion).trans hid.symm⟩,
      rfl⟩
  refine outcome_bind (outcome_forCollect (P := fun row item =>
    item.revision = row.revision.revision) fun row _ k _ => outcome_historyItem_number _ row) ?_
  rintro items k σ'' - ⟨rfl, hitems⟩
  have hshown : items.map AssertionRevisionMetadata.revision
      = data.shown (data.highest a.currentRevision) := by
    rw [← data.take_expected, ← hgapless, ← List.map_take]
    exact eq_map_of_forall₂ (List.forall₂_map_right_iff.mpr hitems)
  refine outcome_read (outcome_pure ⟨a, ha, hid, hrevisions, hshown, next_of_shown hshown ?_⟩)
  have hlength := congrArg List.length hgapless
  rw [List.length_map, AssertionHistory.expected, length_countdown] at hlength
  rw [hlength]
  omega

end Page

/-! ## Chains of pages -/

/-- **A chain of pages**: each asks below the last revision of the page before it, whatever happened
in between, until a page has no next one. -/
inductive HistoryChain (platform : Platform) (memoryId : UUID) :
    Option Nat → Store → List AssertionRevisionMetadata → Prop where
  | last {s : Store} {principal : UUID} {timeline : Timeline} {data : AssertionHistory}
    {page : AssertionHistoryPage} (hid : data.memoryId = memoryId)
    (hpage : ask platform principal timeline (assertionHistory data) s = .ok page)
    (hnext : page.nextBeforeRevision = none) :
    HistoryChain platform memoryId data.beforeRevision s page.revisions
  | next {s : Store} {principal : UUID} {timeline : Timeline} {data : AssertionHistory}
    {page : AssertionHistoryPage} {n : Nat} {rest : List AssertionRevisionMetadata}
    (hid : data.memoryId = memoryId)
    (hpage : ask platform principal timeline (assertionHistory data) s = .ok page)
    (hnext : page.nextBeforeRevision = some n) (events : List Event)
    (hrest : HistoryChain platform memoryId (some n) (runEvents platform events s) rest) :
    HistoryChain platform memoryId data.beforeRevision s (page.revisions ++ rest)

/-- **A chain of pages shows every revision below its start once**, from the greatest down. -/
theorem HistoryChain.numbers {platform : Platform} {memoryId : UUID} {before : Option Nat}
    {s : Store} {revisions : List AssertionRevisionMetadata}
    (h : HistoryChain platform memoryId before s revisions) (hs : Sound s) : ∃ a ∈ s.contents.assertions, a.id = memoryId
      ∧ revisions.map AssertionRevisionMetadata.revision
        = countdown (min a.currentRevision (before.getD 1001 - 1)) 0 := by
  induction h with
  | @last s principal timeline data page hid hpage hnext =>
    obtain ⟨a, ha, haid, -, hshown, hlast⟩ :=
      ask_returns hpage (outcome_assertionHistory_gapless data)
    refine ⟨a, ha, haid.trans hid, hshown.trans ?_⟩
    rw [hnext] at hlast
    have hall : data.highest a.currentRevision ≤ data.maxItems := by
      by_contra hmore
      rw [if_pos (Nat.not_le.mp hmore)] at hlast
      cases hlast
    rw [AssertionHistory.shown, Nat.sub_eq_zero_of_le hall]
    rfl
  | @next s principal timeline data page n rest hid hpage hnext events hrest ih =>
    obtain ⟨a, ha, haid, -, hshown, hlast⟩ :=
      ask_returns hpage (outcome_assertionHistory_gapless data)
    obtain ⟨a', ha', haid', hnumbers⟩ := ih (hs.run events)
    refine ⟨a, ha, haid.trans hid, ?_⟩
    -- the head has not fallen back since, so the next page goes on where this one ended
    have hle : a.currentRevision ≤ a'.currentRevision :=
      (hs.steady_run events).head_le hs.integrity.foreign ha ha'
        (haid'.trans (hid.symm.trans haid.symm))
    rw [hnext] at hlast
    have hhighest := data.highest_le a.currentRevision
    split at hlast
    next hmore =>
      obtain rfl := Option.some.inj hlast
      have hstart : min a'.currentRevision
          ((some (data.highest a.currentRevision - data.maxItems + 1)).getD 1001 - 1)
          = data.highest a.currentRevision - data.maxItems := by
        rw [Option.getD_some, Nat.add_sub_cancel]
        omega
      rw [List.map_append, hshown, hnumbers, hstart, AssertionHistory.shown,
        countdown_append (Nat.zero_le _) (Nat.sub_le _ _)]
      rfl
    next => cases hlast

/-! ## The guarantee -/

/-- **How a history is answered** to a reader of its scope. -/
structure HistoryAnswers (platform : Platform) (s : Store) (a : AssertionRow) (principal : UUID)
    (timeline : Timeline) (data : AssertionHistory) : Prop where
  /-- A page comes exactly when the fetched revisions can be read and the shown ones presented. -/
  page_iff : (∃ page, ask platform principal timeline (assertionHistory data) s = .ok page) ↔
    (∀ r ∈ s.contents.revisionsOf a.id,
        r.revision ∈ data.expected (data.highest a.currentRevision) → r.readable = true)
      ∧ ∀ k ∈ data.shown (data.highest a.currentRevision), Presentable s a k
  page : ∀ page, ask platform principal timeline (assertionHistory data) s = .ok page →
    HistoryPage s a data page
      ∧ page.revisions.length = min data.maxItems (data.highest a.currentRevision)
      ∧ (page.nextBeforeRevision.isSome = true ↔ data.maxItems < data.highest a.currentRevision)
  fault : ∀ fault, ask platform principal timeline (assertionHistory data) s = .error fault →
    HistoryFails s a data fault

/-- A fault says what is wrong. -/
theorem HistoryFails.not_page {s : Store} {a : AssertionRow} {data : AssertionHistory}
    {fault : Fault} (h : HistoryFails s a data fault) :
    ¬ ((∀ r ∈ s.contents.revisionsOf a.id,
        r.revision ∈ data.expected (data.highest a.currentRevision) → r.readable = true)
      ∧ ∀ k ∈ data.shown (data.highest a.currentRevision), Presentable s a k) := by
  rintro ⟨hreadable, hpresent⟩
  cases h with
  | unreadable hr hnumber hnot => exact absurd (hreadable _ hr hnumber) (ne_true_of_eq_false hnot)
  | evidence hk hlost => exact hlost (hpresent _ hk)
  | endpoint hk hlost => exact hlost (hpresent _ hk)

/-- A page shows as many revisions as there are, up to its size, and has a next start when more
remain. -/
theorem HistoryPage.size {s : Store} {a : AssertionRow} {data : AssertionHistory}
    {page : AssertionHistoryPage} (h : HistoryPage s a data page) :
    page.revisions.length = min data.maxItems (data.highest a.currentRevision)
      ∧ (page.nextBeforeRevision.isSome = true ↔ data.maxItems < data.highest a.currentRevision)
        := by
  constructor
  · rw [← h.revisions.length_eq, AssertionHistory.shown, length_countdown]
    omega
  · rw [h.next]
    split
    next hmore => exact iff_of_true rfl hmore
    next hall => exact iff_of_false Bool.false_ne_true hall

/-- A reader of the scope is answered. -/
theorem Contents.Historied.answers {platform : Platform} {s : Store} (hs : Sound s)
    {a : AssertionRow} (ha : a ∈ s.contents.assertions) (hhistory : s.contents.Historied a)
    {principal : UUID}
    {timeline : Timeline} {data : AssertionHistory} (hid : data.memoryId = a.id)
    (hknown : (s.access.principals.find? principal).isSome = true)
    (hread : Holds timeline (.start principal s) a.scopeId .read) :
    HistoryAnswers platform s a principal timeline data := by
  have houtcome : Outcome platform timeline (assertionHistory data)
      (fun page _ _ => HistoryPage s a data page
        ∧ (∀ r ∈ s.contents.revisionsOf a.id,
          r.revision ∈ data.expected (data.highest a.currentRevision) → r.readable = true)
        ∧ ∀ k ∈ data.shown (data.highest a.currentRevision), Presentable s a k)
      (HistoryFails s a data) 1 (.start principal s) :=
    outcome_assertionHistory hs.grounded ha hhistory hread hid
  rcases ask_cases (readOnly_assertionHistory data) hs.integrity.deferred hknown houtcome with
    ⟨page, heq, hpage, hcondition⟩ | ⟨fault, heq, hfails⟩
  · refine ⟨iff_of_true ⟨page, heq⟩ hcondition, fun page' heq' => ?_, fun fault heq' => ?_⟩
    · obtain rfl := Except.ok.inj (heq.symm.trans heq')
      exact ⟨hpage, hpage.size⟩
    · rw [heq] at heq'
      cases heq'
  · refine ⟨iff_of_false ?_ hfails.not_page, fun page' heq' => ?_, fun fault' heq' => ?_⟩
    · rintro ⟨page, heq'⟩
      rw [heq] at heq'
      cases heq'
    · rw [heq] at heq'
      cases heq'
    · obtain rfl := Except.error.inj (heq.symm.trans heq')
      exact hfails

/-- **Paging through a history.** A reader of an assertion with a history, as every assertion of a
reachable store has one (`Reachable.historied`), is answered with the revisions below the start; a
chain of pages shows each of them once, whatever happens in between; and no page, in any store, has
a gap. -/
theorem assertion_history_pages {platform : Platform} {s : Store} (hs : Sound s) {a : AssertionRow}
    (ha : a ∈ s.contents.assertions) (hhistory : s.contents.Historied a) :
    (∀ principal timeline data, data.memoryId = a.id →
        (s.access.principals.find? principal).isSome = true →
        Holds timeline (.start principal s) a.scopeId .read →
        HistoryAnswers platform s a principal timeline data)
      ∧ (∀ before revisions, HistoryChain platform a.id before s revisions →
        revisions.map AssertionRevisionMetadata.revision
          = countdown (min a.currentRevision (before.getD 1001 - 1)) 0)
      ∧ ∀ s' principal timeline data page,
        ask platform principal timeline (assertionHistory data) s' = .ok page →
          ∃ a' ∈ s'.contents.assertions, a'.id = data.memoryId ∧ Gapless s' a' data page := by
  refine ⟨fun principal timeline data hid hknown hread => hhistory.answers hs ha hid hknown hread,
    fun before revisions hchain => ?_, fun s' principal timeline data page hpage =>
      ask_returns hpage (outcome_assertionHistory_gapless data)⟩
  obtain ⟨a', ha', hid, hnumbers⟩ := hchain.numbers hs
  obtain rfl : a' = a := Table.eq_of_key_eq ha' ha hid
  exact hnumbers

/-- A page of the assertion of the small tenant. -/
def AssertionHistory.brief : AssertionHistory where
  memoryId := 309

/-- The page of its last revision. -/
def AssertionHistory.latest : AssertionHistory where
  memoryId := 309
  maxItems := 1

/-- The page of the revision before the second one. -/
def AssertionHistory.earlier : AssertionHistory where
  memoryId := 309
  maxItems := 1
  beforeRevision := some 2

/-- A later observation, between the pages. -/
def Event.meanwhile : List Event := [.call ⟨1, .ticking 700 700, .observe .later "later"⟩]

/-- The corrected assertion of the small tenant has two pages of a revision each. -/
theorem assertion_history_pages_corrected : ∃ a ∈ Store.corrected.contents.assertions, ∃ page page',
    ask .plain 1 (.ticking 600 600) (assertionHistory .latest) .corrected = .ok page
      ∧ ask .plain 1 (.ticking 900 600) (assertionHistory .earlier) (runEvents .plain Event.meanwhile .corrected)
        = .ok page'
      ∧ page.nextBeforeRevision = some 2 ∧ page'.nextBeforeRevision = none
      ∧ HistoryAnswers .plain .corrected a 1 (.ticking 600 600) .latest
      ∧ (page.revisions ++ page'.revisions).map AssertionRevisionMetadata.revision = [2, 1] := by
  have hreach : Reachable .plain .corrected := .event _ reachable_remembered
  have hrows : Store.corrected.contents.assertions.rows.map (fun a => (a.id, a.scopeId, a.currentRevision))
      = [(309, 2, 2)] := by decide +kernel
  obtain ⟨a, ha, heq⟩ := List.mem_map.mp (hrows ▸ List.mem_singleton_self (309, 2, 2))
  obtain ⟨hid, hrest⟩ := Prod.mk.inj heq
  obtain ⟨hscope, hcurrent⟩ := Prod.mk.inj hrest
  have hread : Holds (.ticking 600 600) (.start 1 .corrected) a.scopeId .read := by
    rw [hscope]
    exact holds_of_lasting (by decide +kernel)
  have hfirst : (ask .plain 1 (.ticking 600 600) (assertionHistory .latest) .corrected).toOption.any
      (fun page => decide (page.nextBeforeRevision = some 2)) = true := by decide +kernel
  have hsecond : (ask .plain 1 (.ticking 900 600) (assertionHistory .earlier)
      (runEvents .plain Event.meanwhile .corrected)).toOption.any
      (fun page => decide (page.nextBeforeRevision = none)) = true := by decide +kernel
  obtain ⟨page, hpage, hnext⟩ := (Option.any_eq_true _ _).mp hfirst
  obtain ⟨page', hpage', hlast⟩ := (Option.any_eq_true _ _).mp hsecond
  have hpage := toOption_eq_some.mp hpage
  have hpage' := toOption_eq_some.mp hpage'
  have hnext := of_decide_eq_true hnext
  have hlast := of_decide_eq_true hlast
  obtain ⟨hanswers, hchain, -⟩ := @assertion_history_pages .plain _ hreach.sound a ha (hreach.historied ha)
  have hrevisions := hchain none _ (.next hid.symm hpage hnext Event.meanwhile (.last hid.symm hpage' hlast))
  rw [hcurrent] at hrevisions
  exact ⟨a, ha, page, page', hpage, hpage', hnext, hlast,
    hanswers 1 _ .latest hid.symm (by decide +kernel) hread, hrevisions⟩

/-- The small tenant after the purge of its assertion: the membership expired when the edges were
erased, and was granted again. -/
def Store.stripped : Store :=
  runEvents .plain [
    .call ⟨1, .ticking 0 100, .observe (.brief 2) "key"⟩,
    .call ⟨1, .ticking 200 300, .remember .brief "key"⟩,
    .call ⟨1, .ticking 600 1000, .forget { memoryIds := [309], reason := .brief } "forget"⟩,
    .renewal] (.provisioned (.sole 1 2 (some 617)))

/-- **A history that fails**: the assertion still has a history, but no evidence. -/
theorem assertion_history_fails :
    Reachable .plain .stripped
      ∧ ∃ a ∈ Store.stripped.contents.assertions, a.id = 309 ∧ Store.stripped.contents.Historied a
        ∧ Holds (.ticking 800 900) (.start 1 .stripped) a.scopeId .read
        ∧ ask .plain 1 (.ticking 800 900) (assertionHistory .brief) .stripped
          = .error (.memory .assertionInvalidated) := by
  have hreach : Reachable .plain .stripped := (Reachable.provisioned _).run _
  have hids : Store.stripped.contents.assertions.rows.map (fun a =>
    (a.id, a.scopeId)) = [(309, 2)] := by
    decide +kernel
  obtain ⟨a, ha, heq⟩ := List.mem_map.mp (hids ▸ List.mem_singleton_self (309, 2))
  obtain ⟨hid, hscope⟩ := Prod.mk.inj heq
  refine ⟨hreach, a, ha, hid, hreach.historied ha, ?_, ?_⟩
  · rw [hscope]
    exact holds_of_lasting (by decide +kernel)
  · exact faultOf?_eq_some.mp (by decide +kernel)

end PgAgmemory

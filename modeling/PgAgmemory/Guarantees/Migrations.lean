import PgAgmemory.Migrations.Revisions

/-! # Migrating to revisions

The script keeps what a store means: every assertion becomes its own first revision. The result obeys the
law of histories, and its assertions can be corrected, exactly when every old assertion was open in system
time, unless the script aborts: its final check looks for missing evidence only. -/

namespace PgAgmemory

open Keyed (HasKey Table key)
open Keyed.Table (References)

/-! ## What the script does -/

/-- A backfilled row passes the new checks when the bounds of its system time are finite. -/
theorem LegacyAssertionRow.checks_backfill {a : LegacyAssertionRow} (h : a.checks = true) :
    a.backfill.checks = a.systemTime.finite := by
  simp only [LegacyAssertionRow.checks, Bool.and_eq_true, decide_eq_true_eq] at h
  obtain ⟨⟨⟨hvalid, hsystem⟩, hstatus⟩, hintent⟩ := h
  simp [RevisionRow.checks, LegacyAssertionRow.backfill, hvalid, hsystem, hstatus, hintent]

/-- The first revision of an assertion has the evidence of the assertion. -/
theorem LegacyStore.evidenced_backfilled (s : LegacyStore) (a : LegacyAssertionRow) :
    s.backfilled.evidenced a.backfill = s.evidenced a := by
  have hrows : s.backfilled.evidence.rows = s.edges.rows.map LegacyEdgeRow.attach := rfl
  rw [RevisedStore.evidenced, LegacyStore.evidenced, hrows, List.any_map]
  refine List.any_congr rfl fun e => ?_
  rw [Function.comp_apply, decide_eq_decide]
  simp [LegacyEdgeRow.attach, LegacyAssertionRow.backfill]

/-- **When the script succeeds.** -/
theorem LegacyStore.migrate_eq_ok {exempt : Bool} {s : LegacyStore} {s' : RevisedStore} :
    s.migrate exempt = .ok s' ↔ exempt = true ∧ (∀ a ∈ s.assertions, a.backfill.checks = true)
      ∧ (∀ a ∈ s.assertions, s.evidenced a = true) ∧ s' = s.backfilled := by
  have hchecks : s.backfilled.revisions.rows.all RevisionRow.checks = true
      ↔ ∀ a ∈ s.assertions, a.backfill.checks = true := by
    rw [List.all_eq_true]
    exact List.forall_mem_map
  have hevidence : s.backfilled.revisions.rows.all s.backfilled.evidenced = true
      ↔ ∀ a ∈ s.assertions, s.evidenced a = true := by
    rw [List.all_eq_true]
    refine List.forall_mem_map.trans (forall₂_congr fun a _ => ?_)
    rw [s.evidenced_backfilled]
  rw [← hchecks, ← hevidence, LegacyStore.migrate]
  cases exempt with
  | false => exact iff_of_false (fun h => by cases h) fun h => by cases h.1
  | true =>
    cases s.backfilled.revisions.rows.all RevisionRow.checks with
    | false => exact iff_of_false (fun h => by cases h) fun h => by cases h.2.1
    | true =>
      cases s.backfilled.revisions.rows.all s.backfilled.evidenced with
      | false => exact iff_of_false (fun h => by cases h) fun h => by cases h.2.2.1
      | true =>
        constructor
        · intro h
          exact ⟨rfl, rfl, rfl, (Except.ok.inj h).symm⟩
        · rintro ⟨-, -, -, rfl⟩
          rfl

theorem LegacyStore.mem_heads_backfilled (s : LegacyStore) {h : HeadRow} :
    h ∈ s.backfilled.heads ↔ ∃ a ∈ s.assertions, a.head = h := List.mem_map

theorem LegacyStore.mem_revisions_backfilled (s : LegacyStore) {r : RevisionRow} :
    r ∈ s.backfilled.revisions ↔ ∃ a ∈ s.assertions, a.backfill = r := List.mem_map

theorem LegacyStore.mem_evidence_backfilled (s : LegacyStore) {e : EvidenceRow} :
    e ∈ s.backfilled.evidence ↔ ∃ d ∈ s.edges, d.attach = e := List.mem_map

/-- **The first revisions keep what the old rows said.** -/
structure Preserves (s : LegacyStore) (s' : RevisedStore) : Prop where
  heads : ∀ h, h ∈ s'.heads
    ↔ ∃ a ∈ s.assertions, h = ⟨a.tenantId, a.id, a.scopeId, a.subject, a.predicate, 1⟩
  revisions : ∀ r, r ∈ s'.revisions ↔ ∃ a ∈ s.assertions, r = ⟨a.tenantId, a.id, a.scopeId, 1,
    a.value, a.validTime, a.systemTime, a.epistemicStatus, a.explicitIntent, none⟩
  evidence : ∀ e, e ∈ s'.evidence
    ↔ ∃ d ∈ s.edges, e = ⟨d.tenantId, d.childId, 1, d.parentId, d.scopeId, d.quote⟩
  episodes : s'.episodes = s.episodes
  objects : s'.objects = s.objects
  tombstones : s'.tombstones = s.tombstones

theorem LegacyStore.preserves (s : LegacyStore) : Preserves s s.backfilled where
  heads _ := s.mem_heads_backfilled.trans (exists_congr fun _ => and_congr_right fun _ => eq_comm)
  revisions _ :=
    s.mem_revisions_backfilled.trans (exists_congr fun _ => and_congr_right fun _ => eq_comm)
  evidence _ :=
    s.mem_evidence_backfilled.trans (exists_congr fun _ => and_congr_right fun _ => eq_comm)
  episodes := rfl
  objects := rfl
  tombstones := rfl

/-! ## Histories -/

/-- **The law of histories** holds of every assertion. -/
def RevisedStore.Lawful (s : RevisedStore) : Prop :=
  ∀ h ∈ s.heads, s.checkAssertionHistory h = true

/-- The revisions of an assertion in a table. -/
theorem RevisedStore.mem_revisionsOf {s : RevisedStore} {h : HeadRow} {r : RevisionRow} :
    r ∈ s.revisionsOf h ↔ r ∈ s.revisions ∧ (r.tenantId, r.assertionId) = (h.tenantId, h.id) := by
  rw [RevisedStore.revisionsOf, List.mem_filter, Table.mem_rows, decide_eq_true_eq]

theorem RevisedStore.nodup_revisionsOf (s : RevisedStore) (h : HeadRow) :
    (s.revisionsOf h).Nodup := (Table.nodup_rows _).filter _

/-- A backfilled assertion has one revision. -/
theorem LegacyStore.revisionsOf_backfilled {s : LegacyStore} {a : LegacyAssertionRow}
    (ha : a ∈ s.assertions) : s.backfilled.revisionsOf a.head = [a.backfill] := by
  refine List.perm_singleton.mp ((List.perm_ext_iff_of_nodup (RevisedStore.nodup_revisionsOf _ _)
    (List.nodup_singleton _)).mpr fun r => ?_)
  rw [RevisedStore.mem_revisionsOf, List.mem_singleton, (s.preserves).revisions]
  constructor
  · rintro ⟨⟨b, hb, rfl⟩, hkey⟩
    obtain rfl : b = a := Table.eq_of_key_eq hb ha hkey
    rfl
  · rintro rfl
    exact ⟨⟨a, ha, rfl⟩, rfl⟩

/-- **The law of a backfilled assertion**: it is open in system time and has evidence. -/
theorem LegacyStore.checkAssertionHistory_backfilled {s : LegacyStore} {a : LegacyAssertionRow}
    (ha : a ∈ s.assertions) :
    s.backfilled.checkAssertionHistory a.head = (a.systemTime.upperInf && s.evidenced a) := by
  rw [RevisedStore.checkAssertionHistory, s.revisionsOf_backfilled ha, List.all_cons, List.all_nil,
    List.all_cons, List.all_nil, Bool.and_true, Bool.and_true, s.evidenced_backfilled]
  simp [RevisionRow.contiguous, LegacyAssertionRow.backfill, LegacyAssertionRow.head]

/-- **A migrated store is lawful exactly when every old assertion was open.** -/
theorem LegacyStore.lawful_backfilled {s : LegacyStore}
    (hevidence : ∀ a ∈ s.assertions, s.evidenced a = true) :
    s.backfilled.Lawful ↔ ∀ a ∈ s.assertions, a.systemTime.upperInf = true := by
  constructor
  · intro hlawful a ha
    have hhead : a.head ∈ s.backfilled.heads := s.mem_heads_backfilled.mpr ⟨a, ha, rfl⟩
    have hcheck := hlawful a.head hhead
    rw [s.checkAssertionHistory_backfilled ha, Bool.and_eq_true] at hcheck
    exact hcheck.1
  · intro hopen h hh
    obtain ⟨a, ha, rfl⟩ := s.mem_heads_backfilled.mp hh
    rw [s.checkAssertionHistory_backfilled ha, hopen a ha, hevidence a ha]
    rfl

/-! ## Row security -/

theorem RevisedStore.mem_visible_heads {s : RevisedStore} {r : HeadRow} :
    r ∈ s.visible.heads ↔ r ∈ s.heads ∧ s.live r.tenantId r.id = true := by
  rw [RevisedStore.visible, Table.mem_delete, Bool.not_eq_false']

theorem RevisedStore.mem_visible_revisions {s : RevisedStore} {r : RevisionRow} :
    r ∈ s.visible.revisions ↔ r ∈ s.revisions ∧ s.live r.tenantId r.assertionId = true := by
  rw [RevisedStore.visible, Table.mem_delete, Bool.not_eq_false']

theorem RevisedStore.mem_visible_episodes {s : RevisedStore} {r : LegacyEpisodeRow} :
    r ∈ s.visible.episodes ↔ r ∈ s.episodes ∧ s.live r.tenantId r.id = true := by
  rw [RevisedStore.visible, Table.mem_delete, Bool.not_eq_false']

theorem RevisedStore.mem_visible_evidence {s : RevisedStore} {r : EvidenceRow} :
    r ∈ s.visible.evidence ↔ r ∈ s.evidence ∧ s.live r.tenantId r.childId = true
      ∧ s.live r.tenantId r.parentId = true := by
  rw [RevisedStore.visible, Table.mem_delete, Bool.not_eq_false', Bool.and_eq_true]

/-- Row security shows all revisions of a live assertion. -/
theorem RevisedStore.revisionsOf_visible {s : RevisedStore} {h : HeadRow}
    (hlive : s.live h.tenantId h.id = true) : s.visible.revisionsOf h = s.revisionsOf h := by
  have hrows : s.visible.revisions.rows
      = s.revisions.rows.filter fun r => !!s.live r.tenantId r.assertionId := rfl
  rw [RevisedStore.revisionsOf, RevisedStore.revisionsOf, hrows, List.filter_filter]
  refine List.filter_congr fun r _ => ?_
  by_cases hkey : (r.tenantId, r.assertionId) = (h.tenantId, h.id)
  · obtain ⟨htenant, hid⟩ := Prod.mk.inj hkey
    simp [htenant, hid, hlive]
  · simp [hkey]

/-- A revision has evidence when some row names it. -/
theorem RevisedStore.evidenced_iff {s : RevisedStore} {r : RevisionRow} :
    s.evidenced r = true ↔ ∃ e ∈ s.evidence,
      (e.tenantId, e.childId, e.childRevision) = (r.tenantId, r.assertionId, r.revision) := by
  rw [RevisedStore.evidenced, List.any_eq_true]
  simp only [decide_eq_true_eq]
  exact Iff.rfl

theorem LegacyStore.supported_iff {s : LegacyStore} {a : LegacyAssertionRow} :
    s.supported a = true ↔ ∃ e ∈ s.edges, (e.tenantId, e.childId) = (a.tenantId, a.id)
      ∧ s.live e.tenantId e.parentId = true := by
  rw [LegacyStore.supported, List.any_eq_true]
  simp only [Bool.and_eq_true, decide_eq_true_eq]
  exact Iff.rfl

/-! ## Corrections -/

/-- **A well-formed correction** of an assertion: a valid time, a reason, and quotes of distinct live
episodes of its scope. -/
structure Correction.WellFormed (s : RevisedStore) (h : HeadRow) (c : Correction) : Prop where
  valid : c.validTime.validCheck = true
  reason : 1 ≤ c.reason.length ∧ c.reason.length ≤ 256
  nonempty : c.evidence ≠ []
  distinct : (c.evidence.map Prod.fst).Nodup
  episodes : ∀ p ∈ c.evidence, p.2 ≠ "" ∧ ∃ e ∈ s.episodes, (e.tenantId, e.id) = (h.tenantId, p.1)
    ∧ s.live e.tenantId e.id = true ∧ e.scopeId = h.scopeId

/-- Well-formed evidence is inserted. -/
theorem exists_insertEvidence {s : RevisedStore} {h : HeadRow} {n : Nat}
    {evidence : List (UUID × String)} {t : Table EvidenceRow}
    (hepisodes : ∀ p ∈ evidence, p.2 ≠ "" ∧ ∃ e ∈ s.episodes, (e.tenantId, e.id) = (h.tenantId, p.1)
      ∧ s.live e.tenantId e.id = true ∧ e.scopeId = h.scopeId)
    (hdistinct : (evidence.map Prod.fst).Nodup)
    (hfresh : ∀ e ∈ t, ∀ p ∈ evidence, key e ≠ (h.tenantId, h.id, n, p.1)) :
    ∃ t', insertEvidence s h n evidence t = some t' ∧ (∀ e ∈ t, e ∈ t')
      ∧ ∀ p ∈ evidence, ∃ e ∈ t', key e = (h.tenantId, h.id, n, p.1) := by
  induction evidence generalizing t with
  | nil => exact ⟨t, rfl, fun _ he => he, fun _ hp => absurd hp List.not_mem_nil⟩
  | cons p rest ih =>
    obtain ⟨parentId, quote⟩ := p
    obtain ⟨hquote, e, he, hkey, hlive, hscope⟩ := hepisodes _ List.mem_cons_self
    obtain ⟨hother, hdistinct⟩ := List.nodup_cons.mp hdistinct
    obtain ⟨t₁, hinsert⟩ := Table.exists_insert?
      (r := (⟨h.tenantId, h.id, n, parentId, h.scopeId, quote⟩ : EvidenceRow))
      (fun q hq => hfresh q hq _ List.mem_cons_self)
    obtain ⟨t', hrest, hkept, hnew⟩ := ih (t := t₁)
      (fun q hq => hepisodes q (List.mem_cons_of_mem _ hq)) hdistinct fun q hq q' hq' => by
        rcases (Table.mem_insert? hinsert).mp hq with rfl | hold
        · -- another episode gives another key
          intro heq
          refine hother (List.mem_map.mpr ⟨q', hq', ?_⟩)
          exact (Prod.mk.inj (Prod.mk.inj (Prod.mk.inj heq).2).2).2.symm
        · exact hfresh q hold q' (List.mem_cons_of_mem _ hq')
    refine ⟨t', ?_, fun q hq => hkept q ((Table.mem_insert? hinsert).mpr (Or.inr hq)), ?_⟩
    · have hfind : s.visible.episodes.find? (h.tenantId, parentId) = some e :=
        Table.find?_eq_some_iff.mpr ⟨RevisedStore.mem_visible_episodes.mpr ⟨he, hlive⟩, hkey⟩
      rw [insertEvidence, hfind]
      simp [hscope, hquote, hinsert, hrest]
    · intro q hq
      rcases List.mem_cons.mp hq with rfl | hq
      · exact ⟨_, hkept _ (Table.mem_insert?_self hinsert), rfl⟩
      · exact hnew q hq

/-- Inserted evidence is evidence of the new revision. -/
theorem mem_insertEvidence {s : RevisedStore} {h : HeadRow} {n : Nat}
    {evidence : List (UUID × String)} {t t' : Table EvidenceRow}
    (hinsert : insertEvidence s h n evidence t = some t') {e : EvidenceRow} (he : e ∈ t') :
    e ∈ t ∨ e.childRevision = n := by
  induction evidence generalizing t with
  | nil => exact Or.inl (Option.some.inj hinsert ▸ he)
  | cons p rest ih =>
    obtain ⟨parentId, quote⟩ := p
    simp only [insertEvidence, Option.bind_eq_bind, Option.bind_eq_some_iff,
      Option.ite_none_right_eq_some] at hinsert
    obtain ⟨_, -, -, t₁, hrow, hrest⟩ := hinsert
    rcases ih hrest with hold | hnew
    · rcases (Table.mem_insert? hrow).mp hold with rfl | hold
      · exact Or.inr rfl
      · exact Or.inl hold
    · exact Or.inr hnew

/-- The head that a correction moves. -/
theorem mem_advance {heads : Table HeadRow} {h : HeadRow} (hh : h ∈ heads) :
    { h with currentRevision := h.currentRevision + 1 } ∈ advance heads h :=
  Table.mem_update.mpr ⟨h, hh, if_pos (decide_eq_true rfl)⟩

/-- An open system time that passes the checks starts at an instant. -/
theorem TstzRange.eq_since {r : TstzRange} (hcheck : r.systemCheck = true)
    (hfinite : r.finite = true) (hopen : r.upperInf = true) : ∃ t, r = .since t := by
  cases r with
  | empty => cases hopen
  | between lower upper =>
    cases upper with
    | some u => cases hopen
    | none =>
      cases lower with
      | none => simp [systemCheck, lowerInf] at hcheck
      | some l =>
        obtain ⟨value, inclusive⟩ := l
        cases inclusive with
        | false => simp [systemCheck, lowerInc, lower?] at hcheck
        | true =>
          cases value with
          | instant t => exact ⟨t, rfl⟩
          | past => simp [finite, lower?, Timestamptz.isFinite] at hfinite
          | future => simp [finite, lower?, Timestamptz.isFinite] at hfinite

/-- A head that is closed later than it began passes the checks. -/
theorem TstzRange.closedAt_since {lower upper : Time} (h : lower < upper) :
    ((since lower).closedAt upper).systemCheck = true ∧ ((since lower).closedAt upper).finite = true := by
  have hcrossed : ¬ upper < lower := Int.lt_asymm h
  have hne : upper ≠ lower := (Int.ne_of_lt h).symm
  simp [since, closedAt, systemCheck, finite, isEmpty, crossed, lowerInf, lowerInc, upperInc, lower?,
    upper?, Timestamptz.before, Timestamptz.isFinite, hcrossed, hne]

/-- A closed head and its successor have no instant in common. -/
theorem TstzRange.not_overlaps_since (r : TstzRange) (t : Time) :
    (r.closedAt t).overlaps (since t) = false := by
  simp [overlaps, strictlyBefore, closedAt, since, crossed, upper?, lower?, Timestamptz.before]

/-- **What a successful correction has checked.** -/
theorem RevisedStore.correct_eq_some {s s' : RevisedStore} {tenantId id : UUID} {n : Nat}
    {c : Correction} {adoptedAt closedAt : Time} :
    s.correct tenantId id n c adoptedAt closedAt = some s' ↔
    ∃ head, s.visible.heads.find? (tenantId, id) = some head
      ∧ ∃ previous, s.visible.revisions.find? (tenantId, id, head.currentRevision) = some previous
      ∧ (n = head.currentRevision ∧ s.adopts head previous c adoptedAt closedAt = true)
      ∧ ∃ revisions,
        (closeHead s.revisions previous adoptedAt).insert? (c.row head adoptedAt) = some revisions
      ∧ ∃ evidence,
        insertEvidence s head (head.currentRevision + 1) c.evidence s.evidence = some evidence
      ∧ ∃ moved, (s.moved head revisions evidence).visible.heads.find? (tenantId, id) = some moved
      ∧ (s.moved head revisions evidence).visible.checkAssertionHistory moved = true
      ∧ s.moved head revisions evidence = s' := by
  simp only [RevisedStore.correct, Option.bind_eq_bind, Option.bind_eq_some_iff, Option.pure_def,
    Option.ite_none_right_eq_some, Option.some.injEq]

section Corrected

variable {s : LegacyStore} {a : LegacyAssertionRow} {lower adoptedAt closedAt : Time} {c : Correction}

/-- The first revision of an assertion, closed. -/
def LegacyAssertionRow.closed (a : LegacyAssertionRow) (adoptedAt : Time) : RevisionRow :=
  { a.backfill with systemTime := a.systemTime.closedAt adoptedAt }

/-- The head of an assertion, moved to its second revision. -/
def LegacyAssertionRow.second (a : LegacyAssertionRow) : HeadRow :=
  { a.head with currentRevision := 2 }

/-- Closing a head leaves the other assertions as they are. -/
theorem LegacyStore.mem_closeHead_backfilled (ha : a ∈ s.assertions) {r : RevisionRow} :
    r ∈ closeHead s.backfilled.revisions a.backfill adoptedAt
      ↔ r = a.closed adoptedAt ∨ ∃ b ∈ s.assertions, b ≠ a ∧ r = b.backfill := by
  rw [closeHead, Table.mem_update]
  constructor
  · rintro ⟨q, hq, rfl⟩
    obtain ⟨b, hb, rfl⟩ := s.mem_revisions_backfilled.mp hq
    by_cases hkey : key b.backfill = key a.backfill
    · have hids := Prod.mk.inj hkey
      obtain rfl : b = a :=
        Table.eq_of_key_eq hb ha (Prod.ext hids.1 (Prod.mk.inj hids.2).1)
      left
      rw [if_pos (decide_eq_true hkey)]
      rfl
    · right
      rw [if_neg (by simpa using hkey)]
      exact ⟨b, hb, fun heq => hkey (heq ▸ rfl), rfl⟩
  · have hmem {b : LegacyAssertionRow} (hb : b ∈ s.assertions) : b.backfill ∈ s.backfilled.revisions :=
      s.mem_revisions_backfilled.mpr ⟨b, hb, rfl⟩
    rintro (rfl | ⟨b, hb, hne, rfl⟩)
    · refine ⟨a.backfill, hmem ha, ?_⟩
      rw [if_pos (decide_eq_true rfl)]
      rfl
    · refine ⟨b.backfill, hmem hb, if_neg fun hkey => hne ?_⟩
      have hids := Prod.mk.inj (of_decide_eq_true hkey)
      exact Table.eq_of_key_eq hb ha (Prod.ext hids.1 (Prod.mk.inj hids.2).1)

/-- **A well-formed correction is adopted** at every instant after the assertion began. -/
theorem LegacyStore.adopts_backfilled (ha : a ∈ s.assertions)
    (hchecks : ∀ b ∈ s.assertions, b.backfill.checks = true) (hsystem : a.systemTime = .since lower)
    (hvalid : c.validTime.validCheck = true) (hreason : 1 ≤ c.reason.length ∧ c.reason.length ≤ 256)
    (hlower : lower < adoptedAt) (hclosed : adoptedAt ≤ closedAt) :
    s.backfilled.adopts a.head a.backfill c adoptedAt closedAt = true := by
  have hopen : a.backfill.systemTime = .since lower := hsystem
  have hadopt : (a.backfill.systemTime.upperInf && a.backfill.systemTime.lower?.any fun l =>
      l.value.before (.instant adoptedAt)) = true := by
    rw [hopen]
    simp [TstzRange.since, TstzRange.upperInf, TstzRange.lower?, Timestamptz.before, hlower]
  have hclosable : a.backfill.systemTime.closable (a.backfill.systemTime.closedAt adoptedAt) closedAt
      = true := by
    rw [hopen]
    simp [TstzRange.since, TstzRange.closable, TstzRange.closedAt, TstzRange.upperInf,
      TstzRange.lower?, TstzRange.upper?, Timestamptz.before, hclosed]
  have hrows : (closeHead s.backfilled.revisions a.backfill adoptedAt).rows.all RevisionRow.checks
      = true := by
    refine List.all_eq_true.mpr fun r hr => ?_
    rcases (s.mem_closeHead_backfilled ha).mp hr with rfl | ⟨b, hb, -, rfl⟩
    · obtain ⟨hsystem', hfinite⟩ := TstzRange.closedAt_since hlower
      have hold := hchecks a ha
      simp only [RevisionRow.checks, Bool.and_eq_true] at hold ⊢
      obtain ⟨⟨⟨⟨hshape, -⟩, hstatus⟩, hintent⟩, hreason'⟩ := hold
      refine ⟨⟨⟨⟨hshape, ?_⟩, hstatus⟩, hintent⟩, hreason'⟩
      rw [LegacyAssertionRow.closed, hsystem]
      exact ⟨hsystem', hfinite⟩
    · exact hchecks b hb
  have hnew : (c.row a.head adoptedAt).checks = true := by
    simp [RevisionRow.checks, Correction.row, LegacyAssertionRow.head, hvalid, hreason,
      TstzRange.since, TstzRange.systemCheck, TstzRange.finite, TstzRange.isEmpty, TstzRange.lowerInf,
      TstzRange.lowerInc, TstzRange.upperInc, TstzRange.lower?, TstzRange.upper?,
      Timestamptz.isFinite]
  have hexclusion : (closeHead s.backfilled.revisions a.backfill adoptedAt).rows.all (fun r =>
      decide ((r.tenantId, r.assertionId) ≠ (a.head.tenantId, a.head.id))
        || !r.systemTime.overlaps (c.row a.head adoptedAt).systemTime) = true := by
    refine List.all_eq_true.mpr fun r hr => ?_
    rw [Bool.or_eq_true, decide_eq_true_eq, Bool.not_eq_true']
    rcases (s.mem_closeHead_backfilled ha).mp hr with rfl | ⟨b, hb, hne, rfl⟩
    · right
      exact TstzRange.not_overlaps_since _ _
    · left
      exact fun hkey => hne (Table.eq_of_key_eq hb ha hkey)
  rw [RevisedStore.adopts, hadopt, hclosable, hrows, hnew]
  exact hexclusion

/-- The revisions of an assertion after its correction. -/
theorem LegacyStore.revisionsOf_corrected (ha : a ∈ s.assertions) {revisions : Table RevisionRow}
    {evidence : Table EvidenceRow}
    (hinsert : (closeHead s.backfilled.revisions a.backfill adoptedAt).insert? (c.row a.head adoptedAt)
      = some revisions) :
    (s.backfilled.moved a.head revisions evidence).revisionsOf a.second
      = [c.row a.head adoptedAt, a.closed adoptedAt] := by
  have hrows := (Table.insert?_eq_some_iff.mp hinsert).2
  have hold : (closeHead s.backfilled.revisions a.backfill adoptedAt).rows.filter
      (fun r => decide ((r.tenantId, r.assertionId) = (a.tenantId, a.id))) = [a.closed adoptedAt] := by
    refine List.perm_singleton.mp ((List.perm_ext_iff_of_nodup ((Table.nodup_rows _).filter _)
      (List.nodup_singleton _)).mpr fun r => ?_)
    rw [List.mem_filter, decide_eq_true_eq, List.mem_singleton, Table.mem_rows,
      s.mem_closeHead_backfilled ha]
    constructor
    · rintro ⟨rfl | ⟨b, hb, hne, rfl⟩, hkey⟩
      · rfl
      · exact absurd (Table.eq_of_key_eq hb ha hkey) hne
    · rintro rfl
      exact ⟨Or.inl rfl, rfl⟩
  change revisions.rows.filter _ = _
  rw [hrows, List.filter_cons_of_pos (by exact decide_eq_true rfl)]
  exact congrArg _ hold

/-- **A well-formed correction succeeds** at every instant after the assertion began, when the first
revision has evidence from a live episode. -/
theorem LegacyStore.exists_correct (ha : a ∈ s.assertions) (hlive : s.live a.tenantId a.id = true)
    (hchecks : ∀ b ∈ s.assertions, b.backfill.checks = true) (hsystem : a.systemTime = .since lower)
    (hsupported : s.supported a = true) (hc : c.WellFormed s.backfilled a.head)
    (hlower : lower < adoptedAt) (hclosed : adoptedAt ≤ closedAt) :
    ∃ s', s.backfilled.correct a.tenantId a.id 1 c adoptedAt closedAt = some s' := by
  have hhead : a.head ∈ s.backfilled.heads := s.mem_heads_backfilled.mpr ⟨a, ha, rfl⟩
  have hprevious : a.backfill ∈ s.backfilled.revisions := s.mem_revisions_backfilled.mpr ⟨a, ha, rfl⟩
  obtain ⟨revisions, hrevisions⟩ := Table.exists_insert? (r := c.row a.head adoptedAt)
    (t := closeHead s.backfilled.revisions a.backfill adoptedAt) fun q hq hkey => by
      -- all rows there have revision 1
      have hrevision : q.revision = 1 := by
        rcases (s.mem_closeHead_backfilled ha).mp hq with rfl | ⟨b, -, -, rfl⟩ <;> rfl
      have htwo : q.revision = 2 := (Prod.mk.inj (Prod.mk.inj hkey).2).2
      omega
  obtain ⟨evidence, hevidence, hkept, hadded⟩ := exists_insertEvidence (n := 2)
    (t := s.backfilled.evidence) hc.episodes hc.distinct fun e he p _ hkey => by
      obtain ⟨d, -, rfl⟩ := s.mem_evidence_backfilled.mp he
      have htwo : (1 : Nat) = 2 := (Prod.mk.inj (Prod.mk.inj (Prod.mk.inj hkey).2).2).1
      omega
  have hvisible {e : EvidenceRow} (he : e ∈ evidence)
      (hchild : (e.tenantId, e.childId) = (a.tenantId, a.id))
      (hparent : s.live e.tenantId e.parentId = true) :
      e ∈ (s.backfilled.moved a.head revisions evidence).visible.evidence := by
    have hids := Prod.mk.inj hchild
    refine RevisedStore.mem_visible_evidence.mpr ⟨he, ?_, hparent⟩
    rw [hids.1, hids.2]
    exact hlive
  have hmoved : a.second
      ∈ (s.backfilled.moved a.head revisions evidence).visible.heads :=
    RevisedStore.mem_visible_heads.mpr ⟨mem_advance hhead, hlive⟩
  refine ⟨_, RevisedStore.correct_eq_some.mpr ⟨a.head,
    Table.find?_eq_some_iff.mpr ⟨RevisedStore.mem_visible_heads.mpr ⟨hhead, hlive⟩, rfl⟩, a.backfill,
    Table.find?_eq_some_iff.mpr ⟨RevisedStore.mem_visible_revisions.mpr ⟨hprevious, hlive⟩, rfl⟩,
    ⟨rfl, s.adopts_backfilled ha hchecks hsystem hc.valid hc.reason hlower hclosed⟩,
    revisions, hrevisions, evidence, hevidence, _, Table.find?_eq_some_iff.mpr ⟨hmoved, rfl⟩, ?_, rfl⟩⟩
  have hold : (s.backfilled.moved a.head revisions evidence).visible.evidenced (a.closed adoptedAt)
      = true := by
    obtain ⟨e, he, hchild, hparent⟩ := LegacyStore.supported_iff.mp hsupported
    have hattached : e.attach ∈ s.backfilled.evidence := s.mem_evidence_backfilled.mpr ⟨e, he, rfl⟩
    refine RevisedStore.evidenced_iff.mpr ⟨e.attach, hvisible (hkept _ hattached) hchild hparent, ?_⟩
    have hids := Prod.mk.inj hchild
    exact Prod.ext hids.1 (Prod.ext hids.2 rfl)
  have hnew : (s.backfilled.moved a.head revisions evidence).visible.evidenced (c.row a.head adoptedAt)
      = true := by
    obtain ⟨p, hp⟩ := List.exists_mem_of_ne_nil _ hc.nonempty
    obtain ⟨e, he, hkey⟩ := hadded p hp
    obtain ⟨-, d, -, hid, hdlive, -⟩ := hc.episodes p hp
    obtain ⟨htenant, hrest⟩ := Prod.mk.inj hkey
    obtain ⟨hchild, hrest⟩ := Prod.mk.inj hrest
    obtain ⟨hrevision, hparent⟩ := Prod.mk.inj hrest
    have hids := Prod.mk.inj hid
    refine RevisedStore.evidenced_iff.mpr ⟨e, hvisible he (Prod.ext htenant hchild) ?_,
      Prod.ext htenant (Prod.ext hchild hrevision)⟩
    rw [htenant, hparent, ← hids.1, ← hids.2]
    exact hdlive
  have hcontiguous : [c.row a.head adoptedAt, a.closed adoptedAt].all
      (RevisionRow.contiguous [c.row a.head adoptedAt, a.closed adoptedAt] 2) = true := by
    simp [RevisionRow.contiguous, Correction.row, LegacyAssertionRow.closed, LegacyAssertionRow.head,
      LegacyAssertionRow.backfill, TstzRange.since, TstzRange.closedAt, TstzRange.upperInf,
      TstzRange.upper?, TstzRange.lower?]
  have hrows : (s.backfilled.moved a.head revisions evidence).visible.revisionsOf a.second
      = [c.row a.head adoptedAt, a.closed adoptedAt] :=
    (RevisedStore.revisionsOf_visible (s := s.backfilled.moved a.head revisions evidence)
      (h := a.second) hlive).trans (s.revisionsOf_corrected ha hrevisions)
  have hevidenced : [c.row a.head adoptedAt, a.closed adoptedAt].all
      (s.backfilled.moved a.head revisions evidence).visible.evidenced = true := by
    rw [List.all_cons, hnew, List.all_cons, hold]
    rfl
  rw [RevisedStore.checkAssertionHistory, hrows, hevidenced, Bool.and_true]
  exact Bool.and_eq_true_iff.mpr ⟨rfl, hcontiguous⟩

/-- **A corrected assertion had evidence from a live episode**: the check at the commit sees it. -/
theorem LegacyStore.supported_of_correct (ha : a ∈ s.assertions) {s' : RevisedStore} {n : Nat}
    (h : s.backfilled.correct a.tenantId a.id n c adoptedAt closedAt = some s') :
    s.supported a = true := by
  obtain ⟨head, hhead, previous, hprevious, -, revisions, hrevisions, evidence, hevidence, moved,
    hmoved, hhistory, -⟩ := RevisedStore.correct_eq_some.mp h
  obtain ⟨hhead, hkey⟩ := Table.find?_eq_some_iff.mp hhead
  obtain ⟨hhead, hlive⟩ := RevisedStore.mem_visible_heads.mp hhead
  obtain ⟨b, hb, rfl⟩ := s.mem_heads_backfilled.mp hhead
  obtain rfl : b = a := Table.eq_of_key_eq hb ha hkey
  obtain ⟨hprevious, hpreviousKey⟩ := Table.find?_eq_some_iff.mp hprevious
  obtain ⟨d, hd, rfl⟩ :=
    s.mem_revisions_backfilled.mp (RevisedStore.mem_visible_revisions.mp hprevious).1
  have hids := Prod.mk.inj hpreviousKey
  obtain rfl : d = b := Table.eq_of_key_eq hd hb (Prod.ext hids.1 (Prod.mk.inj hids.2).1)
  obtain ⟨-, hmovedKey⟩ := Table.find?_eq_some_iff.mp hmoved
  have hclosed : d.closed adoptedAt
      ∈ (s.backfilled.moved d.head revisions evidence).visible.revisionsOf moved := by
    refine RevisedStore.mem_revisionsOf.mpr ⟨RevisedStore.mem_visible_revisions.mpr
      ⟨(Table.mem_insert? hrevisions).mpr (Or.inr ?_), hlive⟩, hmovedKey.symm⟩
    exact (s.mem_closeHead_backfilled hd).mpr (Or.inl rfl)
  rw [RevisedStore.checkAssertionHistory, Bool.and_eq_true] at hhistory
  have hevidenced := List.all_eq_true.mp hhistory.2 _ hclosed
  obtain ⟨e, he, hchild⟩ := RevisedStore.evidenced_iff.mp hevidenced
  obtain ⟨he, -, hparent⟩ := RevisedStore.mem_visible_evidence.mp he
  rcases mem_insertEvidence hevidence he with hold | hnew
  · obtain ⟨f, hf, rfl⟩ := s.mem_evidence_backfilled.mp hold
    have hids := Prod.mk.inj hchild
    exact LegacyStore.supported_iff.mpr
      ⟨f, hf, Prod.ext hids.1 (Prod.mk.inj hids.2).1, hparent⟩
  · -- the new evidence is of revision 2
    have hone : e.childRevision = 1 := (Prod.mk.inj (Prod.mk.inj hchild).2).2
    have htwo : e.childRevision = 2 := hnew
    omega

end Corrected

/-- **Every live assertion can be corrected**: it has a well-formed correction, and every one of them
succeeds from some instant on. -/
def RevisedStore.Correctable (s : RevisedStore) : Prop :=
  ∀ h ∈ s.heads, s.live h.tenantId h.id = true →
    (∃ c, Correction.WellFormed s h c) ∧ ∀ c, Correction.WellFormed s h c →
      ∃ start, ∀ adoptedAt closedAt, start < adoptedAt → adoptedAt ≤ closedAt →
        ∃ s', s.correct h.tenantId h.id 1 c adoptedAt closedAt = some s'

/-- A live assertion with evidence from a live episode has a well-formed correction, from that episode. -/
theorem LegacyStore.exists_wellFormed {s : LegacyStore} (hs : s.Valid) {a : LegacyAssertionRow}
    (ha : a ∈ s.assertions) (hsupported : s.supported a = true) :
    ∃ c, Correction.WellFormed s.backfilled a.head c := by
  obtain ⟨e, he, hchild, hparent⟩ := LegacyStore.supported_iff.mp hsupported
  obtain ⟨b, hb, hbkey⟩ := hs.edge_child.exists_parent he rfl
  obtain ⟨episode, hepisode, hkey⟩ := hs.edge_parent.exists_parent he rfl
  obtain ⟨hbtenant, hbrest⟩ := Prod.mk.inj hbkey
  obtain ⟨hbid, hbscope⟩ := Prod.mk.inj hbrest
  obtain ⟨htenant, hrest⟩ := Prod.mk.inj hkey
  obtain ⟨hid, hscope⟩ := Prod.mk.inj hrest
  have hids := Prod.mk.inj hchild
  obtain rfl : b = a := Table.eq_of_key_eq hb ha
    (Prod.ext (hbtenant.trans hids.1) (hbid.trans hids.2))
  have hchecks := hs.assertions b hb
  simp only [LegacyAssertionRow.checks, Bool.and_eq_true] at hchecks
  refine ⟨⟨b.value, b.validTime, "-", [(e.parentId, e.quote)]⟩, hchecks.1.1.1,
    (by decide : 1 ≤ "-".length ∧ "-".length ≤ 256), List.cons_ne_nil _ _, List.nodup_singleton _, ?_⟩
  intro p hp
  obtain rfl := List.mem_singleton.mp hp
  refine ⟨hs.quotes e he, episode, hepisode, Prod.ext (htenant.trans hids.1) hid, ?_,
    hscope.trans hbscope.symm⟩
  rw [htenant, hid]
  exact hparent

/-- **A migrated store is correctable** when every assertion is open, and every live one has evidence from
a live episode. -/
theorem LegacyStore.correctable_backfilled {s : LegacyStore} (hs : s.Valid)
    (hchecks : ∀ a ∈ s.assertions, a.backfill.checks = true)
    (hopen : ∀ a ∈ s.assertions, a.systemTime.upperInf = true) :
    s.backfilled.Correctable
      ↔ ∀ a ∈ s.assertions, s.live a.tenantId a.id = true → s.supported a = true := by
  constructor
  · intro hcorrectable a ha hlive
    obtain ⟨⟨c, hc⟩, hall⟩ := hcorrectable a.head (s.mem_heads_backfilled.mpr ⟨a, ha, rfl⟩) hlive
    obtain ⟨start, hstart⟩ := hall c hc
    obtain ⟨s', hcorrect⟩ := hstart (start + 1) (start + 1) (Int.lt_succ start) (Int.le_refl _)
    exact s.supported_of_correct ha hcorrect
  · intro hsupported h hh hlive
    obtain ⟨a, ha, rfl⟩ := s.mem_heads_backfilled.mp hh
    refine ⟨s.exists_wellFormed hs ha (hsupported a ha hlive), fun c hc => ?_⟩
    have hrow := hchecks a ha
    simp only [RevisionRow.checks, Bool.and_eq_true] at hrow
    obtain ⟨lower, hsystem⟩ : ∃ t, a.systemTime = .since t :=
      TstzRange.eq_since hrow.1.1.1.2.1 hrow.1.1.1.2.2 (hopen a ha)
    exact ⟨lower, fun _ _ hlower hclosed =>
      s.exists_correct ha hlive hchecks hsystem (hsupported a ha hlive) hc hlower hclosed⟩

/-! ## The migration -/

/-- **A safe migration** leaves the database as it was, or keeps every assertion as a first revision in a
lawful store whose live assertions can be corrected. -/
def LegacyStore.MigratesSafely (exempt : Bool) (s : LegacyStore) : Prop :=
  Database.migrate exempt (.legacy s) = .legacy s
    ∨ ∃ s', Database.migrate exempt (.legacy s) = .revised s' ∧ Preserves s s' ∧ s'.Lawful
      ∧ s'.Correctable

/-- **When the migration is safe**: the script aborts, or every assertion is open in system time and every
live one has evidence from a live episode. -/
theorem migratesSafely_iff (exempt : Bool) (s : LegacyStore) (hs : s.Valid) :
    s.MigratesSafely exempt ↔ exempt = false
      ∨ (∃ a ∈ s.assertions, a.systemTime.finite = false ∨ s.evidenced a = false)
      ∨ ∀ a ∈ s.assertions, a.systemTime.upperInf = true
        ∧ (s.live a.tenantId a.id = true → s.supported a = true) := by
  cases hmigrate : s.migrate exempt with
  | error fault =>
    -- an abort changes nothing, and has one of the two reasons
    have hsame : Database.migrate exempt (.legacy s) = .legacy s := by
      rw [Database.migrate, hmigrate]
    refine iff_of_true (Or.inl hsame) ?_
    by_contra hnone
    push Not at hnone
    obtain ⟨hexempt, hrows, -⟩ := hnone
    have hok : s.migrate exempt = .ok s.backfilled := by
      refine LegacyStore.migrate_eq_ok.mpr ⟨by simpa using hexempt, fun a ha => ?_, fun a ha => ?_, rfl⟩
      · rw [a.checks_backfill (hs.assertions a ha)]
        exact eq_true_of_ne_false (hrows a ha).1
      · exact eq_true_of_ne_false (hrows a ha).2
    rw [hmigrate] at hok
    cases hok
  | ok s' =>
    obtain ⟨hexempt, hchecks, hevidenced, rfl⟩ := LegacyStore.migrate_eq_ok.mp hmigrate
    have hrevised : Database.migrate exempt (.legacy s) = .revised s.backfilled := by
      rw [Database.migrate, hmigrate]
    have hnotAborted : ¬ ∃ a ∈ s.assertions, a.systemTime.finite = false ∨ s.evidenced a = false := by
      rintro ⟨a, ha, hfinite | hevidence⟩
      · have hcheck := hchecks a ha
        rw [a.checks_backfill (hs.assertions a ha), hfinite] at hcheck
        cases hcheck
      · rw [hevidenced a ha] at hevidence
        cases hevidence
    have hsafe : s.MigratesSafely exempt ↔ s.backfilled.Lawful ∧ s.backfilled.Correctable := by
      rw [LegacyStore.MigratesSafely, hrevised]
      constructor
      · rintro (heq | ⟨s', heq, -, hlawful, hcorrectable⟩)
        · cases heq
        · cases heq
          exact ⟨hlawful, hcorrectable⟩
      · rintro ⟨hlawful, hcorrectable⟩
        exact Or.inr ⟨_, rfl, s.preserves, hlawful, hcorrectable⟩
    rw [hsafe, s.lawful_backfilled hevidenced]
    constructor
    · rintro ⟨hopen, hcorrectable⟩
      exact Or.inr (Or.inr fun a ha => ⟨hopen a ha,
        (s.correctable_backfilled hs hchecks hopen).mp hcorrectable a ha⟩)
    · rintro (hfalse | haborted | hgood)
      · rw [hexempt] at hfalse
        cases hfalse
      · exact absurd haborted hnotAborted
      · have hopen : ∀ a ∈ s.assertions, a.systemTime.upperInf = true := fun a ha => (hgood a ha).1
        exact ⟨hopen, (s.correctable_backfilled hs hchecks hopen).mpr fun a ha => (hgood a ha).2⟩

/-- A store of the first schema with one assertion, quoted from one episode. -/
def LegacyStore.single (systemTime : TstzRange) : LegacyStore where
  objects := ⟨[⟨1, 7, 2, .episode⟩, ⟨1, 8, 2, .assertion⟩], by decide⟩
  tombstones := ∅
  episodes := ⟨[⟨1, 7, 2, "tea"⟩], by decide⟩
  assertions := ⟨[⟨1, 8, 2, "user", "likes", "tea", .between none none, systemTime, "reported", true⟩],
    List.nodup_singleton _⟩
  edges := ⟨[⟨1, 8, 7, 2, "tea"⟩], by decide⟩

/-- The store is legal when its system time is. -/
theorem LegacyStore.valid_single {r : TstzRange} (h : r.systemCheck = true) : (single r).Valid where
  tombstone_object := Table.references_empty
  episode_object := List.forall_mem_singleton.mpr fun _ hk =>
    ⟨_, List.mem_cons_self, Option.some.inj hk⟩
  assertion_object := List.forall_mem_singleton.mpr fun _ hk =>
    ⟨_, List.mem_cons_of_mem _ List.mem_cons_self, Option.some.inj hk⟩
  edge_child := List.forall_mem_singleton.mpr fun _ hk => ⟨_, List.mem_cons_self, Option.some.inj hk⟩
  edge_parent := List.forall_mem_singleton.mpr fun _ hk => ⟨_, List.mem_cons_self, Option.some.inj hk⟩
  assertions := List.forall_mem_singleton.mpr (by
    simp [LegacyAssertionRow.checks, TstzRange.validCheck, TstzRange.isEmpty, TstzRange.lowerInf,
      TstzRange.upperInc, TstzRange.upper?, h])
  quotes := List.forall_mem_singleton.mpr (by decide)

/-- An open assertion migrates safely. -/
theorem migratesSafely_iff_since : (LegacyStore.single (.since 100)).MigratesSafely true :=
  (migratesSafely_iff true (.single (.since 100)) (LegacyStore.valid_single (by decide))).mpr
    (Or.inr (Or.inr (List.forall_mem_singleton.mpr ⟨rfl, fun _ => by decide⟩)))

/-- The system time of an assertion that is no longer current. -/
def TstzRange.century : TstzRange :=
  .between (some ⟨.instant 100, true⟩) (some ⟨.instant 200, false⟩)

/-- **An assertion that is closed in system time** is legal in the first schema, and is migrated to a store
that breaks the law of histories. -/
theorem not_migratesSafely_closed : (LegacyStore.single .century).Valid
    ∧ ¬ (LegacyStore.single .century).MigratesSafely true := by
  refine ⟨LegacyStore.valid_single (by decide), ?_⟩
  have hok : (LegacyStore.single .century).migrate true
      = .ok (LegacyStore.single .century).backfilled :=
    LegacyStore.migrate_eq_ok.mpr ⟨rfl, List.forall_mem_singleton.mpr (by decide),
      List.forall_mem_singleton.mpr (by decide), rfl⟩
  rw [LegacyStore.MigratesSafely, Database.migrate, hok]
  rintro (heq | ⟨s', heq, -, hlawful, -⟩)
  · cases heq
  · cases heq
    have hcheck := hlawful _ List.mem_cons_self
    revert hcheck
    decide

end PgAgmemory

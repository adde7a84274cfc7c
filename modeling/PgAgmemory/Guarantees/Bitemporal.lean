import PgAgmemory.History.Revisions

/-! # Bitemporal history

In every reachable store the revisions of an assertion are numbered from one to the current one, their
system times follow each other without a gap, and from the first on exactly one of them is in force at
any instant. A correction that does not name the current revision, or names the last one allowed,
leaves the store as it is. -/

namespace PgAgmemory

open Interactive.Program (ReadOnly)
open MemoryService
open Versions (Chain)

/-! ## Stale corrections -/

/-- **A stale correction**: the assertion has another current revision, or no successor is allowed. -/
def Stale (s : Store) (objectId : UUID) (expected : Nat) : Prop :=
  ∀ a ∈ s.contents.assertions, a.id = objectId → a.currentRevision ≠ expected ∨ expected = 1000

section Stale

variable {c : Setting} {n : Nat} {σ : Session} {objectId : UUID}

/-- The head that a correction finds. -/
theorem Stale.not_head {expected : Nat} (h : Stale σ.store objectId expected) {head : AssertionRow}
    {m : Moment} {q : AssertionRow → Bool}
    (hhead : ((σ.view m).assertion? objectId).filter q = some head)
    (hcurrent : head.currentRevision = expected) : expected = 1000 := by
  obtain ⟨hvisible, -⟩ := Option.filter_eq_some_iff.mp hhead
  obtain ⟨hfind, -⟩ := Option.filter_eq_some_iff.mp hvisible
  obtain ⟨hmem, hid⟩ := Keyed.Table.find?_eq_some_iff.mp hfind
  exact (h head hmem hid).resolve_left fun hne => hne hcurrent

/-- A stale correction of an assertion only reads. -/
theorem does_reviseAssertion_stale (h : Underway c σ) {data : ReviseAssertion}
    (hstale : Stale σ.store objectId data.expectedRevision.val) (key : String) :
    Does c (reviseAssertion c.platform objectId data key) (fun _ σ' => σ' = σ) n σ := by
  refine does_object_bind h fun o n₀ _ _ _ => does_demand fun _ => ?_
  refine does_once h (fun result n₁ _ => does_pure rfl) fun n₁ => ?_
  refine does_read (does_found fun head hhead => does_demand fun _ => does_demand fun hexpected =>
    does_demand fun hlimit => ?_)
  exact absurd (hstale.not_head hhead (of_decide_eq_true hexpected)) (of_decide_eq_true hlimit)

/-- A stale correction of a relation only reads. -/
theorem does_reviseRelation_stale (h : Underway c σ) {data : ReviseRelation}
    (hstale : Stale σ.store objectId data.expectedRevision.val) (key : String) :
    Does c (SqlGraph.reviseRelation c.platform objectId data key) (fun _ σ' => σ' = σ) n σ := by
  refine does_object_bind h fun o n₀ _ _ _ => does_read (does_found fun head hhead => ?_)
  refine does_once h (fun result n₁ _ => does_pure rfl) fun n₁ => ?_
  refine does_demand fun hexpected => does_demand fun hlimit => ?_
  exact absurd (hstale.not_head hhead (of_decide_eq_true hexpected).symm) (of_decide_eq_true hlimit)

end Stale

/-! ## The guarantee -/

/-- The request is a correction of an assertion or of a relation that expects a revision. -/
inductive Request.Revises : Request → UUID → Nat → Prop where
  | assertion (objectId : UUID) (data : ReviseAssertion) (key : String) :
    Revises (.reviseAssertion objectId data key) objectId data.expectedRevision.val
  | relation (assertionId : UUID) (data : ReviseRelation) (key : String) :
    Revises (.reviseRelation assertionId data key) assertionId data.expectedRevision.val

/-- **A stale correction changes nothing.** -/
theorem Request.Revises.exec_stale {platform : Platform} {call : Call} {s : Store} (hs : Sound s)
    {objectId : UUID} {expected : Nat} (h : call.request.Revises objectId expected)
    (hstale : Stale s objectId expected) : (call.exec platform s).2 = s := by
  obtain ⟨principal, timeline, request⟩ := call
  have hstart : Underway (Call.setting platform ⟨principal, timeline, request⟩ s)
      (.start principal s) := .start (c := Call.setting platform _ s) hs.integrity.foreign principal
  have hdoes : Does (Call.setting platform ⟨principal, timeline, request⟩ s)
      (request.program platform) (fun _ σ' => σ' = .start principal s) 0 (.start principal s) := by
    refine does_readOnly_bind readOnly_bindIdentity fun _ n₀ => ?_
    cases h with
    | assertion objectId data key =>
      exact (does_respond (does_reviseAssertion_stale hstart hstale key)).mono fun _ _ _ hpost =>
        hpost.elim fun _ heq => heq.2
    | relation assertionId data key =>
      exact (does_respond (does_reviseRelation_stale hstart hstale key)).mono fun _ _ _ hpost =>
        hpost.elim fun _ heq => heq.2
  rw [Call.exec, transact]
  split
  next a s' hok =>
    obtain ⟨n, σ, hrun, hcommit⟩ := attempt_eq_ok.mp hok
    obtain ⟨-, heq⟩ := hdoes.of_run hrun
    rw [← (commit_eq_ok.mp hcommit).2, heq]
    rfl
  next => rfl

/-- **The history of an assertion**, as its readers see it: the revisions 1 to `n`, at most a thousand,
consecutive in system time, of which only the last is open. -/
structure History (s : Store) (a : AssertionRow) : Prop where
  numbered : ∀ k, (∃ r ∈ s.contents.revisions, r.assertionId = a.id ∧ r.revision = k)
    ↔ 1 ≤ k ∧ k ≤ a.currentRevision
  bounded : a.currentRevision ≤ 1000
  unique : ∀ r ∈ s.contents.revisionsOf a.id, ∀ r' ∈ s.contents.revisionsOf a.id,
    r.revision = r'.revision → r = r'
  contiguous : ∀ r ∈ s.contents.revisionsOf a.id, ∀ r' ∈ s.contents.revisionsOf a.id,
    r'.revision = r.revision + 1 → r.systemTo = some r'.systemFrom
  increasing : ∀ r ∈ s.contents.revisionsOf a.id, ∀ r' ∈ s.contents.revisionsOf a.id,
    r.revision < r'.revision → r.systemFrom < r'.systemFrom
  nonempty : ∀ r ∈ s.contents.revisionsOf a.id, ∀ t, r.systemTo = some t → r.systemFrom < t
  disjoint : ∀ r ∈ s.contents.revisionsOf a.id, ∀ r' ∈ s.contents.revisionsOf a.id, ∀ t,
    r.systemTime.contains t = true → r'.systemTime.contains t = true → r = r'
  openHead : ∀ r ∈ s.contents.revisionsOf a.id, r.systemTo = none ↔ r.revision = a.currentRevision
  inForce : ∀ r ∈ s.contents.revisionsOf a.id, r.revision = 1 → ∀ knownAt, r.systemFrom ≤ knownAt →
    ∃! r', r' ∈ s.contents.revisionsOf a.id ∧ r'.systemTime.contains knownAt = true

/-- A chain of revisions is a history. -/
theorem Contents.Historied.history {s : Store} {a : AssertionRow} (h : s.contents.Historied a) :
    History s a where
  numbered k := by
    rw [← h.chain.numbered k]
    exact exists_congr fun r => and_assoc.symm
  bounded := h.bounded
  unique := h.chain.unique
  contiguous := h.chain.next
  increasing r hr r' hr' hlt := h.chain.start_lt hr hr' hlt
  nonempty := h.chain.nonempty
  disjoint r hr r' hr' t ht ht' := h.chain.disjoint hr hr' (inForce_iff.mpr ht) (inForce_iff.mpr ht')
  openHead := h.chain.last
  inForce r hr hone knownAt hknown := by
    simp only [← inForce_iff]
    exact h.chain.existsUnique hr hone hknown

/-- **Bitemporal history**: every assertion of a reachable store has a history, and a stale correction
changes nothing. -/
theorem bitemporal_history {platform : Platform} {s : Store} (h : Reachable platform s) :
    (∀ a ∈ s.contents.assertions, History s a)
      ∧ ∀ (call : Call) (objectId : UUID) (expected : Nat), call.request.Revises objectId expected →
        Stale s objectId expected → (call.exec platform s).2 = s :=
  ⟨fun _ ha => (h.historied ha).history, fun _ _ _ hrevises hstale =>
    hrevises.exec_stale h.sound hstale⟩

/-- The small tenant after a correction. -/
def Store.corrected : Store :=
  Event.exec .plain (.call ⟨1, .ticking 400 500, .reviseAssertion 309 .brief "key"⟩) .remembered

/-- The history of the corrected assertion: two revisions, and the same correction under another key
is stale. -/
theorem bitemporal_history_corrected :
    Store.corrected.contents.assertions.rows.map AssertionRow.currentRevision = [2]
      ∧ (∀ a ∈ Store.corrected.contents.assertions, History .corrected a)
      ∧ (Call.exec .plain ⟨1, .ticking 600 700, .reviseAssertion 309 .brief "later"⟩ .corrected).2
        = .corrected := by
  obtain ⟨hhistory, hstale⟩ := bitemporal_history (s := .corrected) (.event _ reachable_remembered)
  have hcurrent : Store.corrected.contents.assertions.rows.map AssertionRow.currentRevision = [2] := by
    decide +kernel
  refine ⟨hcurrent, hhistory, hstale _ 309 1 (.assertion 309 .brief "later") fun a ha _ => ?_⟩
  have hmem := List.mem_map_of_mem (f := AssertionRow.currentRevision) (Keyed.Table.mem_rows.mpr ha)
  rw [hcurrent, List.mem_singleton] at hmem
  rw [hmem]
  decide

end PgAgmemory

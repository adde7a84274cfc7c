import PgAgmemory.System.Runs

/-! # Integrity

Every reachable store meets every constraint of the schema: each statement checks the immediate ones,
each commit the deferred ones, and a change of access touches none of the tables they speak about.

The rules for transactions are stated here once: what every allowed statement of a session preserves
holds of the session that a successful transaction commits (`attempt_invariant`). -/

namespace PgAgmemory

open Interactive (Program)
open Interactive.Program (Ensures)

section Transactions

variable {platform : Platform} {timeline : Timeline} {principal : UUID} {α : Type} {p : Tx α}

/-- The session that a transaction starts with. -/
def Session.start (principal : UUID) (s : Store) : Session := ⟨principal, s, []⟩

/-- An attempt succeeds when the run succeeds and the commit does. -/
theorem attempt_eq_ok {s s' : Store} {a : α} :
    attempt platform timeline principal p s = .ok (a, s') ↔
      ∃ n session, runFrom platform timeline p 0 (.start principal s) = .ok (a, n, session)
        ∧ commit (timeline.moment n) session = .ok s' := by
  simp only [attempt, bind_eq_ok]
  constructor
  · rintro ⟨⟨b, n, session⟩, hrun, t, hcommit, hpure⟩
    cases hpure
    exact ⟨n, session, hrun, hcommit⟩
  · rintro ⟨n, session, hrun, hcommit⟩
    exact ⟨(a, n, session), hrun, s', hcommit, rfl⟩

/-- The store after a transaction is the old one or a committed one. -/
theorem transact_cases (s : Store) :
    (∃ fault, transact platform timeline principal p s = (.error fault, s)) ∨
      ∃ a s', attempt platform timeline principal p s = .ok (a, s')
        ∧ transact platform timeline principal p s = (.ok a, s') := by
  unfold transact
  cases h : attempt platform timeline principal p s with
  | error fault => exact Or.inl ⟨fault, rfl⟩
  | ok result => exact Or.inr ⟨result.1, result.2, rfl, rfl⟩

/-- **Transaction rule**: a committed store comes from a session that has what every allowed
statement preserves. -/
theorem attempt_invariant {allow : Session → Statement → Prop} {Q : α → Nat → Session → Prop}
    {I : Nat → Session → Prop} {s s' : Store} {a : α}
    (hread : ∀ n session, I n session → I (n + 1) session)
    (hstep : ∀ statement n session r session', I n session → allow session statement →
      step platform statement (timeline.moment n) session = .ok (r, session') →
        I (n + 1) session')
    (hensures : Ensures (step platform) timeline.moment allow p Q 0 (.start principal s))
    (hstart : I 0 (.start principal s))
    (h : attempt platform timeline principal p s = .ok (a, s')) :
    ∃ n session, session.store = s' ∧ Q a n session ∧ I n session
      ∧ commit (timeline.moment n) session = .ok s' := by
  obtain ⟨n, session, hrun, hcommit⟩ := attempt_eq_ok.mp h
  obtain ⟨hQ, hI⟩ := hensures.run_invariant hread hstep hstart hrun
  exact ⟨n, session, (commit_eq_ok.mp hcommit).2, hQ, hI, hcommit⟩

end Transactions

/-! ## Constraints -/

/-- **Every constraint of the schema.** -/
structure Integrity (s : Store) : Prop where
  foreign : ForeignKeys s
  unique : UniqueKeys s
  deferred : DeferredKeys s

/-- A provisioned store meets every constraint. -/
theorem integrity_provisioned (access : Access) : Integrity (.provisioned access) :=
  ⟨foreignKeys_provisioned access, uniqueKeys_provisioned access, deferredKeys_provisioned access⟩

/-- Constraints do not depend on the access tables. -/
theorem ForeignKeys.with_access {s : Store} (h : ForeignKeys s) (access : Access) :
    ForeignKeys { s with access := access } := by
  obtain ⟨hcontent, hgraph, hcheckpoint, hledger, hqueue⟩ := h
  refine ⟨?_, ?_, ?_, ?_, ?_⟩
  · cases hcontent
    constructor <;> assumption
  · cases hgraph
    constructor <;> assumption
  · cases hcheckpoint
    constructor <;> assumption
  · cases hledger
    constructor <;> assumption
  · cases hqueue
    constructor <;> assumption

/-- The constraints do not mention the access. -/
theorem Integrity.with_access {s : Store} (h : Integrity s) (access : Access) :
    Integrity { s with access := access } := by
  obtain ⟨hforeign, hunique, hdeferred⟩ := h
  refine ⟨hforeign.with_access access, ?_, ?_⟩
  · cases hunique
    constructor <;> assumption
  · cases hdeferred
    constructor <;> assumption

/-- A change of access writes the access tables only. -/
theorem ScopeAccessRequest.run_eq_ok {request : ScopeAccessRequest} {now recordedAt : Time}
    {s s' : Store} {result : ScopeAccessResult}
    (h : request.run now recordedAt s = .ok (result, s')) :
    ∃ access, s' = { s with access := access } := by
  unfold run at h
  split at h
  · cases h
  split at h
  · cases h
  simp only [bind_eq_ok] at h
  obtain ⟨before, -, ⟨after, changed⟩, -, h⟩ := h
  split at h
  · obtain ⟨access, -, hpure⟩ := bind_eq_ok.mp h
    cases hpure
    exact ⟨access, rfl⟩
  · cases h
    exact ⟨s.access, rfl⟩

/-- The store after a change of access. -/
theorem Event.exec_access (platform : Platform) (request : ScopeAccessRequest)
    (now recordedAt : Time) (s : Store) :
    ∃ access, Event.exec platform (.access request now recordedAt) s = { s with access := access } := by
  simp only [Event.exec]
  split
  next result s' h => exact ScopeAccessRequest.run_eq_ok h
  next => exact ⟨s.access, rfl⟩

/-- **A transaction keeps every constraint**, whatever its program. -/
theorem Integrity.attempt {platform : Platform} {timeline : Timeline} {principal : UUID} {α : Type}
    {p : Tx α} {s s' : Store} {a : α} (hs : Integrity s)
    (h : attempt platform timeline principal p s = .ok (a, s')) : Integrity s' := by
  have hstep : ∀ statement n (session : Session) r session',
      (ForeignKeys session.store ∧ UniqueKeys session.store) → True →
      step platform statement (timeline.moment n) session = .ok (r, session') →
        ForeignKeys session'.store ∧ UniqueKeys session'.store :=
    fun statement n session r session' _ _ hrun => (step_eq_ok.mp hrun).2.2.1
  obtain ⟨n, session, rfl, -, ⟨hforeign, hunique⟩, hcommit⟩ :=
    attempt_invariant (I := fun _ session => ForeignKeys session.store ∧ UniqueKeys session.store)
      (fun _ _ h => h) hstep (Program.ensures_true p 0 _) ⟨hs.foreign, hs.unique⟩ h
  exact ⟨hforeign, hunique, (commit_eq_ok.mp hcommit).1.2⟩

/-- A call leaves the store or commits. -/
theorem Call.exec_cases (platform : Platform) (c : Call) (s : Store) :
    (∃ fault, c.exec platform s = (.error fault, s)) ∨
      ∃ response s', PgAgmemory.attempt platform c.timeline c.principal (c.request.program platform) s
          = .ok (response, s') ∧ c.exec platform s = (.ok response, s') :=
  transact_cases s

/-- **Event rule**: what every committed call and every change of access preserves is preserved by
every event. -/
theorem Event.preserves {platform : Platform} {I : Store → Prop}
    (hcall : ∀ (c : Call) s response s', I s →
      attempt platform c.timeline c.principal (c.request.program platform) s = .ok (response, s') →
        I s')
    (haccess : ∀ s access, I s → I { s with access := access })
    (e : Event) {s : Store} (hs : I s) : I (e.exec platform s) := by
  cases e with
  | call c =>
    change I (c.exec platform s).2
    rcases c.exec_cases platform s with ⟨fault, h⟩ | ⟨response, s', hok, h⟩
    · rw [h]
      exact hs
    · rw [h]
      exact hcall c s response s' hs hok
  | access request now recordedAt =>
    obtain ⟨access, h⟩ := Event.exec_access platform request now recordedAt s
    rw [h]
    exact haccess s access hs

/-- **Every reachable store meets every constraint of the schema.** -/
theorem Reachable.integrity {platform : Platform} {s : Store} (h : Reachable platform s) :
    Integrity s := by
  induction h with
  | provisioned access => exact integrity_provisioned access
  | event e _ ih =>
    exact Event.preserves (fun c s _ _ hs hok => hs.attempt hok)
      (fun s access hs => hs.with_access access) e ih

end PgAgmemory

import PgAgmemory.System.Integrity
import PgAgmemory.System.Outcomes

/-! # Calls

What the outcome of a request's program says about the call: a response comes from a finished run,
and a reading request of a known principal ends as its program does. -/

namespace PgAgmemory

open Interactive (Program)
open Interactive.Program (ReadOnly run_bind run_map)

variable {platform : Platform} {c : Call} {s : Store}

/-- **A response comes from a finished run** of the request, which leaves the store of the call. -/
theorem Call.exec_returns {r : Response} {Q : Response → Nat → Session → Prop} {F : Fault → Prop}
    (h : (c.exec platform s).1 = .ok r)
    (houtcome : Outcome platform c.timeline (c.request.program platform) Q F 0
      (.start c.principal s)) :
    ∃ m σ, Q r m σ ∧ σ.store = (c.exec platform s).2 := by
  rcases c.exec_cases platform s with ⟨fault, hexec⟩ | ⟨response, s', hok, hexec⟩
  · rw [hexec] at h
    cases h
  rw [hexec] at h ⊢
  cases h
  obtain ⟨n, σ, hrun, hcommit⟩ := attempt_eq_ok.mp hok
  exact ⟨n, σ, houtcome.of_run hrun, (commit_eq_ok.mp hcommit).2⟩

/-- Identification uses one moment. -/
theorem outcome_bindIdentity {timeline : Timeline} {n : Nat} {σ : Session} :
    Outcome platform timeline MemoryService.bindIdentity (fun _ m σ' => m = n + 1 ∧ σ' = σ)
      (fun _ => True) n σ := by
  refine outcome_read ?_
  change Outcome platform timeline
    (demand (σ.store.access.principals.find? σ.principal).isSome .unauthenticated) _ _ _ _
  cases (σ.store.access.principals.find? σ.principal).isSome with
  | true => exact ⟨rfl, rfl⟩
  | false => trivial

/-- Identification succeeds for a known principal, and uses one moment. -/
theorem outcome_bindIdentity_known {timeline : Timeline} {n : Nat} {σ : Session}
    (hknown : (σ.store.access.principals.find? σ.principal).isSome = true) :
    Outcome platform timeline MemoryService.bindIdentity (fun _ m σ' => m = n + 1 ∧ σ' = σ)
      (fun _ => False) n σ := by
  refine outcome_read ?_
  change Outcome platform timeline
    (demand (σ.store.access.principals.find? σ.principal).isSome .unauthenticated) _ _ _ _
  rw [hknown]
  exact ⟨rfl, rfl⟩

/-- **A reading transaction of a known principal ends as its program does**, and changes nothing. -/
theorem transact_reading {α : Type} {timeline : Timeline} {principal : UUID} {p : Tx α}
    (hp : ReadOnly p) (hkeys : DeferredKeys s)
    (hknown : (s.access.principals.find? principal).isSome = true) {Q : α → Prop} {F : Fault → Prop}
    (houtcome : Outcome platform timeline p (fun a _ _ => Q a) F 1 (.start principal s)) :
    (∃ a, transact platform timeline principal (MemoryService.bindIdentity >>= fun _ => p) s
        = (.ok a, s) ∧ Q a)
      ∨ ∃ fault, transact platform timeline principal (MemoryService.bindIdentity >>= fun _ => p) s
        = (.error fault, s) ∧ F fault := by
  have hprogram : Outcome platform timeline (MemoryService.bindIdentity >>= fun _ => p)
      (fun a _ σ' => σ' = .start principal s ∧ Q a) F 0 (.start principal s) := by
    refine outcome_bind ((outcome_bindIdentity_known hknown).mono (fun _ _ _ _ h => h)
      fun _ => False.elim) ?_
    rintro - m σ' - ⟨rfl, rfl⟩
    exact houtcome.reading hp
  unfold transact
  cases hrun : runFrom platform timeline (MemoryService.bindIdentity >>= fun _ => p) 0
      (.start principal s) with
  | error fault =>
    have hattempt : attempt platform timeline principal (MemoryService.bindIdentity >>= fun _ =>
      p) s
        = .error fault := by
      unfold PgAgmemory.attempt
      unfold Session.start at hrun
      rw [hrun]
      rfl
    rw [hattempt]
    exact Or.inr ⟨fault, rfl, hprogram.of_error hrun⟩
  | ok result =>
    obtain ⟨a, n, σ⟩ := result
    obtain ⟨rfl, hQ⟩ := hprogram.of_run hrun
    have hattempt : attempt platform timeline principal (MemoryService.bindIdentity >>= fun _ =>
      p) s
        = .ok (a, s) :=
      attempt_eq_ok.mpr ⟨n, _, hrun, commit_eq_ok.mpr ⟨⟨rfl, hkeys⟩, rfl⟩⟩
    rw [hattempt]
    exact Or.inl ⟨a, rfl, hQ⟩

/-- **A reading request of a known principal ends as its program does**: with what it returns or
with its fault. -/
theorem Call.exec_reading {α : Type} {wrap : α → Response} {p : Tx α} (hp : ReadOnly p)
    (hbody : c.request.body platform = respond wrap p) (hkeys : DeferredKeys s)
    (hknown : (s.access.principals.find? c.principal).isSome = true)
    {Q : α → Prop} {F : Fault → Prop}
    (houtcome : Outcome platform c.timeline p (fun a _ _ => Q a) F 1 (.start c.principal s)) :
    (∃ a, (c.exec platform s).1 = .ok (wrap a) ∧ Q a)
      ∨ ∃ fault, (c.exec platform s).1 = .error fault ∧ F fault := by
  have hrespond : Outcome platform c.timeline (respond wrap p)
      (fun r _ _ => ∃ a, r = wrap a ∧ Q a) F 1 (.start c.principal s) := by
    refine outcome_bind houtcome ?_
    rintro a m σ' - hQ
    exact outcome_pure ⟨a, rfl, hQ⟩
  have hreads : ReadOnly (respond wrap p) := hp.bind fun _ => trivial
  have hcases : c.exec platform s = transact platform c.timeline c.principal
      (MemoryService.bindIdentity >>= fun _ => respond wrap p) s := by
    rw [← hbody]
    rfl
  rw [hcases]
  rcases transact_reading hreads hkeys hknown hrespond with ⟨r, heq, a, rfl, hQ⟩ | ⟨fault, heq, hF⟩
  · rw [heq]
    exact Or.inl ⟨a, rfl, hQ⟩
  · rw [heq]
    exact Or.inr ⟨fault, rfl, hF⟩

/-- **An answer comes from a finished run** of the body of the request. -/
theorem Call.answered {α : Type} {wrap : α → Response} {p : Tx α}
    (hbody : c.request.body platform = respond wrap p) {a : α} {Q : α → Prop} {F : Fault → Prop}
    (hwrap : ∀ b, wrap b = wrap a → b = a) (h : (c.exec platform s).1 = .ok (wrap a))
    (houtcome : Outcome platform c.timeline p (fun a _ _ => Q a) F 1 (.start c.principal s)) :
    Q a := by
  have hprogram : Outcome platform c.timeline (c.request.program platform)
      (fun r _ _ => r = wrap a → Q a) (fun _ => True) 0 (.start c.principal s) := by
    unfold Request.program
    rw [hbody]
    refine outcome_bind outcome_bindIdentity ?_
    rintro - m σ' - ⟨rfl, rfl⟩
    refine outcome_bind (houtcome.mono (fun _ _ _ _ h => h) fun _ _ => trivial) ?_
    rintro b m σ' - hQ
    refine outcome_pure fun heq => ?_
    rw [← hwrap b heq]
    exact hQ
  obtain ⟨m, σ, hQ, -⟩ := Call.exec_returns h hprogram
  exact hQ rfl

/-- **An answered call is that of a known principal.** -/
theorem Call.known {r : Response} (h : (c.exec platform s).1 = .ok r) :
    (s.access.principals.find? c.principal).isSome = true := by
  have hidentity : Outcome platform c.timeline MemoryService.bindIdentity
      (fun _ _ _ => (s.access.principals.find? c.principal).isSome = true) (fun _ => True) 0
      (.start c.principal s) := by
    refine outcome_read ?_
    change Outcome platform c.timeline
      (demand (s.access.principals.find? c.principal).isSome .unauthenticated) _ _ _ _
    cases hknown : (s.access.principals.find? c.principal).isSome with
    | true => exact rfl
    | false => trivial
  have hprogram : Outcome platform c.timeline (c.request.program platform)
      (fun _ _ _ => (s.access.principals.find? c.principal).isSome = true) (fun _ => True) 0
      (.start c.principal s) := by
    refine outcome_bind hidentity fun _ m σ' _ hknown => ?_
    exact (Program.yields_any _ m σ').mono (fun _ _ _ _ _ => hknown) fun _ h => h
  obtain ⟨_, _, hknown, -⟩ := Call.exec_returns h hprogram
  exact hknown

/-- **A call whose program can only give up with one fault** ends with it. -/
theorem Call.exec_eq_error {fault : Fault} (houtcome : Outcome platform c.timeline
    (c.request.program platform) (fun _ _ _ => False) (fun f => f = fault) 0
    (.start c.principal s)) : (c.exec platform s).1 = .error fault := by
  unfold Call.exec transact PgAgmemory.attempt
  cases hrun : runFrom platform c.timeline (c.request.program platform) 0 (.start c.principal s) with
  | error f =>
    unfold Session.start at hrun
    rw [hrun, houtcome.of_error hrun]
    rfl
  | ok result => exact (houtcome.of_run hrun).elim

/-! ## Questions -/

/-- **A question**: a program that an authenticated principal runs in a transaction of its own. -/
def ask {α : Type} (platform : Platform) (principal : UUID) (timeline : Timeline) (p : Tx α)
    (s : Store) : Except Fault α :=
  (transact platform timeline principal (MemoryService.bindIdentity >>= fun _ => p) s).1

/-- **A question of a known principal ends as its program does.** -/
theorem ask_cases {α : Type} {principal : UUID} {timeline : Timeline} {p : Tx α} (hp : ReadOnly p)
    (hkeys : DeferredKeys s) (hknown : (s.access.principals.find? principal).isSome = true)
    {Q : α → Prop} {F : Fault → Prop}
    (houtcome : Outcome platform timeline p (fun a _ _ => Q a) F 1 (.start principal s)) :
    (∃ a, ask platform principal timeline p s = .ok a ∧ Q a)
      ∨ ∃ fault, ask platform principal timeline p s = .error fault ∧ F fault := by
  unfold ask
  rcases transact_reading hp hkeys hknown houtcome with ⟨a, heq, hQ⟩ | ⟨fault, heq, hF⟩
  · rw [heq]
    exact Or.inl ⟨a, rfl, hQ⟩
  · rw [heq]
    exact Or.inr ⟨fault, rfl, hF⟩

/-- An answer comes from a finished run. -/
theorem ask_returns {α : Type} {principal : UUID} {timeline : Timeline} {p : Tx α} {a : α}
    (h : ask platform principal timeline p s = .ok a) {Q : α → Prop} {F : Fault → Prop}
    (houtcome : Outcome platform timeline p (fun a _ _ => Q a) F 1 (.start principal s)) : Q a := by
  have hprogram : Outcome platform timeline (MemoryService.bindIdentity >>= fun _ => p)
      (fun a _ _ => Q a) (fun _ => True) 0 (.start principal s) := by
    refine outcome_bind outcome_bindIdentity ?_
    rintro - m σ' - ⟨rfl, rfl⟩
    exact houtcome.mono (fun _ _ _ _ h => h) fun _ _ => trivial
  unfold ask at h
  rcases transact_cases s with ⟨fault, heq⟩ | ⟨a', s', hattempt, heq⟩
  · rw [heq] at h
    cases h
  · rw [heq] at h
    cases h
    obtain ⟨n, σ, hrun, -⟩ := attempt_eq_ok.mp hattempt
    exact hprogram.of_run hrun

/-- A transaction that wraps what its program returns returns it wrapped, and leaves the same store. -/
theorem transact_map {α β : Type} {principal : UUID} {timeline : Timeline} (f : α → β) (p : Tx α) :
    transact platform timeline principal (MemoryService.bindIdentity >>= fun _ => f <$> p) s
      = ((ask platform principal timeline p s).map f,
        (transact platform timeline principal (MemoryService.bindIdentity >>= fun _ => p) s).2) := by
  have hrun : runFrom platform timeline (MemoryService.bindIdentity >>= fun _ => f <$> p) 0
        ⟨principal, s, []⟩
      = (runFrom platform timeline (MemoryService.bindIdentity >>= fun _ => p) 0
          ⟨principal, s, []⟩).map fun r => (f r.1, r.2) := by
    unfold runFrom
    rw [run_bind, run_bind]
    cases MemoryService.bindIdentity.run (step platform) timeline.moment 0 ⟨principal, s, []⟩ with
    | error fault => rfl
    | ok result => exact run_map (step platform) timeline.moment f p _ _
  unfold ask transact PgAgmemory.attempt
  rw [hrun]
  cases runFrom platform timeline (MemoryService.bindIdentity >>= fun _ => p) 0
      ⟨principal, s, []⟩ with
  | error fault => rfl
  | ok result =>
    obtain ⟨a, n, σ⟩ := result
    cases hcommit : commit (timeline.moment n) σ with
    | error fault => simp only [Except.map, bind, Except.bind, hcommit]
    | ok s' => simp only [Except.map, bind, Except.bind, hcommit]; rfl

/-- A transaction of a program that only reads leaves the store. -/
theorem transact_readOnly {α : Type} {principal : UUID} {timeline : Timeline} {p : Tx α}
    (hp : ReadOnly p) : (transact platform timeline principal p s).2 = s := by
  rcases transact_cases s with ⟨fault, heq⟩ | ⟨a, s', hattempt, heq⟩
  · rw [heq]
  · obtain ⟨n, σ, hrun, hcommit⟩ := attempt_eq_ok.mp hattempt
    have hstore : σ.store = s' := (commit_eq_ok.mp hcommit).2
    rw [heq, ← hstore, hp.run_eq _ _ hrun]
    rfl

/-- **A query of the machine is a question**: the call returns the answer of the question, whatever that
is, and leaves the store. -/
theorem Call.exec_query {principal : UUID} {timeline : Timeline} (query : Query) (s : Store) :
    Call.exec platform ⟨principal, timeline, .query query⟩ s
      = ((ask platform principal timeline (query.body platform) s).map .answered, s) := by
  refine (transact_map Response.answered (query.body platform)).trans (Prod.ext rfl ?_)
  exact transact_readOnly (readOnly_bindIdentity.bind fun _ => readOnly_query platform query)

/-- The fault of a refused question. -/
def faultOf? {α : Type} : Except Fault α → Option Fault
  | .ok _ => none
  | .error fault => some fault

/-- The answer of what returned. -/
theorem toOption_eq_some {α : Type} {answer : Except Fault α} {a : α} :
    answer.toOption = some a ↔ answer = .ok a := by
  cases answer with
  | ok b => exact ⟨fun h => congrArg Except.ok (Option.some.inj h), fun h => by cases h; rfl⟩
  | error fault => exact iff_of_false (fun h => by cases h) fun h => by cases h

/-- A fault is the one that the answer carries. -/
theorem faultOf?_eq_some {α : Type} {answer : Except Fault α} {fault : Fault} :
    faultOf? answer = some fault ↔ answer = .error fault := by
  cases answer with
  | ok a => exact iff_of_false (fun h => by cases h) fun h => by cases h
  | error f => exact ⟨fun h => congrArg Except.error (Option.some.inj h), fun h => by cases h; rfl⟩

end PgAgmemory

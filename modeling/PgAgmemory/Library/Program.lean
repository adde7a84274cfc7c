import Mathlib.Logic.Basic

/-! # Interactive programs

A client program that talks to a stateful server: it reads (`select`), sends statements that may
change the state or be refused (`execute`), and may give up (`raise`). Every interaction happens at a
*moment* of its own, so that a program whose reads depend on a clock is run against a whole sequence
of moments (`run`).

A program is data (a free monad over its interactions), which is what makes the rules below
independent of any particular program: `Ensures` is the weakest precondition of a postcondition
together with a condition on every statement sent, `invariant` says that what each allowed statement
preserves is preserved by every run, and `Yields` is the outcome of one run, its faults included. -/

namespace Interactive

/-- A **program** over reads of `Moment × State`, statements with result `Returned`, and faults. -/
inductive Program (Moment State Statement Returned Fault : Type) (α : Type) : Type 1 where
  /-- Finish with a value. -/
  | pure (value : α)
  /-- Give up. -/
  | raise (fault : Fault)
  /-- Read the state at the current moment. -/
  | select {β : Type} (query : Moment → State → β)
      (next : β → Program Moment State Statement Returned Fault α)
  /-- Send a statement. -/
  | execute (statement : Statement)
      (next : Returned → Program Moment State Statement Returned Fault α)

namespace Program

variable {Moment State Statement Returned Fault α β γ : Type}

/-- Sequencing: graft the continuation at every `pure`. -/
def bind : Program Moment State Statement Returned Fault α →
    (α → Program Moment State Statement Returned Fault β) →
    Program Moment State Statement Returned Fault β
  | .pure a, k => k a
  | .raise fault, _ => .raise fault
  | .select query next, k => .select query fun b => bind (next b) k
  | .execute statement next, k => .execute statement fun r => bind (next r) k

instance : Monad (Program Moment State Statement Returned Fault) where
  pure := .pure
  bind := bind

@[simp] theorem pure_bind (a : α) (k : α → Program Moment State Statement Returned Fault β) :
    (Pure.pure a >>= k) = k a := rfl

@[simp] theorem raise_bind (fault : Fault)
    (k : α → Program Moment State Statement Returned Fault β) :
    ((raise fault : Program Moment State Statement Returned Fault α) >>= k) = raise fault := rfl

@[simp] theorem select_bind (query : Moment → State → γ)
    (next : γ → Program Moment State Statement Returned Fault α)
    (k : α → Program Moment State Statement Returned Fault β) :
    (select query next >>= k) = select query fun c => next c >>= k := rfl

@[simp] theorem execute_bind (statement : Statement)
    (next : Returned → Program Moment State Statement Returned Fault α)
    (k : α → Program Moment State Statement Returned Fault β) :
    (execute statement next >>= k) = execute statement fun r => next r >>= k := rfl

/-! ## Runs -/

section Run

variable (step : Statement → Moment → State → Except Fault (Returned × State))
variable (moments : Nat → Moment)

/-- Run a program from moment `n` in state `s`: the value, the next unused moment and the final
state, or the fault that ended it. -/
def run : Program Moment State Statement Returned Fault α → Nat → State →
    Except Fault (α × Nat × State)
  | .pure a, n, s => .ok (a, n, s)
  | .raise fault, _, _ => .error fault
  | .select query next, n, s => run (next (query (moments n) s)) (n + 1) s
  | .execute statement next, n, s =>
    match step statement (moments n) s with
    | .ok (r, s') => run (next r) (n + 1) s'
    | .error fault => .error fault

@[simp] theorem run_pure (a : α) (n : Nat) (s : State) :
    run step moments (Pure.pure a) n s = .ok (a, n, s) := rfl

@[simp] theorem run_raise (fault : Fault) (n : Nat) (s : State) :
    run (α := α) step moments (raise fault) n s = .error fault := rfl

@[simp] theorem run_select (query : Moment → State → γ)
    (next : γ → Program Moment State Statement Returned Fault α) (n : Nat) (s : State) :
    run step moments (select query next) n s
      = run step moments (next (query (moments n) s)) (n + 1) s := rfl

theorem run_execute (statement : Statement)
    (next : Returned → Program Moment State Statement Returned Fault α) (n : Nat) (s : State) :
    run step moments (execute statement next) n s
      = match step statement (moments n) s with
        | .ok (r, s') => run step moments (next r) (n + 1) s'
        | .error fault => .error fault := by
  rw [run]

/-- **Runs compose**: a sequenced program runs its parts one after the other. -/
theorem run_bind (p : Program Moment State Statement Returned Fault α)
    (k : α → Program Moment State Statement Returned Fault β) (n : Nat) (s : State) :
    run step moments (p >>= k) n s
      = match run step moments p n s with
        | .ok (a, n', s') => run step moments (k a) n' s'
        | .error fault => .error fault := by
  induction p generalizing n s with
  | pure a => rfl
  | raise fault => rfl
  | select query next ih =>
    rw [select_bind, run_select, run_select]
    exact ih _ (n + 1) s
  | execute statement next ih =>
    rw [execute_bind, run_execute, run_execute]
    cases step statement (moments n) s with
    | error fault => rfl
    | ok rs => exact ih rs.1 (n + 1) rs.2

/-- Wrapping what a program returns wraps what its run returns. -/
theorem run_map (f : α → β) (p : Program Moment State Statement Returned Fault α) (n : Nat) (s : State) :
    run step moments (f <$> p) n s = (run step moments p n s).map fun r => (f r.1, r.2) := by
  change run step moments (p >>= fun a => Pure.pure (f a)) n s = _
  rw [run_bind]
  cases run step moments p n s with
  | error fault => rfl
  | ok result => rfl

/-- A sequenced run that succeeds has a successful first part. -/
theorem run_bind_eq_ok {p : Program Moment State Statement Returned Fault α}
    {k : α → Program Moment State Statement Returned Fault β} {n m : Nat} {s t : State} {b : β} :
    run step moments (p >>= k) n s = .ok (b, m, t)
      ↔ ∃ a n' s', run step moments p n s = .ok (a, n', s')
          ∧ run step moments (k a) n' s' = .ok (b, m, t) := by
  rw [run_bind]
  cases run step moments p n s with
  | error fault => simp
  | ok result =>
    obtain ⟨a, n', s'⟩ := result
    constructor
    · intro h; exact ⟨a, n', s', rfl, h⟩
    · rintro ⟨a', n'', s'', heq, h⟩
      cases heq
      exact h

/-- Moments are used in order. -/
theorem le_of_run {p : Program Moment State Statement Returned Fault α} {n m : Nat} {s t : State}
    {a : α} (h : run step moments p n s = .ok (a, m, t)) : n ≤ m := by
  induction p generalizing n s with
  | pure a => cases h; exact Nat.le_refl _
  | raise fault => cases h
  | select query next ih => exact Nat.le_trans (Nat.le_succ n) (ih _ h)
  | execute statement next ih =>
    rw [run_execute] at h
    cases hstep : step statement (moments n) s with
    | error fault => rw [hstep] at h; cases h
    | ok rs => rw [hstep] at h; exact Nat.le_trans (Nat.le_succ n) (ih _ h)

/-! ## Reading -/

/-- A program that sends no statement. -/
def ReadOnly : Program Moment State Statement Returned Fault α → Prop
  | .pure _ => True
  | .raise _ => True
  | .select _ next => ∀ b, ReadOnly (next b)
  | .execute _ _ => False

theorem ReadOnly.bind {p : Program Moment State Statement Returned Fault α}
    {k : α → Program Moment State Statement Returned Fault β} (hp : ReadOnly p)
    (hk : ∀ a, ReadOnly (k a)) : ReadOnly (p >>= k) := by
  induction p with
  | pure a => exact hk a
  | raise fault => trivial
  | select query next ih => exact fun b => ih b (hp b)
  | execute statement next ih => exact hp.elim

/-- **Reading changes nothing.** -/
theorem ReadOnly.run_eq {p : Program Moment State Statement Returned Fault α} (hp : ReadOnly p)
    {n m : Nat} {s t : State} {a : α} (h : run step moments p n s = .ok (a, m, t)) : t = s := by
  induction p generalizing n with
  | pure a => cases h; rfl
  | raise fault => cases h
  | select query next ih => exact ih _ (hp _) h
  | execute statement next ih => exact hp.elim

/-! ## Sending -/

/-- A program that sends only statements of a kind, whatever it reads and receives. -/
def Sends (kind : Statement → Prop) : Program Moment State Statement Returned Fault α → Prop
  | .pure _ => True
  | .raise _ => True
  | .select _ next => ∀ b, Sends kind (next b)
  | .execute statement next => kind statement ∧ ∀ r, Sends kind (next r)

theorem Sends.bind {kind : Statement → Prop} {p : Program Moment State Statement Returned Fault α}
    {k : α → Program Moment State Statement Returned Fault β} (hp : Sends kind p)
    (hk : ∀ a, Sends kind (k a)) : Sends kind (p >>= k) := by
  induction p with
  | pure a => exact hk a
  | raise fault => trivial
  | select query next ih => exact fun b => ih b (hp b)
  | execute statement next ih => exact ⟨hp.1, fun r => ih r (hp.2 r)⟩

theorem Sends.mono {kind kind' : Statement → Prop}
    {p : Program Moment State Statement Returned Fault α} (hp : Sends kind p)
    (hkind : ∀ statement, kind statement → kind' statement) : Sends kind' p := by
  induction p with
  | pure a => trivial
  | raise fault => trivial
  | select query next ih => exact fun b => ih b (hp b)
  | execute statement next ih => exact ⟨hkind statement hp.1, fun r => ih r (hp.2 r)⟩

theorem Sends.and {kind kind' : Statement → Prop}
    {p : Program Moment State Statement Returned Fault α} (hp : Sends kind p) (hp' : Sends kind' p) :
    Sends (fun statement => kind statement ∧ kind' statement) p := by
  induction p with
  | pure a => trivial
  | raise fault => trivial
  | select query next ih => exact fun b => ih b (hp b) (hp' b)
  | execute statement next ih => exact ⟨⟨hp.1, hp'.1⟩, fun r => ih r (hp.2 r) (hp'.2 r)⟩

/-- A program that only reads sends nothing. -/
theorem ReadOnly.sends {kind : Statement → Prop}
    {p : Program Moment State Statement Returned Fault α} (hp : ReadOnly p) : Sends kind p := by
  induction p with
  | pure a => trivial
  | raise fault => trivial
  | select query next ih => exact fun b => ih b (hp b)
  | execute statement next ih => exact hp.elim

/-- A loop sends what its passes send. -/
theorem sends_forM {kind : Statement → Prop} {δ : Type}
    {f : δ → Program Moment State Statement Returned Fault PUnit} :
    ∀ {xs : List δ}, (∀ x ∈ xs, Sends kind (f x)) → Sends kind (xs.forM f)
  | [], _ => trivial
  | x :: xs, h => by
    rw [List.forM_eq_forM, List.forM_cons]
    exact (h x List.mem_cons_self).bind fun _ =>
      sends_forM fun y hy => h y (List.mem_cons_of_mem x hy)

/-! ## Giving up -/

/-- A program that gives up by itself only with faults of a kind, whatever it reads and receives. -/
def Raises (kind : Fault → Prop) : Program Moment State Statement Returned Fault α → Prop
  | .pure _ => True
  | .raise fault => kind fault
  | .select _ next => ∀ b, Raises kind (next b)
  | .execute _ next => ∀ r, Raises kind (next r)

theorem Raises.bind {kind : Fault → Prop} {p : Program Moment State Statement Returned Fault α}
    {k : α → Program Moment State Statement Returned Fault β} (hp : Raises kind p)
    (hk : ∀ a, Raises kind (k a)) : Raises kind (p >>= k) := by
  induction p with
  | pure a => exact hk a
  | raise fault => exact hp
  | select query next ih => exact fun b => ih b (hp b)
  | execute statement next ih => exact fun r => ih r (hp r)

/-- A loop gives up as its passes do. -/
theorem raises_forM {kind : Fault → Prop} {δ : Type}
    {f : δ → Program Moment State Statement Returned Fault PUnit} :
    ∀ {xs : List δ}, (∀ x ∈ xs, Raises kind (f x)) → Raises kind (xs.forM f)
  | [], _ => trivial
  | x :: xs, h => by
    rw [List.forM_eq_forM, List.forM_cons]
    exact (h x List.mem_cons_self).bind fun _ =>
      raises_forM fun y hy => h y (List.mem_cons_of_mem x hy)

/-! ## Guarded postconditions -/

variable (allow : State → Statement → Prop)

/-- **Weakest precondition with guarded statements**: from moment `n` in state `s`, every statement
the program sends is allowed in the state it is sent in, and a run that ends satisfies `Q`. -/
def Ensures : Program Moment State Statement Returned Fault α → (α → Nat → State → Prop) →
    Nat → State → Prop
  | .pure a, Q, n, s => Q a n s
  | .raise _, _, _, _ => True
  | .select query next, Q, n, s => Ensures (next (query (moments n) s)) Q (n + 1) s
  | .execute statement next, Q, n, s =>
    allow s statement ∧
      ∀ r s', step statement (moments n) s = .ok (r, s') → Ensures (next r) Q (n + 1) s'

@[simp] theorem ensures_pure (a : α) (Q : α → Nat → State → Prop) (n : Nat) (s : State) :
    Ensures step moments allow (Pure.pure a) Q n s ↔ Q a n s := Iff.rfl

@[simp] theorem ensures_raise (fault : Fault) (Q : α → Nat → State → Prop) (n : Nat) (s : State) :
    Ensures step moments allow (raise fault) Q n s ↔ True := Iff.rfl

@[simp] theorem ensures_select (query : Moment → State → γ)
    (next : γ → Program Moment State Statement Returned Fault α) (Q : α → Nat → State → Prop)
    (n : Nat) (s : State) :
    Ensures step moments allow (select query next) Q n s
      ↔ Ensures step moments allow (next (query (moments n) s)) Q (n + 1) s := Iff.rfl

variable {step moments allow}

/-- **Sequencing rule**: the first part must establish the precondition of the second. -/
theorem ensures_bind {p : Program Moment State Statement Returned Fault α}
    {k : α → Program Moment State Statement Returned Fault β} {Q : β → Nat → State → Prop}
    {n : Nat} {s : State} :
    Ensures step moments allow (p >>= k) Q n s
      ↔ Ensures step moments allow p (fun a n' s' => Ensures step moments allow (k a) Q n' s') n s := by
  induction p generalizing n s with
  | pure a => exact Iff.rfl
  | raise fault => exact Iff.rfl
  | select query next ih => exact ih _
  | execute statement next ih =>
    exact and_congr_right fun _ => forall_congr' fun r => forall_congr' fun s' =>
      imp_congr_right fun _ => ih r

/-- **Consequence rule**: weaken the postcondition, knowing that moments only advance. -/
theorem Ensures.mono {p : Program Moment State Statement Returned Fault α}
    {Q Q' : α → Nat → State → Prop} {n : Nat} {s : State}
    (h : Ensures step moments allow p Q n s) (hQ : ∀ a n' s', n ≤ n' → Q a n' s' → Q' a n' s') :
    Ensures step moments allow p Q' n s := by
  induction p generalizing n s with
  | pure a => exact hQ a n s (Nat.le_refl n) h
  | raise fault => trivial
  | select query next ih =>
    exact ih _ h fun a n' s' hn => hQ a n' s' (Nat.le_trans (Nat.le_succ n) hn)
  | execute statement next ih =>
    exact ⟨h.1, fun r s' hr => ih r (h.2 r s' hr)
      fun a n' s' hn => hQ a n' s' (Nat.le_trans (Nat.le_succ n) hn)⟩

/-- A guarded postcondition holds of every run that ends. -/
theorem Ensures.of_run {p : Program Moment State Statement Returned Fault α}
    {Q : α → Nat → State → Prop} {n m : Nat} {s t : State} {a : α}
    (h : Ensures step moments allow p Q n s) (hrun : run step moments p n s = .ok (a, m, t)) :
    Q a m t := by
  induction p generalizing n s with
  | pure a => cases hrun; exact h
  | raise fault => cases hrun
  | select query next ih => exact ih _ h hrun
  | execute statement next ih =>
    rw [run_execute] at hrun
    cases hstep : step statement (moments n) s with
    | error fault => rw [hstep] at hrun; cases hrun
    | ok rs => rw [hstep] at hrun; exact ih _ (h.2 rs.1 rs.2 hstep) hrun

/-- **Reading rule**: a program that only reads ends in the state it started in. -/
theorem ReadOnly.ensures {p : Program Moment State Statement Returned Fault α} (hp : ReadOnly p)
    (n : Nat) (s : State) : Ensures step moments allow p (fun _ _ s' => s' = s) n s := by
  induction p generalizing n with
  | pure a => rfl
  | raise fault => trivial
  | select query next ih => exact ih _ (hp _) (n + 1)
  | execute statement next ih => exact hp.elim

/-- Without a condition on statements every program ensures the trivial postcondition. -/
theorem ensures_true (p : Program Moment State Statement Returned Fault α) (n : Nat) (s : State) :
    Ensures step moments (fun _ _ => True) p (fun _ _ _ => True) n s := by
  induction p generalizing n s with
  | pure a => trivial
  | raise fault => trivial
  | select query next ih => exact ih _ (n + 1) s
  | execute statement next ih => exact ⟨trivial, fun r s' _ => ih r (n + 1) s'⟩

/-- **Sending rule**: the statements of a program are also of the kind that it sends. -/
theorem Ensures.sending {kind : Statement → Prop}
    {p : Program Moment State Statement Returned Fault α} {Q : α → Nat → State → Prop} {n : Nat}
    {s : State} (h : Ensures step moments allow p Q n s) (hp : Sends kind p) :
    Ensures step moments (fun s statement => allow s statement ∧ kind statement) p Q n s := by
  induction p generalizing n s with
  | pure a => exact h
  | raise fault => trivial
  | select query next ih => exact ih _ h (hp _)
  | execute statement next ih =>
    exact ⟨⟨h.1, hp.1⟩, fun r s' hr => ih r (h.2 r s' hr) (hp.2 r)⟩

/-- Two postconditions of one program. -/
theorem Ensures.and {p : Program Moment State Statement Returned Fault α}
    {Q Q' : α → Nat → State → Prop} {n : Nat} {s : State} (h : Ensures step moments allow p Q n s)
    (h' : Ensures step moments allow p Q' n s) :
    Ensures step moments allow p (fun a n s => Q a n s ∧ Q' a n s) n s := by
  induction p generalizing n s with
  | pure a => exact ⟨h, h'⟩
  | raise fault => trivial
  | select query next ih => exact ih _ h h'
  | execute statement next ih => exact ⟨h.1, fun r s' hr => ih r (h.2 r s' hr) (h'.2 r s' hr)⟩

/-- A condition on statements that is not needed. -/
theorem Ensures.weaken {allow' : State → Statement → Prop}
    {p : Program Moment State Statement Returned Fault α} {Q : α → Nat → State → Prop} {n : Nat}
    {s : State} (h : Ensures step moments allow p Q n s)
    (hallow : ∀ s statement, allow s statement → allow' s statement) :
    Ensures step moments allow' p Q n s := by
  induction p generalizing n s with
  | pure a => exact h
  | raise fault => trivial
  | select query next ih => exact ih _ h
  | execute statement next ih =>
    exact ⟨hallow s statement h.1, fun r s' hr => ih r (h.2 r s' hr)⟩

/-- **Invariant rule**: what every allowed statement preserves from one moment to the next holds
along every guarded program. -/
theorem Ensures.invariant {p : Program Moment State Statement Returned Fault α}
    {Q : α → Nat → State → Prop} {I : Nat → State → Prop} {n : Nat} {s : State}
    (hread : ∀ n s, I n s → I (n + 1) s)
    (hstep : ∀ statement n s r s', I n s → allow s statement →
      step statement (moments n) s = .ok (r, s') → I (n + 1) s')
    (h : Ensures step moments allow p Q n s) (hI : I n s) :
    Ensures step moments allow p (fun a n' s' => Q a n' s' ∧ I n' s') n s := by
  induction p generalizing n s with
  | pure a => exact ⟨h, hI⟩
  | raise fault => trivial
  | select query next ih => exact ih _ h (hread n s hI)
  | execute statement next ih =>
    exact ⟨h.1, fun r s' hr => ih r (h.2 r s' hr) (hstep statement n s r s' hI h.1 hr)⟩

/-- **Run rule**: what every allowed statement preserves holds at the end of a run. -/
theorem Ensures.run_invariant {p : Program Moment State Statement Returned Fault α}
    {Q : α → Nat → State → Prop} {I : Nat → State → Prop} {n m : Nat} {s t : State} {a : α}
    (hread : ∀ n s, I n s → I (n + 1) s)
    (hstep : ∀ statement n s r s', I n s → allow s statement →
      step statement (moments n) s = .ok (r, s') → I (n + 1) s')
    (h : Ensures step moments allow p Q n s) (hI : I n s)
    (hrun : run step moments p n s = .ok (a, m, t)) : Q a m t ∧ I m t :=
  (h.invariant hread hstep hI).of_run hrun

/-- **Loop rule**: a loop over a list keeps what each of its passes keeps. -/
theorem ensures_forM {δ : Type} {f : δ → Program Moment State Statement Returned Fault PUnit}
    {I : List δ → Nat → State → Prop} {Q : PUnit → Nat → State → Prop}
    (hdone : ∀ n s, I [] n s → Q ⟨⟩ n s)
    (hpass : ∀ x xs n s, I (x :: xs) n s →
      Ensures step moments allow (f x) (fun _ n' s' => I xs n' s') n s) :
    ∀ (xs : List δ) (n : Nat) (s : State), I xs n s →
      Ensures step moments allow (xs.forM f) Q n s
  | [], n, s, h => hdone n s h
  | x :: xs, n, s, h => by
    rw [List.forM_eq_forM, List.forM_cons, ensures_bind]
    exact (hpass x xs n s h).mono fun _ n' s' _ h' => ensures_forM hdone hpass xs n' s' h'

/-! ## Outcomes -/

variable (step moments) in
/-- **Outcome of a run**: from moment `n` in state `s`, a run that ends satisfies `Q`, and one that
gives up does so with a fault in `F`. -/
def Yields (p : Program Moment State Statement Returned Fault α) (Q : α → Nat → State → Prop)
    (F : Fault → Prop) (n : Nat) (s : State) : Prop :=
  match run step moments p n s with
  | .ok (a, m, t) => Q a m t
  | .error fault => F fault

section Yields

variable {p : Program Moment State Statement Returned Fault α} {Q Q' : α → Nat → State → Prop}
  {F F' : Fault → Prop} {n : Nat} {s : State}

theorem yields_select (query : Moment → State → γ)
    (next : γ → Program Moment State Statement Returned Fault α) :
    Yields step moments (select query next) Q F n s
      ↔ Yields step moments (next (query (moments n) s)) Q F (n + 1) s := Iff.rfl

theorem yields_execute {statement : Statement}
    {next : Returned → Program Moment State Statement Returned Fault α}
    (h : ∀ r s', step statement (moments n) s = .ok (r, s') →
      Yields step moments (next r) Q F (n + 1) s')
    (hfail : ∀ fault, step statement (moments n) s = .error fault → F fault) :
    Yields step moments (execute statement next) Q F n s := by
  rw [Yields, run_execute]
  cases hstep : step statement (moments n) s with
  | error fault => exact hfail fault hstep
  | ok result => exact h result.1 result.2 hstep

/-- **Sequencing rule**: the second part goes on where the first has ended. -/
theorem yields_bind {k : α → Program Moment State Statement Returned Fault β}
    {R : β → Nat → State → Prop} :
    Yields step moments (p >>= k) R F n s
      ↔ Yields step moments p (fun a m t => Yields step moments (k a) R F m t) F n s := by
  unfold Yields
  rw [run_bind]
  cases run step moments p n s with
  | error fault => exact Iff.rfl
  | ok result => exact Iff.rfl

/-- **Consequence rule**, knowing that moments only advance. -/
theorem Yields.mono (h : Yields step moments p Q F n s)
    (hQ : ∀ a m t, n ≤ m → Q a m t → Q' a m t) (hF : ∀ fault, F fault → F' fault) :
    Yields step moments p Q' F' n s := by
  unfold Yields at h ⊢
  cases hrun : run step moments p n s with
  | error fault =>
    rw [hrun] at h
    exact hF fault h
  | ok result =>
    rw [hrun] at h
    exact hQ _ _ _ (le_of_run step moments hrun) h

/-- Two outcomes of one run. -/
theorem Yields.and (h : Yields step moments p Q F n s) (h' : Yields step moments p Q' F n s) :
    Yields step moments p (fun a m t => Q a m t ∧ Q' a m t) F n s := by
  unfold Yields at h h' ⊢
  cases hrun : run step moments p n s with
  | error fault =>
    rw [hrun] at h
    exact h
  | ok result =>
    rw [hrun] at h h'
    exact ⟨h, h'⟩

/-- The values of one outcome and the faults of another. -/
theorem Yields.faults (h : Yields step moments p Q F n s) (h' : Yields step moments p Q' F' n s) :
    Yields step moments p Q F' n s := by
  unfold Yields at h h' ⊢
  cases hrun : run step moments p n s with
  | error fault =>
    rw [hrun] at h'
    exact h'
  | ok result =>
    rw [hrun] at h
    exact h

/-- An outcome of a run that ends. -/
theorem Yields.of_run (h : Yields step moments p Q F n s) {a : α} {m : Nat} {t : State}
    (hrun : run step moments p n s = .ok (a, m, t)) : Q a m t := by
  unfold Yields at h
  rw [hrun] at h
  exact h

/-- An outcome of a run that gives up. -/
theorem Yields.of_error (h : Yields step moments p Q F n s) {fault : Fault}
    (hrun : run step moments p n s = .error fault) : F fault := by
  unfold Yields at h
  rw [hrun] at h
  exact h

/-- A run ends or gives up, each with its outcome. -/
theorem Yields.cases_run (h : Yields step moments p Q F n s) :
    (∃ a m t, run step moments p n s = .ok (a, m, t) ∧ Q a m t)
      ∨ ∃ fault, run step moments p n s = .error fault ∧ F fault := by
  cases hrun : run step moments p n s with
  | error fault => exact Or.inr ⟨fault, rfl, h.of_error hrun⟩
  | ok result => exact Or.inl ⟨_, _, _, rfl, h.of_run hrun⟩

/-- Where every fault is excluded, the run ends. -/
theorem Yields.exists_run (h : Yields step moments p Q (fun _ => False) n s) :
    ∃ a m t, run step moments p n s = .ok (a, m, t) ∧ Q a m t :=
  h.cases_run.resolve_right fun ⟨_, _, hfault⟩ => hfault

/-- **Reading rule**: a program that only reads ends in the state it started in. -/
theorem Yields.reading (h : Yields step moments p Q F n s) (hp : ReadOnly p) :
    Yields step moments p (fun a m t => t = s ∧ Q a m t) F n s := by
  unfold Yields at h ⊢
  cases hrun : run step moments p n s with
  | error fault =>
    rw [hrun] at h
    exact h
  | ok result =>
    rw [hrun] at h
    exact ⟨hp.run_eq step moments hrun, h⟩

/-- **Guarded runs have outcomes.** -/
theorem Ensures.yields (h : Ensures step moments allow p Q n s) :
    Yields step moments p Q (fun _ => True) n s := by
  unfold Yields
  cases hrun : run step moments p n s with
  | error fault => trivial
  | ok result => exact h.of_run hrun

/-- Nothing is known of the outcome of any program. -/
theorem yields_any (p : Program Moment State Statement Returned Fault α) (n : Nat) (s : State) :
    Yields step moments p (fun _ _ _ => True) (fun _ => True) n s :=
  (ensures_true p n s).yields

/-- **Fault rule**: a run gives up as its program does, or as one of its statements is refused. -/
theorem Raises.yields {kind : Fault → Prop} (hp : Raises kind p)
    (hrefused : ∀ statement m s fault, step statement (moments m) s = .error fault → kind fault) :
    Yields step moments p (fun _ _ _ => True) kind n s := by
  induction p generalizing n s with
  | pure a => trivial
  | raise fault => exact hp
  | select query next ih => exact (yields_select query next).mpr (ih _ (hp _))
  | execute statement next ih =>
    exact yields_execute (fun r s' _ => ih r (hp r)) fun fault h => hrefused statement n s fault h

/-- **Loop rule** for outcomes: each pass leaves what the next one starts from. -/
theorem yields_forM {δ : Type} {f : δ → Program Moment State Statement Returned Fault PUnit}
    {I : List δ → Nat → State → Prop}
    (hpass : ∀ x xs n s, I (x :: xs) n s →
      Yields step moments (f x) (fun _ n' s' => I xs n' s') F n s) :
    ∀ (xs : List δ) (n : Nat) (s : State), I xs n s →
      Yields step moments (xs.forM f) (fun _ n' s' => I [] n' s') F n s
  | [], _, _, h => h
  | x :: xs, n, s, h => by
    rw [List.forM_eq_forM, List.forM_cons, yields_bind]
    exact (hpass x xs n s h).mono (fun _ n' s' _ h' => yields_forM hpass xs n' s' h') fun _ h => h

/-- **Frame rule**: what the kinds of statements that a program sends preserve, its runs preserve. -/
theorem Sends.yields {kind : Statement → Prop} {I : State → Prop} (hp : Sends kind p) (hI : I s)
    (hstep : ∀ statement m s r s', kind statement → I s → step statement (moments m) s = .ok (r, s') →
      I s') : Yields step moments p (fun _ _ t => I t) (fun _ => True) n s := by
  have hsent : Ensures step moments (fun _ statement => True ∧ kind statement) p
      (fun _ _ _ => True) n s := (ensures_true p n s).sending hp
  have hkept := hsent.invariant (I := fun _ s => I s) (fun _ _ hI => hI)
    (fun statement m s r s' hI hallow hrun => hstep statement m s r s' hallow.2 hI hrun) hI
  exact (hkept.mono fun _ _ _ _ hpost => hpost.2).yields

end Yields

end Run

end Program

end Interactive

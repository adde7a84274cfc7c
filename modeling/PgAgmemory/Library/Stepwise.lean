import PgAgmemory.Library.Program

/-! # Programs step by step

A program that shares its server with others does not run in one piece: between two of its
interactions anything else may happen. Here a program is run one interaction at a time (`interactOnce`),
each at a moment of its own, and the moments are written down. What was run this way is the run of the
whole program on any sequence of moments that begins with the recorded ones (`Reached`). -/

namespace Interactive

namespace Program

variable {Moment State Statement Returned Fault α : Type}

/-- The value of a program that has ended. -/
def value? : Program Moment State Statement Returned Fault α → Option α
  | .pure a => some a
  | _ => none

@[simp] theorem value?_pure (a : α) :
    (Program.pure a : Program Moment State Statement Returned Fault α).value? = some a := rfl

/-- A program with a value has ended. -/
theorem value?_eq_some {p : Program Moment State Statement Returned Fault α} {a : α} :
    p.value? = some a ↔ p = .pure a := by
  cases p with
  | pure b =>
    constructor
    · intro h
      exact congrArg Program.pure (Option.some.inj h)
    · intro h
      rw [h]
      rfl
  | raise fault => constructor <;> intro h <;> cases h
  | select query next => constructor <;> intro h <;> cases h
  | execute statement next => constructor <;> intro h <;> cases h

/-- **One interaction**: what is left of the program, and the state after it; a program that has ended
stays as it is. -/
def interactOnce (step : Statement → Moment → State → Except Fault (Returned × State)) (m : Moment) :
    Program Moment State Statement Returned Fault α → State →
      Except Fault (Program Moment State Statement Returned Fault α × State)
  | .pure a, s => .ok (.pure a, s)
  | .raise fault, _ => .error fault
  | .select query next, s => .ok (next (query m s), s)
  | .execute statement next, s =>
    match step statement m s with
    | .ok (r, s') => .ok (next r, s')
    | .error fault => .error fault

section Run

variable {step : Statement → Moment → State → Except Fault (Returned × State)}
variable {moments : Nat → Moment}

/-- **An interaction is the beginning of a run.** -/
theorem run_interactOnce {p q : Program Moment State Statement Returned Fault α} {n : Nat} {s t : State}
    (hgoing : p.value? = none) (h : interactOnce step (moments n) p s = .ok (q, t)) :
    run step moments p n s = run step moments q (n + 1) t := by
  cases p with
  | pure a => cases hgoing
  | raise fault => cases h
  | select query next => cases h; rfl
  | execute statement next =>
    rw [run_execute]
    rw [interactOnce] at h
    cases hstep : step statement (moments n) s with
    | error fault => rw [hstep] at h; cases h
    | ok result =>
      rw [hstep] at h
      cases h
      rfl

/-- Moments that begin with recorded ones. -/
def Recorded (moments : Nat → Moment) (used : List Moment) : Prop :=
  ∀ i m, used[i]? = some m → moments i = m

theorem Recorded.of_append {used more : List Moment} (h : Recorded moments (used ++ more)) :
    Recorded moments used := by
  intro i m hm
  obtain ⟨hi, -⟩ := List.getElem?_eq_some_iff.mp hm
  exact h i m (by rw [List.getElem?_append_left hi]; exact hm)

/-- The moment after the recorded ones. -/
theorem Recorded.next {used : List Moment} {m : Moment} (h : Recorded moments (used ++ [m])) :
    moments used.length = m := h _ _ List.getElem?_concat_length

/-- **How far a program has come**: on moments that begin with the used ones, the run of the whole
program is the run of what is left. -/
def Reached (step : Statement → Moment → State → Except Fault (Returned × State))
    (p : Program Moment State Statement Returned Fault α) (s : State) (used : List Moment)
    (q : Program Moment State Statement Returned Fault α) (t : State) : Prop :=
  ∀ moments : Nat → Moment, Recorded moments used →
    run step moments p 0 s = run step moments q used.length t

variable {p q r : Program Moment State Statement Returned Fault α} {s t u : State}
  {used : List Moment}

/-- Before its first interaction. -/
theorem Reached.start : Reached step p s [] p s := fun _ _ => rfl

/-- **Step rule**: one more interaction, at one more moment. -/
theorem Reached.interactOnce {m : Moment} (h : Reached step p s used q t) (hgoing : q.value? = none)
    (hstep : Program.interactOnce step m q t = .ok (r, u)) : Reached step p s (used ++ [m]) r u := by
  intro moments hrecorded
  rw [h moments hrecorded.of_append, List.length_append, List.length_singleton]
  have hlater : Program.interactOnce step (moments used.length) q t = .ok (r, u) := by
    rw [hrecorded.next]
    exact hstep
  exact run_interactOnce hgoing hlater

/-- **A program that has come to its end has run**, on any moments that begin with the used ones. -/
theorem Reached.run {a : α} (h : Reached step p s used (.pure a) t)
    (hrecorded : Recorded moments used) :
    Program.run step moments p 0 s = .ok (a, used.length, t) := h moments hrecorded

end Run

end Program

end Interactive

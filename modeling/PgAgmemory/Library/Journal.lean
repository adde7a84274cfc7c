import Mathlib.Data.List.Range
import Mathlib.Logic.Function.Basic

/-! # Journals

A journal records changes of a map: each entry has the number of the state it leads to, the key it
changes, and the values before and after. A journal that follows a state replays to the state it
leads to. -/

namespace Journal

variable {K V : Type*} [DecidableEq K]

/-- One change of a map. -/
structure Entry (K V : Type*) where
  /-- The number of the state after the change. -/
  number : Nat
  key : K
  previous : Option V
  after : Option V

/-- The map after a change. -/
def apply (m : K → Option V) (e : Entry K V) : K → Option V := Function.update m e.key e.after

/-- The map after all changes of a journal. -/
def replay (log : List (Entry K V)) (m : K → Option V) : K → Option V := log.foldl apply m

@[simp] theorem replay_nil (m : K → Option V) : replay [] m = m := rfl

@[simp] theorem replay_cons (e : Entry K V) (log : List (Entry K V)) (m : K → Option V) :
    replay (e :: log) m = replay log (apply m e) := rfl

/-- **A journal follows a numbered state**: its entries count on, and each states the value that it
replaces. -/
inductive Follows : Nat → (K → Option V) → List (Entry K V) → Prop where
  | nil (n : Nat) (m : K → Option V) : Follows n m []
  | cons {n : Nat} {m : K → Option V} {e : Entry K V} {log : List (Entry K V)}
    (hnumber : e.number = n + 1) (hprevious : e.previous = m e.key)
    (hrest : Follows (n + 1) (apply m e) log) : Follows n m (e :: log)

/-- The numbers of a journal count on without a gap. -/
theorem Follows.numbers {n : Nat} {m : K → Option V} {log : List (Entry K V)}
    (h : Follows n m log) :
    log.map Entry.number = List.range' (n + 1) log.length := by
  induction h with
  | nil => rfl
  | cons hnumber _ _ ih => rw [List.map_cons, ih, hnumber, List.length_cons, List.range'_succ]

end Journal

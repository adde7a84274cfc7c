import Mathlib.Data.List.Lex
import Mathlib.Data.List.Nodup

/-! # Breadth-first enumeration

Walks that grow in rounds: every walk of a frontier has some extensions, in an order, and the extensions
of a whole frontier are the next one (`rounds`). Where extensions are one step longer and every longer
walk extends a shorter one (`Grows`), the rounds list all walks up to a length. They come in the order of
any relation that puts shorter walks first and goes by the extended walks, then by the extensions
(`Orders`), and a walk always comes after the one it extends (`extends_earlier`). -/

namespace BreadthFirst

variable {α : Type} (extensions : α → List α)

/-- The walks found in some rounds from a frontier. -/
def rounds : Nat → List α → List α
  | 0, _ => []
  | n + 1, frontier => frontier.flatMap extensions ++ rounds n (frontier.flatMap extensions)

/-- **Walks that grow**: extensions are good walks that are longer by one, and every good walk that is
not a start extends a good one. -/
structure Grows (Good : α → Prop) (length : α → Nat) : Prop where
  good : ∀ x y, Good x → y ∈ extensions x → Good y
  longer : ∀ x y, y ∈ extensions x → length y = length x + 1
  shorter : ∀ y, Good y → 0 < length y → ∃ x, Good x ∧ y ∈ extensions x

/-- **An order of walks** that a breadth-first enumeration follows. -/
structure Orders (Good : α → Prop) (length : α → Nat) (before : α → α → Prop) : Prop where
  /-- Shorter walks come first. -/
  short : ∀ x y, length x < length y → before x y
  /-- The extensions of a walk come in order. -/
  siblings : ∀ x, Good x → (extensions x).Pairwise before
  /-- The extensions of an earlier walk come before those of a later one. -/
  cousins : ∀ x y x' y', Good x → Good y → length x = length y → before x y → x' ∈ extensions x →
    y' ∈ extensions y → before x' y'

variable {extensions} {Good : α → Prop} {length : α → Nat} {before : α → α → Prop}

/-- The frontier of all good walks of a length. -/
def Frontier (Good : α → Prop) (length : α → Nat) (k : Nat) (frontier : List α) : Prop :=
  ∀ x, x ∈ frontier ↔ Good x ∧ length x = k

/-- The extensions of a frontier are the next frontier. -/
theorem Grows.frontier (h : Grows extensions Good length) {k : Nat} {frontier : List α}
    (hfrontier : Frontier Good length k frontier) :
    Frontier Good length (k + 1) (frontier.flatMap extensions) := by
  intro y
  rw [List.mem_flatMap]
  constructor
  · rintro ⟨x, hx, hy⟩
    obtain ⟨hgood, hlength⟩ := (hfrontier x).mp hx
    exact ⟨h.good x y hgood hy, by rw [h.longer x y hy, hlength]⟩
  · rintro ⟨hgood, hlength⟩
    obtain ⟨x, hx, hy⟩ := h.shorter y hgood (by omega)
    have hlonger := h.longer x y hy
    exact ⟨x, (hfrontier x).mpr ⟨hx, by omega⟩, hy⟩

/-- **The rounds list the good walks up to a length.** -/
theorem Grows.mem_rounds (h : Grows extensions Good length) {n k : Nat} {frontier : List α}
    (hfrontier : Frontier Good length k frontier) {y : α} :
    y ∈ rounds extensions n frontier ↔ Good y ∧ k < length y ∧ length y ≤ k + n := by
  induction n generalizing k frontier with
  | zero =>
    refine iff_of_false List.not_mem_nil ?_
    rintro ⟨-, hlt, hle⟩
    omega
  | succ n ih =>
    have hnext := h.frontier hfrontier
    rw [rounds, List.mem_append, ih hnext, hnext y]
    constructor
    · rintro (⟨hgood, hlength⟩ | ⟨hgood, hlt, hle⟩)
      · exact ⟨hgood, by omega, by omega⟩
      · exact ⟨hgood, by omega, by omega⟩
    · rintro ⟨hgood, hlt, hle⟩
      by_cases hshort : length y = k + 1
      · exact Or.inl ⟨hgood, hshort⟩
      · exact Or.inr ⟨hgood, by omega, by omega⟩

/-- The extensions of a frontier in order are in order. -/
theorem Orders.pairwise_flatMap (h : Orders extensions Good length before) {k : Nat}
    {frontier : List α} (hfrontier : Frontier Good length k frontier)
    (hsorted : frontier.Pairwise before) : (frontier.flatMap extensions).Pairwise before := by
  rw [List.pairwise_flatMap]
  constructor
  · intro x hx
    exact h.siblings x ((hfrontier x).mp hx).1
  · refine hsorted.imp_of_mem fun {x y} hx hy hbefore x' hx' y' hy' => ?_
    obtain ⟨hgoodx, hlengthx⟩ := (hfrontier x).mp hx
    obtain ⟨hgoody, hlengthy⟩ := (hfrontier y).mp hy
    exact h.cousins x y x' y' hgoodx hgoody (hlengthx.trans hlengthy.symm) hbefore hx' hy'

/-- **The rounds come in order.** -/
theorem Orders.pairwise_rounds (h : Orders extensions Good length before)
    (hgrows : Grows extensions Good length) {n k : Nat} {frontier : List α}
    (hfrontier : Frontier Good length k frontier) (hsorted : frontier.Pairwise before) :
    (rounds extensions n frontier).Pairwise before := by
  induction n generalizing k frontier with
  | zero => exact .nil
  | succ n ih =>
    have hnext := hgrows.frontier hfrontier
    have hflat := h.pairwise_flatMap hfrontier hsorted
    refine List.pairwise_append.mpr ⟨hflat, ih hnext hflat, fun x hx y hy => h.short x y ?_⟩
    have hx' := ((hnext x).mp hx).2
    have hy' := ((hgrows.mem_rounds hnext).mp hy).2.1
    omega

/-- **A walk comes after the one it extends**, unless that is in the frontier. -/
theorem extends_earlier {n : Nat} {frontier earlier later : List α} {y : α}
    (h : rounds extensions n frontier = earlier ++ y :: later) :
    ∃ x, (x ∈ frontier ∨ x ∈ earlier) ∧ y ∈ extensions x := by
  induction n generalizing frontier earlier with
  | zero => exact absurd h.symm (List.append_ne_nil_of_right_ne_nil _ (List.cons_ne_nil _ _))
  | succ n ih =>
    rw [rounds, List.append_eq_append_iff] at h
    rcases h with ⟨rest, hearlier, hrounds⟩ | ⟨rest, hflat, hlater⟩
    · obtain ⟨x, hx | hx, hy⟩ := ih hrounds
      · exact ⟨x, Or.inr (hearlier ▸ List.mem_append_left rest hx), hy⟩
      · exact ⟨x, Or.inr (hearlier ▸ List.mem_append_right _ hx), hy⟩
    · -- the walk is the first of the rest of this round, or the first of the rounds after it
      cases rest with
      | cons z rest =>
        obtain ⟨rfl, -⟩ := List.cons.inj hlater
        have hmem : y ∈ frontier.flatMap extensions :=
          hflat ▸ List.mem_append_right _ List.mem_cons_self
        obtain ⟨x, hx, hy⟩ := List.mem_flatMap.mp hmem
        exact ⟨x, Or.inl hx, hy⟩
      | nil =>
        rw [List.append_nil] at hflat
        rw [List.nil_append] at hlater
        have hrounds : rounds extensions n (frontier.flatMap extensions) = [] ++ y :: later :=
          hlater.symm
        obtain ⟨x, hx | hx, hy⟩ := ih hrounds
        · exact ⟨x, Or.inr (hflat ▸ hx), hy⟩
        · exact absurd hx List.not_mem_nil

/-- The same of the first walks only. -/
theorem extends_earlier_of_take {n k : Nat} {frontier earlier later : List α} {y : α}
    (h : (rounds extensions n frontier).take k = earlier ++ y :: later) :
    ∃ x, (x ∈ frontier ∨ x ∈ earlier) ∧ y ∈ extensions x := by
  have hall : rounds extensions n frontier
      = earlier ++ y :: (later ++ (rounds extensions n frontier).drop k) := by
    rw [← List.cons_append, ← List.append_assoc, ← h, List.take_append_drop]
  exact extends_earlier hall

end BreadthFirst

import Mathlib.Algebra.Order.Field.Rat
import Mathlib.Data.List.Nodup
import Mathlib.Data.Nat.Cast.Order.Field
import Mathlib.Tactic.GCongr
import Mathlib.Tactic.Positivity

/-! # Reciprocal rank fusion

Several orders of the same things are fused by adding, for each of them, the reciprocal of the place
that a thing has in it. A thing that is no worse than another in every order, and better in one,
scores more. -/

namespace Fusion

variable {α : Type*} [DecidableEq α]

/-! ## Places -/

/-- The place of a thing in an order, from 1. -/
def place (xs : List α) (a : α) : Option Nat := (xs.findIdx? fun b => decide (b = a)).map (· + 1)

theorem place_isSome {xs : List α} {a : α} : (place xs a).isSome = true ↔ a ∈ xs := by
  rw [place, Option.isSome_map, List.findIdx?_isSome, List.any_eq_true]
  constructor
  · rintro ⟨b, hb, hdecide⟩
    exact of_decide_eq_true hdecide ▸ hb
  · exact fun ha => ⟨a, ha, decide_eq_true rfl⟩

/-- **The place of what stands at an index** of an order without repetitions. -/
theorem place_getElem {xs : List α} (hnodup : xs.Nodup) {i : Nat} (hi : i < xs.length) :
    place xs xs[i] = some (i + 1) := by
  have hfind : (xs.findIdx? fun b => decide (b = xs[i])) = some i := by
    refine List.findIdx?_eq_some_iff_getElem.mpr ⟨hi, decide_eq_true rfl, fun j hj hsame => ?_⟩
    have hij : j = i := (List.Nodup.getElem_inj_iff hnodup).mp (of_decide_eq_true hsame)
    exact absurd hij (Nat.ne_of_lt hj)
  rw [place, hfind]
  rfl

/-- A thing stands at its place. -/
theorem getElem?_of_place {xs : List α} {a : α} {n : Nat} (h : place xs a = some n) :
    0 < n ∧ xs[n - 1]? = some a := by
  obtain ⟨i, hfind, rfl⟩ := Option.map_eq_some_iff.mp h
  obtain ⟨hi, hsame, -⟩ := List.findIdx?_eq_some_iff_getElem.mp hfind
  refine ⟨Nat.succ_pos i, ?_⟩
  rw [Nat.add_sub_cancel, List.getElem?_eq_getElem hi, of_decide_eq_true hsame]

/-- Different things have different places. -/
theorem eq_of_place {xs : List α} {a b : α} {n : Nat} (ha : place xs a = some n)
    (hb : place xs b = some n) : a = b :=
  Option.some.inj ((getElem?_of_place ha).2.symm.trans (getElem?_of_place hb).2)

/-- Places survive a renaming that keeps the thing apart from the others. -/
theorem place_map {β : Type*} [DecidableEq β] {f : α → β} {xs : List α} {a : α}
    (hf : ∀ b ∈ xs, f b = f a → b = a) : place (xs.map f) (f a) = place xs a := by
  rw [place, place, List.findIdx?_map]
  refine congrArg _ ?_
  induction xs with
  | nil => rfl
  | cons b xs ih =>
    rw [List.findIdx?_cons, List.findIdx?_cons, ih fun c hc => hf c (List.mem_cons_of_mem _ hc)]
    have hsame : decide (f b = f a) = decide (b = a) :=
      decide_eq_decide.mpr ⟨hf b List.mem_cons_self, congrArg f⟩
    rw [Function.comp_apply, hsame]

/-- What stands earlier has a smaller place. -/
theorem pairwise_place {xs : List α} (hnodup : xs.Nodup) :
    xs.Pairwise fun a b => ∃ m n, place xs a = some m ∧ place xs b = some n ∧ m < n :=
  List.pairwise_iff_getElem.mpr fun i j hi hj hij =>
    ⟨i + 1, j + 1, place_getElem hnodup hi, place_getElem hnodup hj, Nat.succ_lt_succ hij⟩

/-! ## Comparing places -/

/-- A place is no worse than another; no place is the worst. -/
def NoWorse (a b : Option Nat) : Prop := ∀ n, b = some n → ∃ m, a = some m ∧ m ≤ n

/-- A place is better than another. -/
def Better (a b : Option Nat) : Prop := ∃ m, a = some m ∧ ∀ n, b = some n → m < n

/-! ## Scores -/

/-- The weight of a place: the reciprocal of it, offset, or nothing. -/
def weight (offset : Nat) (rank : Option Nat) : Rat := rank.elim 0 fun n => 1 / (offset + n)

theorem weight_nonneg (offset : Nat) (rank : Option Nat) : 0 ≤ weight offset rank := by
  cases rank with
  | none => exact le_refl 0
  | some n => exact div_nonneg zero_le_one (by positivity)

theorem weight_le {offset m n : Nat} (hoffset : 0 < offset) (h : m ≤ n) :
    weight offset (some n) ≤ weight offset (some m) := by
  have hpositive : (0 : Rat) < offset + m := by positivity
  exact one_div_le_one_div_of_le hpositive (by gcongr)

theorem weight_lt {offset m n : Nat} (hoffset : 0 < offset) (h : m < n) :
    weight offset (some n) < weight offset (some m) := by
  have hpositive : (0 : Rat) < offset + m := by positivity
  exact one_div_lt_one_div_of_lt hpositive (by gcongr)

/-- **Weights decide places.** -/
theorem weight_inj {offset m n : Nat} (hoffset : 0 < offset)
    (h : weight offset (some m) = weight offset (some n)) : m = n := by
  rcases Nat.lt_trichotomy m n with hlt | heq | hgt
  · exact absurd h (weight_lt hoffset hlt).ne'
  · exact heq
  · exact absurd h (weight_lt hoffset hgt).ne

/-- What is no worse weighs no less. -/
theorem NoWorse.weight_le {a b : Option Nat} (h : NoWorse a b) {offset : Nat} (hoffset : 0 <
  offset) :
    weight offset b ≤ weight offset a := by
  cases b with
  | none => exact weight_nonneg offset a
  | some n =>
    obtain ⟨m, rfl, hle⟩ := h n rfl
    exact Fusion.weight_le hoffset hle

/-- What is better weighs more. -/
theorem Better.weight_lt {a b : Option Nat} (h : Better a b) {offset : Nat} (hoffset : 0 < offset) :
    weight offset b < weight offset a := by
  obtain ⟨m, rfl, hless⟩ := h
  cases b with
  | none => exact div_pos zero_lt_one (by positivity)
  | some n => exact Fusion.weight_lt hoffset (hless n rfl)

/-- **Dominance**: what is no worse in both orders and better in one scores more. -/
theorem score_lt (offset : Nat) (hoffset : 0 < offset) {a b a' b' : Option Nat} (h : NoWorse a b)
    (h' : NoWorse a' b') (hbetter : Better a b ∨ Better a' b') :
    weight offset b + weight offset b' < weight offset a + weight offset a' := by
  rcases hbetter with hbetter | hbetter
  · exact add_lt_add_of_lt_of_le (hbetter.weight_lt hoffset) (h'.weight_le hoffset)
  · exact add_lt_add_of_le_of_lt (h.weight_le hoffset) (hbetter.weight_lt hoffset)

/-- **A single order is not changed**: a rearrangement by the weights of the places is the order. -/
theorem eq_of_weights (offset : Nat) (hoffset : 0 < offset) {xs ys : List α} (hnodup : xs.Nodup)
    (hperm : ys.Perm xs)
    (hweights : ys.Pairwise fun a b => weight offset (place xs b) ≤ weight offset (place xs a)) :
    ys = xs := by
  refine List.Perm.eq_of_pairwise (fun a b ha hb hab hba => ?_) hweights ?_ hperm
  · obtain ⟨m, hm⟩ := Option.isSome_iff_exists.mp (place_isSome.mpr (hperm.mem_iff.mp ha))
    obtain ⟨n, hn⟩ := Option.isSome_iff_exists.mp (place_isSome.mpr hb)
    have hsame : m = n := by
      refine weight_inj hoffset ?_
      rw [← hm, ← hn]
      exact le_antisymm hba hab
    exact eq_of_place hm (hsame ▸ hn)
  · refine (pairwise_place hnodup).imp ?_
    rintro a b ⟨m, n, hm, hn, hless⟩
    rw [hm, hn]
    exact weight_le hoffset (Nat.le_of_lt hless)

/-! ## Sorted lists -/

/-- In a sorted list, of two members the one that may not stand behind stands in front. -/
theorem pair_sublist {β : Type*} {r : β → β → Prop} {xs : List β} (h : xs.Pairwise r) {a b : β}
    (ha : a ∈ xs) (hb : b ∈ xs) (hne : a ≠ b) (hnot : ¬r b a) : [a, b].Sublist xs := by
  induction h with
  | nil => exact absurd ha List.not_mem_nil
  | @cons c xs hhead htail ih =>
    rcases List.mem_cons.mp ha with rfl | harest
    · have hbrest := (List.mem_cons.mp hb).resolve_left hne.symm
      exact (List.singleton_sublist.mpr hbrest).cons_cons _
    · rcases List.mem_cons.mp hb with rfl | hbrest
      · exact absurd (hhead a harest) hnot
      · exact (ih harest hbrest).cons _

end Fusion

import Mathlib.Algebra.Order.Group.Nat
import Mathlib.Order.Monotone.Basic

/-! # A count that counts its own digits

A text that states its own length has `base` other characters and the digits of the length, so the
length is a fixed point of `restate base n = base + digits n`. Restating a count that is too small
leads to the **least** fixed point, and four rounds are always enough (`settled_fixed`): the first round
makes the count larger than `base`, from there on the number of digits grows at most once, and a count
whose number of digits no longer grows is exact. -/

namespace Counting

/-- The number of decimal digits. -/
def digits (n : Nat) : Nat := (Nat.toDigits 10 n).length

/-- A number has at most `k` digits when it is below `10 ^ k`. -/
theorem digits_le_iff {n k : Nat} (hk : 0 < k) : digits n ≤ k ↔ n < 10 ^ k :=
  Nat.length_toDigits_le_iff (by decide) hk

theorem digits_pos (n : Nat) : 0 < digits n := Nat.length_toDigits_pos

theorem digits_mono : Monotone digits := by
  intro m n hmn
  rw [digits_le_iff (digits_pos n)]
  exact Nat.lt_of_le_of_lt hmn ((digits_le_iff (digits_pos n)).mp (Nat.le_refl _))

/-- The length of a text that states the count `n` besides `base` other characters. -/
def restate (base n : Nat) : Nat := base + digits n

theorem restate_mono (base : Nat) : Monotone (restate base) := fun _ _ hmn =>
  Nat.add_le_add_left (digits_mono hmn) base

theorem restate_le_restate {base base' n : Nat} (h : base ≤ base') :
    restate base n ≤ restate base' n := Nat.add_le_add_right h (digits n)

/-- A count with a digit more has room for that digit. -/
theorem add_digits_lt {base k : Nat} (hbase : base < 10 ^ k) : base + (k + 1) < 10 ^ (k + 1) := by
  have hsmall : k < 10 ^ k := Nat.lt_pow_self (by decide)
  rw [Nat.pow_succ]
  omega

/-- **Once a count exceeds the base, its digits grow at most once.** -/
theorem digits_restate_le {base n k : Nat} (hbase : base < 10 ^ k) (hn : digits n ≤ k + 1) :
    digits (restate base n) ≤ k + 1 := by
  rw [digits_le_iff (Nat.succ_pos k)]
  exact Nat.lt_of_le_of_lt (Nat.add_le_add_left hn base) (add_digits_lt hbase)

/-- **Three rounds reach a fixed point** from any count that does not shrink when it is restated. -/
theorem restate_fixed {base n : Nat} (hn : n ≤ restate base n) :
    restate base (restate base (restate base (restate base n)))
      = restate base (restate base (restate base n)) := by
  have h12 := restate_mono base hn
  have h23 := restate_mono base h12
  -- the base has no more digits than the first restated count
  have hbase : base < 10 ^ digits (restate base n) :=
    Nat.lt_of_le_of_lt (Nat.le_add_right base (digits n))
      ((digits_le_iff (digits_pos _)).mp (Nat.le_refl _))
  have hsecond : digits (restate base (restate base n)) ≤ digits (restate base n) + 1 :=
    digits_restate_le hbase (Nat.le_succ _)
  have hthird : digits (restate base (restate base (restate base n)))
      ≤ digits (restate base n) + 1 := digits_restate_le hbase hsecond
  rcases Nat.lt_or_ge (digits (restate base n)) (digits (restate base (restate base n)))
    with hgrows | hstays
  · have heq : digits (restate base (restate base (restate base n)))
        = digits (restate base (restate base n)) :=
      Nat.le_antisymm (Nat.le_trans hthird hgrows) (digits_mono h23)
    exact congrArg (base + ·) heq
  · have heq : restate base (restate base (restate base n)) = restate base (restate base n) :=
      congrArg (base + ·) (Nat.le_antisymm hstays (digits_mono h12))
    rw [heq, heq]

/-- The count after four rounds from nothing. -/
def settled (base : Nat) : Nat := restate base (restate base (restate base (restate base 0)))

/-- **The settled count is exact.** -/
theorem settled_fixed (base : Nat) : restate base (settled base) = settled base :=
  congrArg (restate base) (restate_fixed (Nat.zero_le _))

/-- The settled count is the least exact one. -/
theorem settled_le {base n : Nat} (hn : restate base n ≤ n) : settled base ≤ n := by
  have hround : ∀ {m : Nat}, m ≤ n → restate base m ≤ n := fun hm =>
    Nat.le_trans (restate_mono base hm) hn
  exact hround (hround (hround (hround (Nat.zero_le n))))

/-- A longer text has a larger count. -/
theorem settled_mono : Monotone settled := fun _ base' hbase =>
  settled_le (Nat.le_trans (restate_le_restate hbase) (Nat.le_of_eq (settled_fixed base')))

/-- **Four rounds from any count up to the settled one reach it.** -/
theorem restate_settled {base n : Nat} (hn : n ≤ settled base) :
    restate base (restate base (restate base (restate base n))) = settled base := by
  have hround : ∀ {m : Nat}, m ≤ settled base → restate base m ≤ settled base := fun hm =>
    Nat.le_trans (restate_mono base hm) (Nat.le_of_eq (settled_fixed base))
  apply Nat.le_antisymm
  · exact hround (hround (hround (hround hn)))
  · have hfour : settled base ≤ restate base (restate base (restate base (restate base n))) := by
      have hmono := restate_mono base
      exact hmono (hmono (hmono (hmono (Nat.zero_le n))))
    exact hfour

example : settled 96 = 98 ∧ settled 97 = 99 ∧ settled 98 = 101 := by decide

end Counting

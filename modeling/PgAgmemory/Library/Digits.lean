import Mathlib.Algebra.Group.Nat.Defs
import Mathlib.Data.List.Basic

/-! # Fixed-width numerals

Numbers below `base ^ width` written with exactly `width` digits, most significant first, in any base
up to sixteen (`fixed`). Reading the digits gives the number back (`value_fixed`), so two numerals of
one width agree only for equal numbers, also in front of further text (`fixed_append_inj`). -/

namespace Digits

/-- The digit characters, lower case. -/
def digits : List Char := "0123456789abcdef".toList

/-- The digit of a number below sixteen. -/
def digitChar (n : Nat) : Char := digits.getD n '0'

/-- The number of a digit. -/
def digitValue (c : Char) : Nat := digits.idxOf c

theorem digitValue_digitChar {n : Nat} (h : n < 16) : digitValue (digitChar n) = n := by
  have key : ∀ n : Fin 16, digitValue (digitChar n) = n := by decide +kernel
  exact key ⟨n, h⟩

/-- `n` with exactly `width` digits in the given base, leading zeros included. -/
def fixed (base : Nat) : Nat → Nat → List Char
  | 0, _ => []
  | width + 1, n => fixed base width (n / base) ++ [digitChar (n % base)]

/-- The number that a list of digits denotes. -/
def value (base : Nat) (cs : List Char) : Nat := cs.foldl (fun n c => n * base + digitValue c) 0

@[simp] theorem length_fixed (base width n : Nat) : (fixed base width n).length = width := by
  induction width generalizing n with
  | zero => rfl
  | succ width ih => simp [fixed, ih]

/-- A numeral is made of digits. -/
theorem mem_digits_of_mem_fixed {base width n : Nat} (hbase : 0 < base ∧ base ≤ 16) {c : Char}
    (h : c ∈ fixed base width n) : c ∈ digits := by
  induction width generalizing n with
  | zero => exact absurd h List.not_mem_nil
  | succ width ih =>
    rcases List.mem_append.mp h with hhigh | hlow
    · exact ih hhigh
    · have hlt : n % base < digits.length :=
        Nat.lt_of_lt_of_le (Nat.mod_lt n hbase.1) hbase.2
      rw [List.mem_singleton.mp hlow, digitChar, List.getD_eq_getElem?_getD,
        List.getElem?_eq_getElem hlt, Option.getD_some]
      exact List.getElem_mem hlt

/-- **Reading a numeral gives its number back.** -/
theorem value_fixed {base width n : Nat} (hpos : 0 < base) (hbase : base ≤ 16)
    (hn : n < base ^ width) : value base (fixed base width n) = n := by
  induction width generalizing n with
  | zero => exact (Nat.lt_one_iff.mp hn).symm
  | succ width ih =>
    have hhigh : value base (fixed base width (n / base)) = n / base :=
      ih (Nat.div_lt_of_lt_mul (by rwa [Nat.mul_comm, ← Nat.pow_succ]))
    have hlow : digitValue (digitChar (n % base)) = n % base :=
      digitValue_digitChar (Nat.lt_of_lt_of_le (Nat.mod_lt n hpos) hbase)
    rw [fixed, value, List.foldl_append]
    change value base (fixed base width (n / base)) * base + digitValue (digitChar (n % base)) = n
    rw [hhigh, hlow, Nat.mul_comm]
    exact Nat.div_add_mod n base

/-- A numeral in front of further text can be read off. -/
theorem fixed_append_inj {base width m n : Nat} {r s : List Char} (hpos : 0 < base)
    (hbase : base ≤ 16) (hm : m < base ^ width) (hn : n < base ^ width)
    (h : fixed base width m ++ r = fixed base width n ++ s) : m = n ∧ r = s := by
  obtain ⟨hnum, hrest⟩ := List.append_inj h (by rw [length_fixed, length_fixed])
  refine ⟨?_, hrest⟩
  rw [← value_fixed hpos hbase hm, hnum, value_fixed hpos hbase hn]

end Digits

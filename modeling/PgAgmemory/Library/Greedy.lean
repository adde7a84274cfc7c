import Mathlib.Data.List.Infix

/-! # Greedy selection

Go through a list in order and keep an element whenever the ones kept so far still fit together with it
(`greedy`). The result is a sublist all of whose own prefixes fit. Some elements may be required: the
first `required` ones overflow (`Overflows`) when one of them does not fit behind those before it, and
as long as they do not, all of them are kept. -/

namespace Greedy

variable {α : Type} (fits : List α → Bool)

/-- Go through a list after some elements have been kept. -/
def keep : List α → List α → List α
  | kept, [] => kept
  | kept, x :: xs => keep (if fits (kept ++ [x]) then kept ++ [x] else kept) xs

/-- **Greedy selection**: an element is kept when it fits behind those kept before it. -/
def greedy (xs : List α) : List α := keep fits [] xs

/-- One of the first `required` elements does not fit behind the kept ones and those before it. -/
def Overflows (kept : List α) (required : Nat) (xs : List α) : Prop :=
  ∃ before x rest, xs = before ++ x :: rest ∧ before.length < required
    ∧ fits (kept ++ (before ++ [x])) = false

variable {fits}

theorem keep_cons_of_fits {kept : List α} {x : α} (h : fits (kept ++ [x]) = true) (xs : List α) :
    keep fits kept (x :: xs) = keep fits (kept ++ [x]) xs := by
  rw [keep, if_pos h]

theorem keep_cons_of_not_fits {kept : List α} {x : α} (h : fits (kept ++ [x]) = false)
    (xs : List α) : keep fits kept (x :: xs) = keep fits kept xs := by
  rw [keep, h, if_neg Bool.false_ne_true]

theorem keep_sublist (fits : List α → Bool) (kept xs : List α) : (keep fits kept xs).Sublist (kept ++ xs) := by
  induction xs generalizing kept with
  | nil => rw [keep, List.append_nil]
  | cons x xs ih =>
    by_cases h : fits (kept ++ [x]) = true
    · rw [keep_cons_of_fits h]
      have hstep := ih (kept ++ [x])
      rwa [List.append_assoc, List.singleton_append] at hstep
    · rw [keep_cons_of_not_fits (eq_false_of_ne_true h)]
      exact (ih kept).trans (List.Sublist.append_left (List.sublist_cons_self x xs) kept)

/-- What is selected is a sublist. -/
theorem greedy_sublist (xs : List α) : (greedy fits xs).Sublist xs := keep_sublist fits [] xs

/-- Nothing of a list is dropped exactly when the selection is the whole list. -/
theorem greedy_length_lt {xs : List α} : (greedy fits xs).length < xs.length ↔ greedy fits xs ≠ xs := by
  constructor
  · intro hlt heq
    exact Nat.lt_irrefl _ (Nat.lt_of_lt_of_eq hlt (congrArg List.length heq.symm))
  · intro hne
    exact Nat.lt_of_le_of_ne (greedy_sublist xs).length_le
      fun heq => hne ((greedy_sublist xs).eq_of_length heq)

/-- What is kept stays in front, and every step beyond it fits. -/
theorem keep_extends (fits : List α → Bool) (kept xs : List α) : ∃ more, keep fits kept xs = kept ++ more
    ∧ ∀ zs x, zs ++ [x] <+: more → fits (kept ++ (zs ++ [x])) = true := by
  induction xs generalizing kept with
  | nil =>
    refine ⟨[], (List.append_nil kept).symm, ?_⟩
    intro zs x hprefix
    exact absurd (List.prefix_nil.mp hprefix) (List.concat_ne_nil _ _)
  | cons x xs ih =>
    by_cases h : fits (kept ++ [x]) = true
    · obtain ⟨more, hkeep, hfits⟩ := ih (kept ++ [x])
      refine ⟨x :: more, by rw [keep_cons_of_fits h, hkeep, List.append_assoc]; rfl, ?_⟩
      intro zs y hprefix
      cases zs with
      | nil =>
        obtain ⟨rfl, -⟩ := List.cons_prefix_cons.mp hprefix
        exact h
      | cons z zs =>
        obtain ⟨rfl, hrest⟩ := List.cons_prefix_cons.mp hprefix
        have hstep := hfits zs y hrest
        rwa [List.append_assoc, List.singleton_append] at hstep
    · obtain ⟨more, hkeep, hfits⟩ := ih kept
      exact ⟨more, by rw [keep_cons_of_not_fits (eq_false_of_ne_true h), hkeep], hfits⟩

/-- **A selection fits, unless it is empty.** -/
theorem fits_greedy {xs : List α} (h : greedy fits xs ≠ []) : fits (greedy fits xs) = true := by
  obtain ⟨more, hkeep, hfits⟩ := keep_extends fits [] xs
  have hmore : greedy fits xs = more := hkeep
  rw [hmore] at h ⊢
  rw [← List.dropLast_append_getLast h] at hfits ⊢
  exact hfits _ _ (List.prefix_refl _)

/-! ## Required elements -/

theorem not_overflows_nil (kept : List α) (required : Nat) : ¬Overflows fits kept required [] := by
  rintro ⟨before, x, rest, heq, -⟩
  exact absurd heq.symm (List.append_ne_nil_of_right_ne_nil _ (List.cons_ne_nil _ _))

theorem not_overflows_zero (kept xs : List α) : ¬Overflows fits kept 0 xs := by
  rintro ⟨before, -, -, -, hlt, -⟩
  exact absurd hlt (Nat.not_lt_zero _)

/-- A required first element that does not fit overflows. -/
theorem overflows_of_not_fits {kept : List α} {x : α} {required : Nat} (hrequired : required ≠ 0)
    (h : fits (kept ++ [x]) = false) (xs : List α) : Overflows fits kept required (x :: xs) :=
  ⟨[], x, xs, rfl, Nat.pos_of_ne_zero hrequired, h⟩

/-- Behind a first element that fits, the others overflow or not. -/
theorem overflows_cons {kept : List α} {x : α} (h : fits (kept ++ [x]) = true) (required : Nat)
    (xs : List α) :
    Overflows fits kept required (x :: xs) ↔ Overflows fits (kept ++ [x]) (required - 1) xs := by
  constructor
  · rintro ⟨before, y, rest, heq, hlt, hfits⟩
    cases before with
    | nil =>
      obtain ⟨rfl, -⟩ := List.cons.inj heq
      exact absurd (h.symm.trans hfits) (by decide)
    | cons z before =>
      obtain ⟨rfl, hxs⟩ := List.cons.inj heq
      refine ⟨before, y, rest, hxs, Nat.lt_sub_of_add_lt hlt, ?_⟩
      rwa [List.append_assoc, List.singleton_append]
  · rintro ⟨before, y, rest, rfl, hlt, hfits⟩
    refine ⟨x :: before, y, rest, rfl, Nat.add_lt_of_lt_sub hlt, ?_⟩
    rwa [List.append_assoc, List.singleton_append] at hfits

/-- **Required elements that do not overflow are kept**, in front of the others. -/
theorem required_prefix {kept xs : List α} {required : Nat}
    (h : ¬Overflows fits kept required xs) : kept ++ xs.take required <+: keep fits kept xs := by
  induction xs generalizing kept required with
  | nil => rw [List.take_nil, List.append_nil]; exact List.prefix_refl _
  | cons x xs ih =>
    cases required with
    | zero =>
      obtain ⟨more, hkeep, -⟩ := keep_extends fits kept (x :: xs)
      rw [List.take_zero, List.append_nil, hkeep]
      exact List.prefix_append kept more
    | succ required =>
      have hfits : fits (kept ++ [x]) = true := by
        cases hfits : fits (kept ++ [x])
        · exact absurd (overflows_of_not_fits (Nat.succ_ne_zero required) hfits xs) h
        · rfl
      rw [overflows_cons hfits] at h
      have hstep := ih h
      rwa [List.append_assoc, List.singleton_append, ← keep_cons_of_fits hfits] at hstep

end Greedy

import Mathlib.Data.List.Sort
import Mathlib.Order.Defs.LinearOrder

/-! # Keyset paging

Things are listed from the greatest key down, a page at a time. A page shows the greatest keys below
a cursor; when there are more it returns its least key as the next cursor. Following the cursors
loses nothing and repeats nothing, also while things come and go between the pages. -/

namespace Paging

variable {α : Type*} [LinearOrder α]

/-! ## One page -/

/-- A key is below a cursor; without a cursor every key is. -/
def Below (cursor : Option α) (a : α) : Prop := ∀ b, cursor = some b → a < b

instance decidableBelow (cursor : Option α) (a : α) : Decidable (Below cursor a) :=
  match cursor with
  | none => isTrue fun _ h => by cases h
  | some b => decidable_of_iff (a < b) ⟨fun h _ hb => Option.some.inj hb ▸ h, fun h => h b rfl⟩

@[simp] theorem below_none (a : α) : Below none a := fun _ h => by cases h

@[simp] theorem below_some {a b : α} : Below (some b) a ↔ a < b :=
  ⟨fun h => h b rfl, fun h _ hb => Option.some.inj hb ▸ h⟩

theorem Below.trans_lt {cursor : Option α} {a b : α} (h : Below cursor b) (hab : a < b) :
    Below cursor a := fun c hc => hab.trans (h c hc)

/-- The keys below a cursor, from the greatest down. -/
def remaining (cursor : Option α) (keys : List α) : List α :=
  (keys.filter fun a => decide (Below cursor a)).insertionSort (· ≥ ·)

/-- **A page**: the first keys below the cursor, found with one more, and the next cursor. -/
def page (limit : Nat) (cursor : Option α) (keys : List α) : List α × Option α :=
  let found := (remaining cursor keys).take (limit + 1)
  (found.take limit, if limit < found.length then (found.take limit).getLast? else none)

theorem mem_remaining {cursor : Option α} {keys : List α} {a : α} :
    a ∈ remaining cursor keys ↔ a ∈ keys ∧ Below cursor a := by
  rw [remaining, List.mem_insertionSort, List.mem_filter, decide_eq_true_iff]

/-- What remains is listed from the greatest down, each key once. -/
theorem pairwise_remaining {cursor : Option α} {keys : List α} (hnodup : keys.Nodup) :
    (remaining cursor keys).Pairwise (· > ·) := by
  have hsorted : (remaining cursor keys).Pairwise (· ≥ ·) := List.pairwise_insertionSort _ _
  have hdistinct : (remaining cursor keys).Nodup :=
    (List.perm_insertionSort _ _).nodup_iff.mpr (hnodup.sublist List.filter_sublist)
  exact (hsorted.and hdistinct).imp fun h => lt_of_le_of_ne h.1 h.2.symm

theorem page_fst (limit : Nat) (cursor : Option α) (keys : List α) :
    (page limit cursor keys).1 = (remaining cursor keys).take limit := by
  rw [page, List.take_take, Nat.min_eq_left (Nat.le_succ limit)]

theorem page_snd (limit : Nat) (cursor : Option α) (keys : List α) :
    (page limit cursor keys).2 = if limit < (remaining cursor keys).length
      then ((remaining cursor keys).take limit).getLast? else none := by
  rw [page, List.take_take, Nat.min_eq_left (Nat.le_succ limit), List.length_take]
  refine if_congr ?_ rfl rfl
  omega

/-- What a sorted list has below one of its members is what stands behind it. -/
theorem remaining_of_split {cursor : Option α} {keys front back : List α} {c : α}
    (hnodup : keys.Nodup) (h : remaining cursor keys = front ++ c :: back) :
    remaining (some c) keys = back := by
  have hsorted : (remaining cursor keys).Pairwise (· > ·) := pairwise_remaining hnodup
  rw [h, List.pairwise_append, List.pairwise_cons] at hsorted
  obtain ⟨-, ⟨hbehind, hback⟩, hfront⟩ := hsorted
  have hmembers : ∀ a, a ∈ remaining (some c) keys ↔ a ∈ back := by
    intro a
    rw [mem_remaining, below_some]
    constructor
    · rintro ⟨ha, hless⟩
      have hcursor : Below cursor c :=
        (mem_remaining.mp (h ▸ List.mem_append_right _ List.mem_cons_self)).2
      have hlisted : a ∈ front ++ c :: back := h ▸ mem_remaining.mpr ⟨ha, hcursor.trans_lt hless⟩
      rcases List.mem_append.mp hlisted with hleft | hright
      · exact absurd hless (not_lt_of_gt (hfront a hleft c List.mem_cons_self))
      · exact (List.mem_cons.mp hright).resolve_left (ne_of_lt hless)
    · intro ha
      have hlisted : a ∈ remaining cursor keys :=
        h ▸ List.mem_append_right _ (List.mem_cons_of_mem _ ha)
      exact ⟨(mem_remaining.mp hlisted).1, hbehind a ha⟩
  refine List.Perm.eq_of_pairwise (fun a b _ _ hab hba => absurd hab (not_lt_of_gt hba))
    (pairwise_remaining hnodup) hback ?_
  exact (List.perm_ext_iff_of_nodup (pairwise_remaining hnodup).nodup hback.nodup).mpr hmembers

/-- **A page and what remains behind it** are what remained before it. -/
theorem page_append {limit : Nat} (hlimit : 0 < limit) (cursor : Option α) {keys : List α}
    (hnodup : keys.Nodup) :
    (page limit cursor keys).1 ++ ((page limit cursor keys).2.elim [] fun c =>
      remaining (some c) keys) = remaining cursor keys := by
  rw [page_fst, page_snd]
  split
  next hmore =>
    have hshown : (remaining cursor keys).take limit ≠ [] := by
      rw [ne_eq, List.take_eq_nil_iff, not_or]
      exact ⟨Nat.ne_of_gt hlimit, fun hnil => by rw [hnil] at hmore; exact Nat.not_lt_zero _ hmore⟩
    rw [List.getLast?_eq_some_getLast hshown, Option.elim_some]
    have hsplit : remaining cursor keys = ((remaining cursor keys).take limit).dropLast
        ++ ((remaining cursor keys).take limit).getLast hshown :: (remaining cursor keys).drop
          limit := by
      rw [List.append_cons, List.dropLast_append_getLast, List.take_append_drop]
    rw [remaining_of_split hnodup hsplit, List.take_append_drop]
  next hall => rw [Option.elim_none, List.append_nil, List.take_of_length_le (Nat.not_lt.mp hall)]

/-- **There is a next cursor exactly when something remains.** -/
theorem page_snd_eq_none_iff {limit : Nat} (hlimit : 0 < limit) (cursor : Option α)
    (keys : List α) :
    (page limit cursor keys).2 = none ↔ (page limit cursor keys).1 = remaining cursor keys := by
  rw [page_fst, page_snd]
  split
  next hmore =>
    rw [List.getLast?_eq_none_iff, List.take_eq_nil_iff]
    refine iff_of_false ?_ fun hall => ?_
    · rintro (hzero | hnil)
      · exact Nat.ne_of_gt hlimit hzero
      · rw [hnil] at hmore
        exact Nat.not_lt_zero _ hmore
    · have hlength := congrArg List.length hall
      rw [List.length_take] at hlength
      omega
  next hall => exact iff_of_true rfl (List.take_of_length_le (Nat.not_lt.mp hall))

/-- The next cursor is the least key of the page. -/
theorem mem_of_page_snd {limit : Nat} {cursor : Option α} {keys : List α} {c : α}
    (h : (page limit cursor keys).2 = some c) : c ∈ (page limit cursor keys).1 := by
  rw [page_snd] at h
  rw [page_fst]
  split at h
  · exact List.mem_of_getLast? h
  · cases h

theorem below_of_page {limit : Nat} {cursor : Option α} {keys : List α} {a : α}
    (h : a ∈ (page limit cursor keys).1) : Below cursor a ∧ a ∈ keys := by
  rw [page_fst] at h
  exact (mem_remaining.mp (List.mem_of_mem_take h)).symm

/-! ## Following the cursors -/

/-- One visit: the size of the page and the keys that are there. -/
structure Visit (α : Type*) where
  limit : Nat
  keys : List α

/-- **What following the cursors shows**, and the cursor that is left unless there is none. -/
def follow (cursor : Option α) : List (Visit α) → List α × Option (Option α)
  | [] => ([], some cursor)
  | visit :: visits =>
    match (page visit.limit cursor visit.keys).2 with
    | none => ((page visit.limit cursor visit.keys).1, none)
    | some c => ((page visit.limit cursor visit.keys).1 ++ (follow (some c) visits).1,
        (follow (some c) visits).2)

/-- Following from one visit: its page, and what the next cursor leads to. -/
theorem follow_cons (cursor : Option α) (visit : Visit α) (visits : List (Visit α)) :
    follow cursor (visit :: visits)
      = (page visit.limit cursor visit.keys).2.elim ((page visit.limit cursor visit.keys).1, none)
        fun c => ((page visit.limit cursor visit.keys).1 ++ (follow (some c) visits).1,
          (follow (some c) visits).2) := by
  rw [follow]
  split
  next h => rw [h, Option.elim_none]
  next c h => rw [h, Option.elim_some]

/-- Nothing above the start is shown. -/
theorem below_of_follow {cursor : Option α} {visits : List (Visit α)} {a : α}
    (h : a ∈ (follow cursor visits).1) : Below cursor a := by
  induction visits generalizing cursor with
  | nil => exact absurd h List.not_mem_nil
  | cons visit visits ih =>
    rw [follow_cons] at h
    cases hnext : (page visit.limit cursor visit.keys).2 with
    | none =>
      rw [hnext] at h
      exact (below_of_page h).1
    | some c =>
      rw [hnext, Option.elim_some] at h
      rcases List.mem_append.mp h with hshown | hlater
      · exact (below_of_page hshown).1
      · exact (below_of_page (mem_of_page_snd hnext)).1.trans_lt (below_some.mp (ih hlater))

/-- The next cursor is below everything else that the page shows. -/
theorem le_of_page_snd {limit : Nat} {cursor : Option α} {keys : List α} (hnodup : keys.Nodup)
    {a c : α} (h : (page limit cursor keys).2 = some c) (ha : a ∈ (page limit cursor keys).1) :
    c ≤ a := by
  have hsorted : (page limit cursor keys).1.Pairwise (· > ·) := by
    rw [page_fst]
    exact (pairwise_remaining hnodup).sublist (List.take_sublist _ _)
  have hlast : (page limit cursor keys).1.getLast? = some c := by
    rw [page_snd] at h
    rw [page_fst]
    split at h
    · exact h
    · cases h
  obtain ⟨front, hsplit⟩ := List.getLast?_eq_some_iff.mp hlast
  rw [hsplit] at hsorted ha
  rcases List.mem_append.mp ha with hfront | hc
  · exact (List.pairwise_append.mp hsorted).2.2 a hfront c List.mem_cons_self |>.le
  · exact (List.mem_singleton.mp hc).ge

/-- **Nothing is shown twice**, and everything from the greatest down, whatever comes and goes
between the visits. -/
theorem pairwise_follow {cursor : Option α} {visits : List (Visit α)}
    (hnodup : ∀ visit ∈ visits, visit.keys.Nodup) :
    (follow cursor visits).1.Pairwise (· > ·) := by
  induction visits generalizing cursor with
  | nil => exact List.Pairwise.nil
  | cons visit visits ih =>
    have hkeys := hnodup visit List.mem_cons_self
    have hpage : (page visit.limit cursor visit.keys).1.Pairwise (· > ·) := by
      rw [page_fst]
      exact (pairwise_remaining hkeys).sublist (List.take_sublist _ _)
    rw [follow_cons]
    cases hnext : (page visit.limit cursor visit.keys).2 with
    | none => exact hpage
    | some c =>
      refine List.pairwise_append.mpr ⟨hpage, ih fun w hw =>
        hnodup w (List.mem_cons_of_mem _ hw), ?_⟩
      intro a ha b hb
      exact lt_of_lt_of_le (below_some.mp (below_of_follow hb)) (le_of_page_snd hkeys hnext ha)

/-- **Nothing is lost**: what is there at every visit is shown, or is still below the cursor. -/
theorem shown_of_follow {cursor : Option α} {visits : List (Visit α)}
    (hvisits : ∀ visit ∈ visits, 0 < visit.limit ∧ visit.keys.Nodup) {a : α} (hstart : Below
      cursor a)
    (hthere : ∀ visit ∈ visits, a ∈ visit.keys) :
    a ∈ (follow cursor visits).1 ∨ ∃ c, (follow cursor visits).2 = some c ∧ Below c a := by
  induction visits generalizing cursor with
  | nil => exact Or.inr ⟨cursor, rfl, hstart⟩
  | cons visit visits ih =>
    obtain ⟨hlimit, hnodup⟩ := hvisits visit List.mem_cons_self
    have hremains : a ∈ remaining cursor visit.keys :=
      mem_remaining.mpr ⟨hthere visit List.mem_cons_self, hstart⟩
    rw [← page_append hlimit cursor hnodup] at hremains
    rw [follow_cons]
    cases hnext : (page visit.limit cursor visit.keys).2 with
    | none =>
      rw [hnext, Option.elim_none, List.append_nil] at hremains
      exact Or.inl hremains
    | some c =>
      rw [hnext, Option.elim_some] at hremains
      rcases List.mem_append.mp hremains with hshown | hbehind
      · exact Or.inl (List.mem_append_left _ hshown)
      · rcases ih (fun w hw => hvisits w (List.mem_cons_of_mem _ hw)) (mem_remaining.mp hbehind).2
          (fun w hw => hthere w (List.mem_cons_of_mem _ hw)) with hlater | hleft
        · exact Or.inl (List.mem_append_right _ hlater)
        · exact Or.inr hleft

/-- What remains depends on what is below the cursor only. -/
theorem remaining_congr {cursor : Option α} {keys keys' : List α} (hnodup : keys.Nodup)
    (hnodup' : keys'.Nodup) (h : ∀ a, Below cursor a → (a ∈ keys ↔ a ∈ keys')) :
    remaining cursor keys = remaining cursor keys' := by
  refine List.Perm.eq_of_pairwise (fun a b _ _ hab hba => absurd hab (not_lt_of_gt hba))
    (pairwise_remaining hnodup) (pairwise_remaining hnodup') ?_
  refine (List.perm_ext_iff_of_nodup (pairwise_remaining hnodup).nodup
    (pairwise_remaining hnodup').nodup).mpr fun a => ?_
  rw [mem_remaining, mem_remaining]
  exact ⟨fun ⟨ha, hbelow⟩ => ⟨(h a hbelow).mp ha, hbelow⟩,
    fun ⟨ha, hbelow⟩ => ⟨(h a hbelow).mpr ha, hbelow⟩⟩

/-- A page depends on what remains only. -/
theorem page_congr {limit : Nat} {cursor : Option α} {keys keys' : List α}
    (h : remaining cursor keys = remaining cursor keys') :
    page limit cursor keys = page limit cursor keys' := by
  unfold page
  rw [h]

/-- **Exactly what there was**: while nothing below the start comes or goes, what was shown and what
remains below the cursor are what remained at the start. -/
theorem follow_append {cursor : Option α} {keys : List α} (hnodup : keys.Nodup)
    {visits : List (Visit α)} (hvisits : ∀ visit ∈ visits, 0 < visit.limit ∧ visit.keys.Nodup)
    (hsame : ∀ visit ∈ visits, ∀ a, Below cursor a → (a ∈ visit.keys ↔ a ∈ keys)) :
    (follow cursor visits).1 ++ ((follow cursor visits).2.elim [] fun c => remaining c keys)
      = remaining cursor keys := by
  induction visits generalizing cursor with
  | nil => rfl
  | cons visit visits ih =>
    obtain ⟨hlimit, hkeys⟩ := hvisits visit List.mem_cons_self
    rw [follow_cons, page_congr (remaining_congr hkeys hnodup (hsame visit List.mem_cons_self))]
    have hpage := page_append hlimit cursor hnodup
    cases hnext : (page visit.limit cursor keys).2 with
    | none =>
      rw [hnext] at hpage
      exact hpage
    | some c =>
      rw [hnext, Option.elim_some] at hpage
      have hbelow : Below cursor c := (below_of_page (mem_of_page_snd hnext)).1
      rw [Option.elim_some, List.append_assoc,
        ih (fun w hw => hvisits w (List.mem_cons_of_mem _ hw)) fun w hw a ha =>
          hsame w (List.mem_cons_of_mem _ hw) a (hbelow.trans_lt (below_some.mp ha))]
      exact hpage

/-- **The cursors come to an end**: more visits than keys leave none. -/
theorem follow_finishes {cursor : Option α} {keys : List α} (hnodup : keys.Nodup)
    {visits : List (Visit α)} (hvisits : ∀ visit ∈ visits, 0 < visit.limit ∧ visit.keys.Nodup)
    (hsame : ∀ visit ∈ visits, ∀ a, Below cursor a → (a ∈ visit.keys ↔ a ∈ keys))
    (hmany : (remaining cursor keys).length < visits.length) :
    (follow cursor visits).2 = none := by
  induction visits generalizing cursor with
  | nil => exact absurd hmany (Nat.not_lt_zero _)
  | cons visit visits ih =>
    obtain ⟨hlimit, hkeys⟩ := hvisits visit List.mem_cons_self
    rw [follow_cons, page_congr (remaining_congr hkeys hnodup (hsame visit List.mem_cons_self))]
    have hpage := page_append hlimit cursor hnodup
    cases hnext : (page visit.limit cursor keys).2 with
    | none => rfl
    | some c =>
      rw [hnext, Option.elim_some] at hpage
      have hbelow : Below cursor c := (below_of_page (mem_of_page_snd hnext)).1
      have hshown : 0 < (page visit.limit cursor keys).1.length :=
        List.length_pos_of_mem (mem_of_page_snd hnext)
      refine ih (fun w hw => hvisits w (List.mem_cons_of_mem _ hw)) (fun w hw a ha =>
        hsame w (List.mem_cons_of_mem _ hw) a (hbelow.trans_lt (below_some.mp ha))) ?_
      have hlength := congrArg List.length hpage
      rw [List.length_append] at hlength
      rw [List.length_cons] at hmany
      omega

end Paging

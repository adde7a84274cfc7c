import Mathlib.Data.List.Dedup
import Mathlib.Logic.Relation

/-! # Reachability over a finite list of edges

A recursive query computes everything reachable from some seeds in rounds: each round takes the
children of the rows found in the previous round, drops those already found and appends the rest,
until a round finds nothing (`iterate`). A round that finds something shortens the list of edges that
still lead outside, so one round per edge is enough (`closure`).

The result is exact (`mem_closure`): an element is returned iff a path leads to it from a seed. -/

namespace Reach

variable {α : Type*} [DecidableEq α]

/-- One edge from a parent to a child. -/
def Edge (edges : List (α × α)) (parent child : α) : Prop := (parent, child) ∈ edges

instance (edges : List (α × α)) (parent child : α) : Decidable (Edge edges parent child) :=
  inferInstanceAs (Decidable (_ ∈ _))

/-- The children of the working rows that were not seen before, each once. -/
def fresh (edges : List (α × α)) (working seen : List α) : List α :=
  (((edges.filter fun e => e.1 ∈ working).map Prod.snd).dedup).filter fun x => x ∉ seen

/-- Rounds of the recursive query, at most `fuel` many. -/
def iterate (edges : List (α × α)) : Nat → List α → List α → List α
  | 0, _, seen => seen
  | fuel + 1, working, seen =>
    iterate edges fuel (fresh edges working seen) (seen ++ fresh edges working seen)

/-- **Everything reachable from the seeds**, seeds first. -/
def closure (edges : List (α × α)) (seeds : List α) : List α :=
  iterate edges (edges.length + 1) seeds.dedup seeds.dedup

theorem mem_fresh {edges : List (α × α)} {working seen : List α} {x : α} :
    x ∈ fresh edges working seen ↔ (∃ c ∈ working, Edge edges c x) ∧ x ∉ seen := by
  simp only [fresh, List.mem_filter, List.mem_dedup, List.mem_map, Prod.exists,
    decide_eq_true_eq]
  constructor
  · rintro ⟨⟨c, y, ⟨hmem, hc⟩, rfl⟩, hx⟩
    exact ⟨⟨c, hc, hmem⟩, hx⟩
  · rintro ⟨⟨c, hc, hmem⟩, hx⟩
    exact ⟨⟨c, x, ⟨hmem, hc⟩, rfl⟩, hx⟩

theorem nodup_fresh (edges : List (α × α)) (working seen : List α) :
    (fresh edges working seen).Nodup := (List.nodup_dedup _).filter _

theorem iterate_fresh_nil (edges : List (α × α)) (fuel : Nat) (seen : List α) :
    iterate edges fuel [] seen = seen := by
  induction fuel with
  | zero => rfl
  | succ fuel ih =>
    have hfresh : fresh edges [] seen = [] := by simp [fresh]
    rw [iterate, hfresh, List.append_nil, ih]

/-- Every round keeps what was found before. -/
theorem subset_iterate (edges : List (α × α)) (fuel : Nat) (working seen : List α) :
    seen ⊆ iterate edges fuel working seen := by
  induction fuel generalizing working seen with
  | zero => exact List.Subset.refl _
  | succ fuel ih => exact List.Subset.trans (List.subset_append_left _ _) (ih _ _)

/-- Rows are returned once. -/
theorem nodup_iterate (edges : List (α × α)) (fuel : Nat) (working seen : List α)
    (h : seen.Nodup) : (iterate edges fuel working seen).Nodup := by
  induction fuel generalizing working seen with
  | zero => exact h
  | succ fuel ih =>
    refine ih _ _ (List.nodup_append'.mpr ⟨h, nodup_fresh _ _ _, fun x hx hfresh => ?_⟩)
    exact (mem_fresh.mp hfresh).2 hx

/-- Rounds follow edges only: what all edges preserve holds of every row found. -/
theorem iterate_induction {edges : List (α × α)} {P : α → Prop}
    (hedge : ∀ a b, Edge edges a b → P a → P b) (fuel : Nat) (working seen : List α)
    (hworking : working ⊆ seen) (hseen : ∀ x ∈ seen, P x) :
    ∀ x ∈ iterate edges fuel working seen, P x := by
  induction fuel generalizing working seen with
  | zero => exact hseen
  | succ fuel ih =>
    refine ih _ _ (List.subset_append_right _ _) fun x hx => ?_
    rcases List.mem_append.mp hx with hx | hx
    · exact hseen x hx
    · obtain ⟨⟨c, hc, hcx⟩, -⟩ := mem_fresh.mp hx
      exact hedge c x hcx (hseen c (hworking hc))

/-- The edges that still lead outside `seen`. -/
def outgoing (edges : List (α × α)) (seen : List α) : List (α × α) :=
  edges.filter fun e => e.2 ∉ seen

/-- A round that finds something leaves fewer outgoing edges. -/
theorem outgoing_append_lt {edges : List (α × α)} {working seen : List α}
    (h : fresh edges working seen ≠ []) :
    (outgoing edges (seen ++ fresh edges working seen)).length < (outgoing edges seen).length := by
  obtain ⟨x, hx⟩ := List.exists_mem_of_ne_nil _ h
  obtain ⟨⟨c, -, hcx⟩, hseen⟩ := mem_fresh.mp hx
  have hsplit : outgoing edges (seen ++ fresh edges working seen)
      = (outgoing edges seen).filter fun e => e.2 ∉ fresh edges working seen := by
    simp only [outgoing, List.filter_filter, List.mem_append, not_or, Bool.decide_and]
    refine List.filter_congr fun e _ => ?_
    rw [Bool.and_comm]
  rw [hsplit]
  refine List.length_filter_lt_length_iff_exists.mpr ⟨(c, x), ?_, ?_⟩
  · exact List.mem_filter.mpr ⟨hcx, by simpa using hseen⟩
  · simpa using hx

/-- **With enough rounds nothing outside is left to find**, provided only working rows may still
have unseen children. -/
theorem iterate_closed {edges : List (α × α)} (fuel : Nat) (working seen : List α)
    (hfuel : (outgoing edges seen).length < fuel)
    (hdone : ∀ a ∈ seen, a ∉ working → ∀ b, Edge edges a b → b ∈ seen) :
    ∀ a ∈ iterate edges fuel working seen, ∀ b, Edge edges a b →
      b ∈ iterate edges fuel working seen := by
  induction fuel generalizing working seen with
  | zero => exact absurd hfuel (Nat.not_lt_zero _)
  | succ fuel ih =>
    have hround : ∀ a ∈ seen ++ fresh edges working seen, a ∉ fresh edges working seen →
        ∀ b, Edge edges a b → b ∈ seen ++ fresh edges working seen := by
      intro a ha hnew b hab
      have haseen : a ∈ seen := (List.mem_append.mp ha).resolve_right hnew
      by_cases hb : b ∈ seen
      · exact List.mem_append_left _ hb
      · by_cases hwork : a ∈ working
        · exact List.mem_append_right _ (mem_fresh.mpr ⟨⟨a, hwork, hab⟩, hb⟩)
        · exact absurd (hdone a haseen hwork b hab) hb
    rw [iterate]
    by_cases hnil : fresh edges working seen = []
    · rw [hnil, List.append_nil] at hround ⊢
      rw [iterate_fresh_nil]
      exact fun a ha b hab => hround a ha List.not_mem_nil b hab
    · exact ih _ _ (Nat.lt_of_lt_of_le (outgoing_append_lt hnil) (Nat.lt_succ_iff.mp hfuel)) hround

/-! ## The closure -/

theorem subset_closure (edges : List (α × α)) (seeds : List α) : seeds ⊆ closure edges seeds :=
  fun _ hx => subset_iterate _ _ _ _ (List.mem_dedup.mpr hx)

theorem nodup_closure (edges : List (α × α)) (seeds : List α) : (closure edges seeds).Nodup :=
  nodup_iterate _ _ _ _ (List.nodup_dedup seeds)

/-- **The closure is closed** under every edge. -/
theorem closure_closed {edges : List (α × α)} {seeds : List α} {a b : α}
    (ha : a ∈ closure edges seeds) (hab : Edge edges a b) : b ∈ closure edges seeds := by
  refine iterate_closed _ _ _ (Nat.lt_succ_of_le (List.length_filter_le _ _)) ?_ a ha b hab
  exact fun a ha hnot => absurd ha hnot

/-- **Induction over the closure**: what the seeds have and every edge preserves. -/
theorem closure_induction {edges : List (α × α)} {seeds : List α} {P : α → Prop}
    (hseed : ∀ x ∈ seeds, P x) (hedge : ∀ a b, Edge edges a b → P a → P b) :
    ∀ x ∈ closure edges seeds, P x :=
  iterate_induction hedge _ _ _ (List.Subset.refl _) fun x hx => hseed x (List.mem_dedup.mp hx)

/-- **The closure is exact**: it holds what a path of edges reaches from a seed. -/
theorem mem_closure {edges : List (α × α)} {seeds : List α} {x : α} :
    x ∈ closure edges seeds ↔ ∃ s ∈ seeds, Relation.ReflTransGen (Edge edges) s x := by
  constructor
  · refine closure_induction (P := fun x => ∃ s ∈ seeds, Relation.ReflTransGen (Edge edges) s x)
      (fun x hx => ⟨x, hx, .refl⟩) ?_ x
    rintro a b hab ⟨s, hs, hsa⟩
    exact ⟨s, hs, hsa.tail hab⟩
  · rintro ⟨s, hs, hsx⟩
    induction hsx with
    | refl => exact subset_closure edges seeds hs
    | tail _ hab ih => exact closure_closed ih hab

end Reach

import Mathlib.Data.Nat.Find
import Mathlib.Order.Lattice

/-! # Chains of versions

Versions numbered from one without a gap, each in force over a half-open interval: a version ends where
its successor begins, and the last one is open (`Chain`). So their starts increase with their numbers
(`Chain.start_lt`), their intervals are disjoint (`Chain.disjoint`), and from the first start on exactly
one version is in force at any instant (`Chain.existsUnique`). A chain grows by closing its last version
where a new one begins (`Chain.extend`). -/

namespace Versions

universe u v

variable {ρ : Type u} {τ : Type v}

/-- What is numbered and dated: the number of a version, its start, and its end unless it is open. -/
structure Dating (ρ : Type u) (τ : Type v) where
  number : ρ → Nat
  start : ρ → τ
  stop : ρ → Option τ

/-- A version is **in force** from its start until before its end. -/
def Dating.InForce [LinearOrder τ] (d : Dating ρ τ) (r : ρ) (t : τ) : Prop :=
  d.start r ≤ t ∧ ∀ u, d.stop r = some u → t < u

/-- **A chain** of versions `1, …, n`. -/
structure Chain [LinearOrder τ] (d : Dating ρ τ) (rows : Set ρ) (n : Nat) : Prop where
  numbered : ∀ k, (∃ r ∈ rows, d.number r = k) ↔ 1 ≤ k ∧ k ≤ n
  unique : ∀ r ∈ rows, ∀ r' ∈ rows, d.number r = d.number r' → r = r'
  /-- A version ends where the next one begins. -/
  next : ∀ r ∈ rows, ∀ r' ∈ rows, d.number r' = d.number r + 1 → d.stop r = some (d.start r')
  nonempty : ∀ r ∈ rows, ∀ t, d.stop r = some t → d.start r < t
  /-- Exactly the last version is open. -/
  last : ∀ r ∈ rows, d.stop r = none ↔ d.number r = n

namespace Chain

variable [LinearOrder τ] {d : Dating ρ τ} {rows : Set ρ} {n : Nat}

theorem bounds (h : Chain d rows n) {r : ρ} (hr : r ∈ rows) : 1 ≤ d.number r ∧ d.number r ≤ n :=
  (h.numbered _).mp ⟨r, hr, rfl⟩

/-- The version after one that is not the last. -/
theorem exists_next (h : Chain d rows n) {r : ρ} (hr : r ∈ rows) (hn : d.number r < n) :
    ∃ r' ∈ rows, d.number r' = d.number r + 1 ∧ d.start r < d.start r' := by
  obtain ⟨r', hr', hnumber⟩ := (h.numbered (d.number r + 1)).mpr ⟨Nat.le_add_left 1 _, hn⟩
  exact ⟨r', hr', hnumber, h.nonempty r hr _ (h.next r hr r' hr' hnumber)⟩

/-- **Later versions start later.** -/
theorem start_lt (h : Chain d rows n) {r r' : ρ} (hr : r ∈ rows) (hr' : r' ∈ rows)
    (hlt : d.number r < d.number r') : d.start r < d.start r' := by
  -- by induction on the distance, stepping from the earlier version to its successor
  obtain ⟨k, hk⟩ := Nat.exists_eq_add_of_lt hlt
  induction k generalizing r with
  | zero =>
    have hnext : d.number r' = d.number r + 1 := by omega
    exact h.nonempty r hr _ (h.next r hr r' hr' hnext)
  | succ k ih =>
    have hbound := (h.bounds hr').2
    obtain ⟨r₁, hr₁, hnumber, hstart⟩ := h.exists_next hr (by omega)
    exact lt_trans hstart (ih hr₁ (by omega) (by omega))

/-- A version that is not the last has ended when a later one starts. -/
theorem stop_le (h : Chain d rows n) {r r' : ρ} (hr : r ∈ rows) (hr' : r' ∈ rows)
    (hlt : d.number r < d.number r') : ∃ t, d.stop r = some t ∧ t ≤ d.start r' := by
  have hbound := (h.bounds hr').2
  obtain ⟨r₁, hr₁, hnumber, -⟩ := h.exists_next hr (by omega)
  refine ⟨_, h.next r hr r₁ hr₁ hnumber, ?_⟩
  by_cases heq : d.number r₁ = d.number r'
  · rw [h.unique r₁ hr₁ r' hr' heq]
  · exact le_of_lt (h.start_lt hr₁ hr' (by omega))

/-- **Intervals are disjoint.** -/
theorem disjoint (h : Chain d rows n) {r r' : ρ} (hr : r ∈ rows) (hr' : r' ∈ rows) {t : τ}
    (ht : d.InForce r t) (ht' : d.InForce r' t) : r = r' := by
  have hnot : ∀ {a b : ρ}, a ∈ rows → b ∈ rows → d.InForce a t → d.InForce b t →
      ¬ d.number a < d.number b := by
    intro a b ha hb hat hbt hlt
    obtain ⟨u, hstop, hle⟩ := h.stop_le ha hb hlt
    exact absurd (lt_of_lt_of_le (hat.2 u hstop) hle) (not_lt_of_ge hbt.1)
  refine h.unique r hr r' hr' ?_
  have hle := hnot hr hr' ht ht'
  have hge := hnot hr' hr ht' ht
  omega

/-- **Exactly one version is in force** at every instant from the first start on. -/
theorem existsUnique (h : Chain d rows n) {first : ρ} (hfirst : first ∈ rows)
    (hone : d.number first = 1) {t : τ} (ht : d.start first ≤ t) :
    ∃! r, r ∈ rows ∧ d.InForce r t := by
  classical
  -- the last version that has started
  let P : Nat → Prop := fun k => ∃ r ∈ rows, d.number r = k ∧ d.start r ≤ t
  have hP : P 1 := ⟨first, hfirst, hone, ht⟩
  have hbound := (h.bounds hfirst).2
  obtain ⟨r, hr, hnumber, hstart⟩ : P (Nat.findGreatest P n) :=
    Nat.findGreatest_spec (by omega) hP
  have hended : ∀ u, d.stop r = some u → t < u := by
    intro u hu
    have hlast : d.number r ≠ n := by
      intro heq
      rw [(h.last r hr).mpr heq] at hu
      cases hu
    have hle := (h.bounds hr).2
    obtain ⟨r₁, hr₁, hnumber₁, -⟩ := h.exists_next hr (by omega)
    by_contra hge
    have hstop := h.next r hr r₁ hr₁ hnumber₁
    rw [hu, Option.some_inj] at hstop
    have hgreater : P (d.number r + 1) := ⟨r₁, hr₁, hnumber₁, hstop ▸ le_of_not_gt hge⟩
    have hgreatest := Nat.le_findGreatest (hnumber₁ ▸ (h.bounds hr₁).2) hgreater
    omega
  exact ⟨r, ⟨hr, hstart, hended⟩, fun r' hr' => h.disjoint hr'.1 hr hr'.2 ⟨hstart, hended⟩⟩

/-- A single open version is a chain. -/
theorem single {r : ρ} (hone : d.number r = 1) (hopen : d.stop r = none) : Chain d {r} 1 where
  numbered k := by
    constructor
    · rintro ⟨r', rfl, rfl⟩
      omega
    · intro hk
      exact ⟨r, rfl, by omega⟩
  unique := by
    rintro a rfl b rfl -
    rfl
  next := by
    rintro a rfl b rfl hnumber
    omega
  nonempty := by
    rintro a rfl t ht
    rw [hopen] at ht
    cases ht
  last := by
    rintro a rfl
    exact iff_of_true hopen hone

/-- **A chain grows**: its last version ends where a new one, of the next number, begins. -/
theorem extend (h : Chain d rows n) {rows' : Set ρ} {r₀ : ρ} {c : ρ → ρ}
    (hnumber : ∀ r, d.number (c r) = d.number r) (hstart : ∀ r, d.start (c r) = d.start r)
    (hstop : ∀ r, d.stop (c r) = some (d.start r₀))
    (hnew : d.number r₀ = n + 1) (hopen : d.stop r₀ = none)
    (hlater : ∀ r ∈ rows, d.number r = n → d.start r < d.start r₀)
    (hrows : ∀ r', r' ∈ rows' ↔ r' = r₀ ∨ ∃ r ∈ rows, r' = if d.number r = n then c r else r) :
    Chain d rows' (n + 1) := by
  -- every old version is there under its number and start, and closed
  have hold : ∀ r' ∈ rows', r' ≠ r₀ → ∃ r ∈ rows, r' = (if d.number r = n then c r else r)
      ∧ d.number r' = d.number r ∧ d.start r' = d.start r := by
    intro r' hr' hne
    obtain ⟨r, hr, rfl⟩ := ((hrows r').mp hr').resolve_left hne
    refine ⟨r, hr, rfl, ?_, ?_⟩
    · split
      · exact hnumber r
      · rfl
    · split
      · exact hstart r
      · rfl
  have hle : ∀ r' ∈ rows', r' ≠ r₀ → d.number r' ≤ n := by
    intro r' hr' hne
    obtain ⟨r, hr, -, heq, -⟩ := hold r' hr' hne
    exact heq ▸ (h.bounds hr).2
  constructor
  · intro k
    constructor
    · rintro ⟨r', hr', rfl⟩
      by_cases hne : r' = r₀
      · subst hne
        omega
      · obtain ⟨r, hr, -, heq, -⟩ := hold r' hr' hne
        have := h.bounds hr
        omega
    · rintro ⟨hone, hk⟩
      by_cases hkn : k ≤ n
      · obtain ⟨r, hr, rfl⟩ := (h.numbered k).mpr ⟨hone, hkn⟩
        refine ⟨_, (hrows _).mpr (Or.inr ⟨r, hr, rfl⟩), ?_⟩
        split
        · exact hnumber r
        · rfl
      · exact ⟨r₀, (hrows r₀).mpr (Or.inl rfl), by omega⟩
  · intro a ha b hb heq
    by_cases hane : a = r₀ <;> by_cases hbne : b = r₀
    · rw [hane, hbne]
    · have := hle b hb hbne
      rw [hane] at heq
      omega
    · have := hle a ha hane
      rw [hbne] at heq
      omega
    · obtain ⟨r, hr, rfl, hra, -⟩ := hold a ha hane
      obtain ⟨r', hr', rfl, hrb, -⟩ := hold b hb hbne
      rw [h.unique r hr r' hr' (by omega)]
  · intro a ha b hb hsucc
    have hane : a ≠ r₀ := by
      rintro rfl
      by_cases hbne : b = a
      · rw [hbne] at hsucc
        omega
      · have := hle b hb hbne
        omega
    obtain ⟨r, hr, rfl, hra, -⟩ := hold a ha hane
    by_cases hbne : b = r₀
    · subst hbne
      rw [if_pos (by omega)]
      exact hstop r
    · obtain ⟨r', hr', rfl, hrb, hsb⟩ := hold b hb hbne
      have hbound := (h.bounds hr').2
      rw [if_neg (by omega), hsb]
      exact h.next r hr r' hr' (by omega)
  · intro a ha t ht
    have hane : a ≠ r₀ := by
      rintro rfl
      rw [hopen] at ht
      cases ht
    obtain ⟨r, hr, rfl, -, -⟩ := hold a ha hane
    split at ht
    next hlast =>
      rw [hstop, Option.some_inj] at ht
      rw [if_pos hlast, hstart, ← ht]
      exact hlater r hr hlast
    next hlast =>
      rw [if_neg hlast]
      exact h.nonempty r hr t ht
  · intro a ha
    by_cases hane : a = r₀
    · subst hane
      exact iff_of_true hopen hnew
    · have hbound := hle a ha hane
      refine iff_of_false ?_ (by omega)
      obtain ⟨r, hr, rfl, -, -⟩ := hold a ha hane
      split
      next =>
        rw [hstop]
        exact Option.some_ne_none _
      next hlast =>
        exact fun hnone => hlast ((h.last r hr).mp hnone)

end Chain

end Versions

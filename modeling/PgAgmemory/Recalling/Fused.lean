import PgAgmemory.Library.Fusion
import PgAgmemory.Recalling.Lexical

/-! # Fused recall

With a vector, a recall ranks by distance, or fuses that order with the text order: the rows come by
the sum of the reciprocals of their places. -/

namespace PgAgmemory

open Fusion (Better NoWorse place weight)

/-! ## The orders -/

/-- `ORDER BY vector_distance, id` is total. -/
instance total_nearer : Std.Total nearer where
  total a b := by
    unfold nearer
    grind

/-- `ORDER BY vector_distance, id` is transitive. -/
instance trans_nearer : IsTrans (Candidate × Rat) nearer where
  trans a b c := by
    unfold nearer
    grind

/-- `ORDER BY fusion_score DESC, id` is total. -/
instance total_fusedBefore : Std.Total Ranked.fusedBefore where
  total a b := by
    unfold Ranked.fusedBefore
    grind

/-- `ORDER BY fusion_score DESC, id` is transitive. -/
instance trans_fusedBefore : IsTrans Ranked Ranked.fusedBefore where
  trans a b c := by
    unfold Ranked.fusedBefore
    grind

/-- **The text order** of some candidates: those that match a text, by rank, newest first, by id. -/
structure TextOrder (platform : Platform) (text : String) (candidates : List Candidate)
    (texts : List Ranked) : Prop where
  members : (texts.map Ranked.candidate).Perm (candidates.filter fun c => c.matches platform text)
  ranks : ∀ row ∈ texts, row.rank = row.candidate.textRank platform text
  ordered : texts.Pairwise Ranked.lexicalBefore

/-- **The distance order** of some candidates: those with an embedding, nearest first, by id. -/
structure DistanceOrder (platform : Platform) (vector : Embedding) (candidates : List Candidate)
    (nearest : List (Candidate × Rat)) : Prop where
  members : nearest.Perm (candidates.filterMap fun c => c.embedding.map fun e =>
    (c, platform.distance e vector))
  ordered : nearest.Pairwise nearer

/-- **The fused order** of some candidates by two orders. -/
structure FusedOrder (candidates texts nearest : List Candidate) (fused : List Ranked) : Prop where
  /-- What has a place in one of the orders appears, and appears once. -/
  members : (fused.map Ranked.candidate).Perm
    (candidates.filter fun c => decide (c ∈ texts ∨ c ∈ nearest))
  once : (fused.map fun row => row.candidate.id).Nodup
  lexicalRank : ∀ row ∈ fused, row.lexicalRank = place texts row.candidate
  vectorRank : ∀ row ∈ fused, row.vectorRank = place nearest row.candidate
  /-- What is no worse in both orders and better in one comes first. -/
  dominates : ∀ a ∈ fused, ∀ b ∈ fused, NoWorse a.lexicalRank b.lexicalRank →
    NoWorse a.vectorRank b.vectorRank →
      Better a.lexicalRank b.lexicalRank ∨ Better a.vectorRank b.vectorRank → [a, b].Sublist fused
  /-- A score is the sum of the reciprocals of the places, from 61 on. -/
  scores : ∀ row ∈ fused, row.fusionScore = weight 60 row.lexicalRank + weight 60 row.vectorRank
  /-- A higher score comes first, and a smaller id among equal scores. -/
  ordered : fused.Pairwise Ranked.fusedBefore

section Orders

variable {platform : Platform} {text : String} {candidates : List Candidate} {vector : Embedding}

/-- The text ranking is the text order. -/
theorem textOrder_rankByText :
    TextOrder platform text candidates (rankByText platform false text candidates) := by
  refine ⟨?_, ?_, List.pairwise_insertionSort _ _⟩
  · unfold rankByText
    refine ((List.perm_insertionSort _ _).map _).trans (List.Perm.of_eq ?_)
    rw [List.map_map]
    exact List.map_id _
  · intro row hrow
    obtain ⟨c, -, rfl⟩ := List.mem_map.mp ((List.mem_insertionSort _).mp hrow)
    rfl

/-- The distance ranking is the distance order. -/
theorem distanceOrder_rankByDistance :
    DistanceOrder platform vector candidates (rankByDistance platform vector candidates) :=
  ⟨List.perm_insertionSort _ _, List.pairwise_insertionSort _ _⟩

/-- The candidates of the distance order are those with an embedding. -/
theorem DistanceOrder.embedded {nearest : List (Candidate × Rat)}
    (h : DistanceOrder platform vector candidates nearest) :
    (nearest.map Prod.fst).Perm (candidates.filter fun c => c.embedding.isSome) := by
  refine (h.members.map _).trans (List.Perm.of_eq ?_)
  rw [List.map_filterMap, ← List.filterMap_eq_filter]
  refine List.filterMap_congr fun c _ => ?_
  cases hembedding : c.embedding with
  | none => simp only [Option.map_none, Option.guard, hembedding, Option.isSome_none,
      Bool.false_eq_true, if_false]
  | some e => simp only [Option.map_some, Option.guard, hembedding, Option.isSome_some, if_true]

/-- Candidates with distinct ids are told apart by id and revision. -/
theorem place_candidates {xs : List Candidate} {c : Candidate}
    (hnodup : (candidates.map Candidate.id).Nodup)
    (hxs : ∀ b ∈ xs, b ∈ candidates) (hc : c ∈ candidates) :
    place (xs.map fun b => (b.id, b.revision)) (c.id, c.revision) = place xs c := by
  refine Fusion.place_map fun b hb heq => ?_
  exact List.inj_on_of_nodup_map hnodup (hxs b hb) hc (Prod.mk.inj heq).1

/-! ## The fused rows -/

/-- A fused row, by the places of its candidate in two orders. -/
def fusedRow (platform : Platform) (vector : Embedding) (texts nearest : List Candidate)
    (c : Candidate) :
    Ranked where
  candidate := c
  rank := 0
  lexicalRank := place texts c
  vectorRank := place nearest c
  vectorDistance := c.embedding.map fun e => platform.distance e vector
  fusionScore := weight 60 (place texts c) + weight 60 (place nearest c)

/-- The candidates of the text ranking of a recall; without a text there are none. -/
def textOrder (platform : Platform) (mode : RetrievalMode) (text : String)
    (candidates : List Candidate) : List Candidate :=
  if mode = .hybrid then (rankByText platform false text candidates).map Ranked.candidate else []

/-- The candidates of the distance ranking of a recall. -/
def nearestOrder (platform : Platform) (vector : Embedding) (candidates : List Candidate) :
    List Candidate := (rankByDistance platform vector candidates).map Prod.fst

theorem mem_textOrder {mode : RetrievalMode} {c : Candidate}
    (h : c ∈ textOrder platform mode text candidates) : c ∈ candidates := by
  unfold textOrder at h
  split at h
  next => exact (List.mem_filter.mp (textOrder_rankByText.members.mem_iff.mp h)).1
  next => exact absurd h List.not_mem_nil

theorem mem_nearestOrder {c : Candidate} :
    c ∈ nearestOrder platform vector candidates ↔ c ∈ candidates ∧ c.embedding.isSome = true :=
  distanceOrder_rankByDistance.embedded.mem_iff.trans List.mem_filter

theorem nodup_nearestOrder (hnodup : candidates.Nodup) :
    (nearestOrder platform vector candidates).Nodup :=
  distanceOrder_rankByDistance.embedded.nodup_iff.mpr (hnodup.sublist List.filter_sublist)

/-- **The fused ranking**, as the fused rows in order. -/
theorem rankFused_eq {mode : RetrievalMode} (hnodup : (candidates.map Candidate.id).Nodup) :
    rankFused platform mode text vector candidates
      = (((candidates.map (fusedRow platform vector (textOrder platform mode text candidates)
          (nearestOrder platform vector candidates))).filter fun r =>
            r.lexicalRank.isSome || r.vectorRank.isSome).insertionSort Ranked.fusedBefore) := by
  unfold rankFused
  refine congrArg (List.insertionSort Ranked.fusedBefore) (congrArg _ (List.map_congr_left ?_))
  intro c hc
  have htexts : placeOf (fun r : Ranked => (r.candidate.id, r.candidate.revision))
      (if mode = .hybrid then rankByText platform false text candidates else []) c
        = place (textOrder platform mode text candidates) c := by
    rw [← place_candidates hnodup (fun b hb => mem_textOrder hb) hc]
    unfold textOrder
    split
    next =>
      rw [List.map_map]
      rfl
    next => rfl
  have hnearest : placeOf (fun p : Candidate × Rat => (p.1.id, p.1.revision))
      (rankByDistance platform vector candidates) c
        = place (nearestOrder platform vector candidates) c := by
    rw [← place_candidates hnodup (fun b hb => (mem_nearestOrder.mp hb).1) hc, nearestOrder,
      List.map_map]
    rfl
  simp only [htexts, hnearest]
  rfl

/-- A row of the fused ranking is that of its candidate. -/
theorem row_of_rankFused {mode : RetrievalMode} (hnodup : (candidates.map Candidate.id).Nodup)
    {row : Ranked} (h : row ∈ rankFused platform mode text vector candidates) :
    row = fusedRow platform vector (textOrder platform mode text candidates)
      (nearestOrder platform vector candidates) row.candidate := by
  rw [rankFused_eq hnodup, List.mem_insertionSort] at h
  obtain ⟨c, -, rfl⟩ := List.mem_map.mp (List.mem_filter.mp h).1
  rfl

/-- **The fused ranking is the fused order** of the text order and the distance order. -/
theorem fusedOrder_rankFused (platform : Platform) (mode : RetrievalMode) (text : String)
    (vector : Embedding) (hnodup : (candidates.map Candidate.id).Nodup) :
    FusedOrder candidates (textOrder platform mode text candidates)
      (nearestOrder platform vector candidates)
      (rankFused platform mode text vector candidates) := by
  have hmembers : ((rankFused platform mode text vector candidates).map Ranked.candidate).Perm
      (candidates.filter fun c => decide (c ∈ textOrder platform mode text candidates
        ∨ c ∈ nearestOrder platform vector candidates)) := by
    rw [rankFused_eq hnodup]
    refine ((List.perm_insertionSort _ _).map _).trans (List.Perm.of_eq ?_)
    rw [List.filter_map, List.map_map]
    refine (List.map_id _).trans (List.filter_congr fun c _ => ?_)
    rw [Bool.eq_iff_iff, Function.comp_apply, Bool.or_eq_true, decide_eq_true_iff]
    exact or_congr Fusion.place_isSome Fusion.place_isSome
  have hordered : (rankFused platform mode text vector candidates).Pairwise Ranked.fusedBefore :=
    List.pairwise_insertionSort _ _
  have hrow := fun {row : Ranked} (h : row ∈ rankFused platform mode text vector candidates) =>
    row_of_rankFused hnodup h
  refine {
    members := hmembers
    once := ?_
    lexicalRank := fun row h => congrArg Ranked.lexicalRank (hrow h)
    vectorRank := fun row h => congrArg Ranked.vectorRank (hrow h)
    dominates := ?_
    scores := ?_
    ordered := hordered }
  · have hids := (hmembers.map Candidate.id).nodup_iff.mpr
      (hnodup.sublist (List.filter_sublist.map _))
    rw [List.map_map] at hids
    exact hids
  · intro a ha b hb hlexical hvector hbetter
    have hscore := Fusion.score_lt 60 (by decide) hlexical hvector hbetter
    have hless : b.fusionScore < a.fusionScore := by
      rw [hrow ha, hrow hb] at hscore ⊢
      exact hscore
    refine Fusion.pair_sublist hordered ha hb (fun heq => ?_) ?_
    · rw [heq] at hless
      exact lt_irrefl _ hless
    · rintro (hbefore | ⟨heq, -⟩)
      · exact lt_asymm hless hbefore
      · exact hless.ne heq
  · intro row h
    rw [hrow h]
    rfl

/-- **Without a text the fused order is the distance order.** -/
theorem candidates_rankFused_vector (text : String) (hnodup : (candidates.map Candidate.id).Nodup) :
    (rankFused platform .vector text vector candidates).map Ranked.candidate
      = nearestOrder platform vector candidates := by
  have hfused := fusedOrder_rankFused platform .vector text vector hnodup
  have hnone : ∀ c, place (textOrder platform .vector text candidates) c = none := fun c => rfl
  refine Fusion.eq_of_weights 60 (by decide) (nodup_nearestOrder hnodup.of_map) ?_ ?_
  · refine hfused.members.trans (List.Perm.trans (List.Perm.of_eq ?_)
      distanceOrder_rankByDistance.embedded.symm)
    refine List.filter_congr fun c hc => ?_
    rw [Bool.eq_iff_iff, decide_eq_true_iff, mem_nearestOrder]
    exact ⟨fun h => (h.resolve_left List.not_mem_nil).2, fun h => Or.inr ⟨hc, h⟩⟩
  · refine List.pairwise_map.mpr (hfused.ordered.imp_of_mem fun {a b} ha hb hbefore => ?_)
    have hscore : ∀ {row : Ranked}, row ∈ rankFused platform .vector text vector candidates →
        row.fusionScore = weight 60 (place (nearestOrder platform vector candidates)
          row.candidate) := by
      intro row h
      rw [hfused.scores row h, hfused.lexicalRank row h, hfused.vectorRank row h, hnone]
      exact zero_add _
    rw [← hscore ha, ← hscore hb]
    rcases hbefore with hless | ⟨heq, -⟩
    · exact le_of_lt hless
    · exact ge_of_eq heq

end Orders

end PgAgmemory

import PgAgmemory.Recalling.Fused

/-! # Faithful rankings

A recall with a vector considers the nearest candidates, or those that two orders together put
first, and returns what of these fits its budget. -/

namespace PgAgmemory

open Greedy (greedy)

/-- **Faithful ranking**: what a recall with a vector considers and returns, for the candidates that
its ranking and its coverage query see. -/
structure RanksFaithfully (platform : Platform) (data : Recall) (query : VectorQuery)
    (text : String) (candidates covered : List Candidate) (items : List MemoryItem)
    (r : RecallResult) : Prop where
  /-- By distance: the nearest candidates with an embedding, up to the page. -/
  vector : data.retrievalMode = .vector → ∃ nearest rows,
    DistanceOrder platform (platform.embed query.values) candidates nearest
    ∧ List.Forall₂ data.ItemOf rows items
    ∧ rows.map Ranked.candidate = (nearest.map Prod.fst).take data.maxItems
  /-- By both: the first of the fused order, up to the page. -/
  hybrid : data.retrievalMode = .hybrid → ∃ texts nearest fused,
    TextOrder platform text candidates texts
    ∧ DistanceOrder platform (platform.embed query.values) candidates nearest
    ∧ FusedOrder candidates (texts.map Ranked.candidate) (nearest.map Prod.fst) fused
    ∧ List.Forall₂ data.ItemOf (fused.take data.maxItems) items
  /-- Of these, in this order, what fits the budget is returned. -/
  packed : r.items = greedy (fun kept => decide ((packOf kept).byteCount ≤ data.tokenBudget)) items
  /-- When nothing is reported left out, every candidate is returned. -/
  complete : r.truncated = false → r.vectorIncomplete = false → covered = candidates →
    ∀ c ∈ candidates, Contains r.items c.id c.revision

section Results

variable {platform : Platform} {data : Recall} {query : VectorQuery} {text : String}
  {required candidates covered : List Candidate} {items : List MemoryItem} {omitted : Bool}
  {r : RecallResult}

/-- A recall with a vector requires nothing. -/
theorem Recall.required_eq_nil (hvector : data.vectorQuery = some query) :
    data.requiredMemoryRefs = [] := by
  by_contra hsome
  have hlexical := (data.required.2 hsome).1
  rw [data.vectorQuery_eq_none hlexical] at hvector
  cases hvector

/-- The rows of a recall with a vector are fused. -/
theorem Recall.rows_fused (platform : Platform) (text : String)
    (required candidates : List Candidate) (hvector : data.vectorQuery = some query) :
    data.rows platform text required candidates = (rankFused platform data.retrievalMode text
      (platform.embed query.values) candidates).take (data.maxItems + 1) := by
  unfold Recall.rows Recall.requiredRows Recall.rankedRows
  rw [Recall.required_eq_nil hvector, hvector]
  rfl

/-- A fused row is of a candidate. -/
theorem candidate_of_rankFused {mode : RetrievalMode} {vector : Embedding} {row : Ranked}
    (h : row ∈ rankFused platform mode text vector candidates) : row.candidate ∈ candidates := by
  obtain ⟨c, hc, rfl⟩ := List.mem_map.mp
    (List.mem_filter.mp ((List.mem_insertionSort _).mp h)).1
  exact hc

/-- **The result of a recall with a vector is ranked faithfully.** -/
theorem Recalled.ranksFaithfully (hvector : data.vectorQuery = some query)
    (hnodup : (candidates.map Candidate.id).Nodup)
    (h : Recalled platform data text required candidates covered items omitted r) :
    RanksFaithfully platform data query text candidates covered items r := by
  have hrows := data.rows_fused platform text required candidates hvector
  have hitems := h.considered
  rw [hrows, List.take_take, Nat.min_eq_left (Nat.le_succ _)] at hitems
  have hfused := fusedOrder_rankFused platform data.retrievalMode text (platform.embed query.values)
    hnodup
  refine {
    vector := fun hmode => ?_
    hybrid := fun hmode => ?_
    packed := ((packsExactly _ _ _).selects _ _ _ h.packed).2
    complete := fun htruncated hincomplete hcovered c hc => ?_ }
  · refine ⟨_, _, distanceOrder_rankByDistance, hitems, ?_⟩
    rw [List.map_take, hmode, candidates_rankFused_vector _ hnodup]
    rfl
  · refine ⟨_, _, _, textOrder_rankByText, distanceOrder_rankByDistance, ?_, hitems⟩
    rw [hmode, textOrder, if_pos rfl] at hfused
    rw [hmode]
    exact hfused
  · rw [h.truncated, Bool.or_eq_false_iff, decide_eq_false_iff_not, hrows, Nat.not_lt,
      List.length_take] at htruncated
    obtain ⟨homitted, hshort⟩ := htruncated
    rw [h.vector, hcovered, Recall.lacksVector, hvector, Option.isSome_some, Bool.true_and,
      List.any_eq_false] at hincomplete
    have hall : items = r.items := by
      obtain ⟨-, hgreedy⟩ := (packsExactly _ _ _).selects _ _ _ h.packed
      have hnot := mt ((packsExactly _ _ _).drops _ _ _ h.packed).mpr
        (Bool.eq_false_iff.mp homitted)
      have hsub : r.items.Sublist items := hgreedy ▸ Greedy.greedy_sublist items
      exact (hsub.eq_of_length_le (Nat.not_lt.mp hnot)).symm
    have hembedded : c.embedding.isSome = true := by
      have hsome := hincomplete c hc
      rw [Option.isNone_iff_eq_none] at hsome
      exact Option.isSome_iff_ne_none.mpr hsome
    have hmember : c ∈ (rankFused platform data.retrievalMode text (platform.embed query.values)
        candidates).map Ranked.candidate := by
      refine hfused.members.mem_iff.mpr (List.mem_filter.mpr ⟨hc, decide_eq_true (Or.inr ?_)⟩)
      exact mem_nearestOrder.mpr ⟨hc, hembedded⟩
    obtain ⟨row, hrow, rfl⟩ := List.mem_map.mp hmember
    rw [List.take_of_length_le (by omega)] at hitems
    obtain ⟨n, hn, rfl⟩ := List.getElem_of_mem hrow
    have hn' : n < items.length := hitems.length_eq ▸ hn
    obtain ⟨source, relation, hitem⟩ := List.forall₂_iff_get.mp hitems |>.2 n hn hn'
    refine ⟨items[n], ?_, ?_, ?_⟩
    · rw [← hall]
      exact List.getElem_mem hn'
    · exact congrArg MemoryItem.memoryId hitem
    · exact congrArg MemoryItem.revision hitem

end Results

/-- The pack of an item is longer than an empty pack and its content. -/
theorem MemoryItem.length_le_byteCount (item : MemoryItem) :
    (ContextPack.mk "" 0).size - 1 + item.content.toList.length ≤ (packOf [item]).byteCount := by
  have hescaped : ∀ cs : List Char, cs.length ≤ (cs.flatMap (Json.escape false)).length := by
    intro cs
    induction cs with
    | nil => exact Nat.le_refl 0
    | cons c cs ih =>
      obtain ⟨d, r, hhead, -⟩ := Json.head_escape false c
      rw [List.flatMap_cons, List.length_cons, List.length_append, hhead, List.length_cons]
      omega
  have hbytes : ∀ cs : List Char, cs.length ≤ String.utf8Len cs := by
    intro cs
    induction cs with
    | nil => exact Nat.le_refl 0
    | cons c cs ih =>
      rw [List.length_cons, String.utf8Len_cons]
      exact Nat.add_le_add ih c.utf8Size_pos
  have htext : (contextText [item]).toList.length ≤ escapedSize (contextText [item]) :=
    (hescaped _).trans (hbytes _)
  have hline : item.line.toList.length ≤ (contextText [item]).toList.length := by
    rw [contextText, if_neg (List.cons_ne_nil _ _), String.toList_append, List.length_append,
      List.map_singleton, String.toList_join, List.flatMap_singleton]
    exact Nat.le_add_left _ _
  have hcontent : item.content.toList.length ≤ item.line.toList.length := by
    rw [item.line_toList, Citation.chars]
    simp only [List.length_cons, List.length_append, Json.quoted]
    have h := hescaped item.citation.content.toList
    have hsame : item.citation.content = item.content := rfl
    rw [hsame] at h ⊢
    omega
  have hsettled : overhead (contextText [item]) ≤ (packOf [item]).byteCount := by
    have h := Counting.settled_fixed (overhead (contextText [item]))
    rw [Counting.restate] at h
    exact Nat.le_of_add_right_le (Nat.le_of_eq h)
  calc (ContextPack.mk "" 0).size - 1 + item.content.toList.length
      ≤ (ContextPack.mk "" 0).size - 1 + escapedSize (contextText [item]) :=
        Nat.add_le_add_left (hcontent.trans (hline.trans htext)) _
    _ ≤ (packOf [item]).byteCount := hsettled

/-- A platform whose digests are all the same. -/
def Platform.blunt : Platform :=
  { Platform.plain with
    hmac := fun _ _ => .ofNat 0
    sha256 := fun _ => .ofNat 0 }

/-- A longer observation in a scope. -/
def Observe.longer (scope : UUID) : Observe where
  scopeId := scope
  sourceNamespace := .brief
  sourceEventId := .brief
  occurredAt := (Observe.brief scope).occurredAt
  content := { str := "xxxxxxxxxxxxxxxxxxxxxxxxxxxxxxxxxxxxxxxxxxxxxxxxxxxxxxxxxxxxxxxx" }
  consentReference := .brief

/-- A vector. -/
def VectorQuery.flat : VectorQuery where
  model := ⟨.brief, .brief⟩
  values := List.replicate 768 ⟨['0'], by decide, List.forall_mem_singleton.mpr (by decide)⟩
  dimensions := List.length_replicate

/-- A small tenant with a longer observation, the object 107, that has an embedding. -/
def Store.embedded : Store :=
  Event.exec .blunt (.call ⟨1, .ticking 200 300, .putEmbedding
      { VectorQuery.flat with memoryId := 107, revision := .first, inputDigest := .ofNat 0 } "key"⟩)
    (Event.exec .blunt (.call ⟨1, .ticking 0 100, .observe (.longer 2) "key"⟩)
      (.provisioned (.sole 1 2 none)))

/-- The store of that tenant is reachable. -/
theorem reachable_embedded : Reachable .blunt .embedded := by
  unfold Store.embedded
  exact .event _ (.event _ (.provisioned _))

/-- A search by vector whose budget does not fit the longer observation. -/
def Recall.nearest : Recall where
  query := { str := "" }
  scopeIds := [2]
  purpose := .brief
  asOf := some .late
  tokenBudget := 200
  retrievalMode := .vector
  vectorQuery := some .flat

/-- A call that searches by vector. -/
def Call.nearest : Call := ⟨1, .ticking 400 500, .«recall» .nearest⟩

/-- The search sees the longer observation and its embedding. -/
theorem seen_nearest : ((Call.seen .nearest .embedded .nearest 2).map fun c =>
    (c.id, c.content.toList.length, c.embedding.isSome)) = [(107, 64, true)] := by
  decide +kernel

/-- The empty pack fits the search's budget, but not with 64 characters more. -/
theorem sizes_nearest :
    (packOf []).byteCount ≤ 200 ∧ 200 < (ContextPack.mk "" 0).size - 1 + 64 := by
  decide +kernel

/-- A small tenant with an observation and an assertion, the objects 107 and 309, that have embeddings. -/
def Store.matched : Store :=
  runEvents .blunt [
    .call ⟨1, .ticking 0 100, .observe (.brief 2) "key"⟩,
    .call ⟨1, .ticking 200 300, .remember .brief "key"⟩,
    .call ⟨1, .ticking 400 400, .putEmbedding
      { VectorQuery.flat with memoryId := 107, revision := .first, inputDigest := .ofNat 0 } "key"⟩,
    .call ⟨7, .ticking 600 500, .putEmbedding
      { VectorQuery.flat with memoryId := 309, revision := .first, inputDigest := .ofNat 0 } "key"⟩]
    (.provisioned .pair)

/-- The store with two embeddings is reachable. -/
theorem reachable_matched : Reachable .blunt .matched := (Reachable.provisioned _).run _

/-- A search by vector with room for both. -/
def Recall.roomy : Recall where
  query := { str := "" }
  scopeIds := [2]
  purpose := .brief
  asOf := some .late
  tokenBudget := 4000
  retrievalMode := .vector
  vectorQuery := some .flat

/-- A call that searches so. -/
def Call.roomy : Call := ⟨1, .ticking 800 900, .«recall» .roomy⟩

/-- Such a search is answered: nothing is required, and what is packed fits. -/
theorem answered_roomy : ∃ r, (Call.exec .blunt .roomy .matched).1 = .ok (.recalled r) := by
  rcases Call.recall_cases .blunt (c := .roomy) rfl reachable_matched.sound.integrity.deferred
    (by decide +kernel) with ⟨r, hresult, -⟩ | ⟨fault, -, hfails⟩
  · exact ⟨r, hresult⟩
  · exfalso
    cases hfails with
    | tokenizer h => cases h
    | unanswerable hunanswerable =>
      exact hunanswerable (Recall.answerable rfl (by decide +kernel) (by decide +kernel)
        (by decide +kernel))
    | missing _ hmissing => exact hmissing fun ref href => absurd href List.not_mem_nil
    | dangling _ _ _ hrow hsource htarget =>
      have hvector : Recall.roomy.vectorQuery = some .flat := rfl
      rw [Recall.rows_fused .blunt _ _ _ hvector] at hrow
      have hcandidate := candidate_of_rankFused (List.mem_of_mem_take (List.mem_of_mem_take hrow))
      exact absurd htarget (Call.seen_target reachable_matched hcandidate hsource)
    | @packing text items code _ _ _ hitems hbuild =>
      rcases (packsExactly _ _ _).failures _ hbuild with rfl | rfl
      · obtain ⟨before, -, -, -, hless, -⟩ := (packsExactly _ _ _).exhausted.mp hbuild
        exact absurd hless (Nat.not_lt_zero _)
      · have hover : 4000 < (packOf (greedy (fun kept => decide ((packOf kept).byteCount ≤ 4000))
            items)).byteCount := ((packsExactly _ _ _).tooSmall.mp hbuild).2
        by_cases hnone : greedy (fun kept => decide ((packOf kept).byteCount ≤ 4000)) items = []
        · rw [hnone] at hover
          exact absurd (sizes_nearest.1.trans (by decide)) (Nat.not_le.mpr hover)
        · exact absurd (of_decide_eq_true (Greedy.fits_greedy hnone)) (Nat.not_le.mpr hover)

/-- What the search considers: the longer observation alone. -/
theorem items_nearest {text : String} {required : List Candidate} {items : List MemoryItem}
    (h : List.Forall₂ Recall.nearest.ItemOf ((Recall.nearest.rows .blunt text required
      (Call.seen .nearest .embedded .nearest 2)).take 20) items) :
    ∃ item, items = [item] ∧ item.content.toList.length = 64 := by
  obtain ⟨c, hseen, hc⟩ := List.map_eq_singleton_iff.mp seen_nearest
  obtain ⟨-, hlength, hembedding⟩ : _ ∧ _ ∧ _ := by simpa only [Prod.mk.injEq] using hc
  have hnodup : ((Call.seen .nearest .embedded .nearest 2).map Candidate.id).Nodup := by
    rw [hseen]
    exact List.nodup_singleton _
  have hnearest : nearestOrder .blunt (Platform.blunt.embed VectorQuery.flat.values)
      (Call.seen .nearest .embedded .nearest 2) = [c] := by
    refine List.perm_singleton.mp (distanceOrder_rankByDistance.embedded.trans (List.Perm.of_eq ?_))
    rw [hseen, List.filter_singleton, hembedding]
    rfl
  obtain ⟨row, hfused, hrow⟩ := List.map_eq_singleton_iff.mp
    ((candidates_rankFused_vector text hnodup).trans hnearest)
  have hmode : Recall.nearest.retrievalMode = .vector := rfl
  rw [Recall.rows_fused .blunt text required _ rfl, hmode, hfused] at h
  cases h with
  | cons hhead htail =>
    cases htail
    obtain ⟨source, relation, rfl⟩ := hhead
    refine ⟨_, rfl, ?_⟩
    rw [← hlength, ← hrow]
    rfl

/-- What the search considers does not fit its budget. -/
theorem greedy_nearest {item : MemoryItem} (h : item.content.toList.length = 64) :
    greedy (fun kept => decide ((packOf kept).byteCount ≤ 200)) [item] = [] := by
  have hlarge := item.length_le_byteCount
  rw [h] at hlarge
  have hnot : ¬(packOf ([] ++ [item])).byteCount ≤ 200 :=
    Nat.not_le.mpr (Nat.lt_of_lt_of_le sizes_nearest.2 hlarge)
  rw [greedy, Greedy.keep, if_neg (mt of_decide_eq_true hnot), Greedy.keep]

end PgAgmemory

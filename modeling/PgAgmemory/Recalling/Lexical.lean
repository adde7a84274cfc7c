import PgAgmemory.Guarantees.Contexts
import PgAgmemory.Recalling.Candidates

/-! # Lexical recall

What a lexical recall considers is the required references and then the matching candidates in
order; what it returns is packed from these, and its flags say exactly what is left out. -/

namespace PgAgmemory

open Greedy (greedy)

/-! ## The order of the rows -/

/-- `ORDER BY rank DESC NULLS LAST, created_at DESC, id` is total. -/
instance total_lexicalBefore : Std.Total Ranked.lexicalBefore where
  total a b := by
    unfold Ranked.lexicalBefore
    grind

/-- `ORDER BY rank DESC NULLS LAST, created_at DESC, id` is transitive. -/
instance trans_lexicalBefore : IsTrans Ranked Ranked.lexicalBefore where
  trans a b c := by
    unfold Ranked.lexicalBefore
    grind

section Rows

variable (platform : Platform) (data : Recall)

/-- Whether a candidate matches the query of a recall; all do when it is empty. -/
def Recall.asks (c : Candidate) : Bool :=
  decide (data.query.str = "") || (data.searchText? platform).any fun text =>
    c.matches platform text

/-- The rank of a candidate for the query of a recall. -/
def Recall.rankOf (c : Candidate) : Rat :=
  if data.query.str = "" then 0
  else (data.searchText? platform).elim 0 fun text => c.textRank platform text

/-- **What a lexical recall considers**, when its statements see these candidates. -/
structure Recall.Considers (required ranked front : List Candidate) (others : List Ranked) : Prop
  where
  /-- The required references, in request order. -/
  inFront : List.Forall₂ (fun ref c => c ∈ required ∧ c.id = ref.memoryId
    ∧ c.revision = ref.revision.val) data.requiredMemoryRefs front
  /-- The matching candidates without the required ids. -/
  behind : (others.map Ranked.candidate).Perm (ranked.filter fun c => data.asks platform c
    && !(data.requiredMemoryRefs.map MemoryReference.memoryId).contains c.id)
  ranks : ∀ row ∈ others, row.rank = data.rankOf platform row.candidate
  ordered : others.Pairwise Ranked.lexicalBefore

variable {platform data}

/-- The required rows are those of the references, when all are present. -/
theorem Recall.Present.inFront {candidates : List Candidate} (h : data.Present candidates) :
    List.Forall₂ (fun (ref : MemoryReference) (c : Candidate) => c ∈ candidates
      ∧ c.id = ref.memoryId ∧ c.revision = ref.revision.val) data.requiredMemoryRefs
        (data.requiredRows candidates) := by
  unfold Recall.requiredRows
  unfold Recall.Present at h
  generalize data.requiredMemoryRefs = refs at h ⊢
  induction refs with
  | nil => exact .nil
  | cons ref refs ih =>
    obtain ⟨⟨c, hc, hid, hrevision⟩, hrest⟩ := List.forall_mem_cons.mp h
    rw [List.filterMap_cons]
    cases hfind : candidates.find? fun c =>
      c.id = ref.memoryId && c.revision = ref.revision.val with
    | none =>
      have hnone := List.find?_eq_none.mp hfind c hc
      exact absurd (Bool.and_eq_true_iff.mpr ⟨decide_eq_true hid, decide_eq_true hrevision⟩) hnone
    | some d =>
      have hfound := List.find?_some hfind
      obtain ⟨hid', hrevision'⟩ := Bool.and_eq_true_iff.mp hfound
      exact .cons ⟨List.mem_of_find?_eq_some hfind, of_decide_eq_true hid',
        of_decide_eq_true hrevision'⟩ (ih hrest)

/-- A lexical recall has no vector. -/
theorem Recall.vectorQuery_eq_none (hlexical : data.retrievalMode = .lexical) :
    data.vectorQuery = none := data.vectors.1.mp hlexical

/-- The matching candidates of a lexical recall, in order. -/
def Recall.others (platform : Platform) (data : Recall) (text : String) (ranked : List Candidate) :
    List Ranked :=
  rankByText platform (decide (data.query.str = "")) text (ranked.filter fun c =>
    !(data.requiredMemoryRefs.map MemoryReference.memoryId).contains c.id)

/-- **The rows of a lexical recall** are what it considers, cut at one more than the page holds. -/
theorem Recall.considers {text : String} {required : List Candidate} (ranked : List Candidate)
    (htext : data.searchText? platform = some text) (hpresent : data.Present required) :
    data.Considers platform required ranked (data.requiredRows required)
      (data.others platform text ranked) := by
  have hasks : ∀ c : Candidate, (decide (data.query.str = "") || c.matches platform text)
      = data.asks platform c := by
    intro c
    rw [asks, htext]
    rfl
  have hrank : ∀ c : Candidate, (if decide (data.query.str = "") = true then 0
      else c.textRank platform text) = data.rankOf platform c := by
    intro c
    rw [rankOf, htext]
    by_cases hempty : data.query.str = ""
    · rw [if_pos (decide_eq_true hempty), if_pos hempty]
    · rw [if_neg (mt of_decide_eq_true hempty), if_neg hempty]
      rfl
  refine ⟨hpresent.inFront, ?_, ?_, List.pairwise_insertionSort _ _⟩
  · unfold others rankByText
    refine ((List.perm_insertionSort _ _).map _).trans (List.Perm.of_eq ?_)
    rw [List.map_map, List.filter_filter]
    refine (List.map_id _).trans (List.filter_congr fun c _ => ?_)
    rw [hasks]
  · intro row hrow
    obtain ⟨c, -, rfl⟩ := List.mem_map.mp ((List.mem_insertionSort _).mp hrow)
    exact hrank c

end Rows

/-! ## The page -/

section Page

variable {α : Type}

/-- **A page tells whether anything is left out**: what is chosen from the first of some things is
all of these, and there are no others, exactly when everything is chosen. -/
theorem chosen_all_iff {chosen all : List α} {limit : Nat} (hchosen : chosen.Sublist (all.take
  limit))
    (hnodup : all.Nodup) :
    chosen.length = (all.take limit).length ∧ all.length ≤ limit ↔ ∀ a ∈ all, a ∈ chosen := by
  constructor
  · rintro ⟨hlength, hfits⟩ a ha
    rw [hchosen.eq_of_length hlength, List.take_of_length_le hfits]
    exact ha
  · intro hall
    have hle : all.length ≤ chosen.length := (List.subperm_of_subset hnodup hall).length_le
    have hshort := hchosen.length_le
    rw [List.length_take] at hshort ⊢
    omega

/-- Cutting the rest at one more than the page holds shows the same page. -/
theorem take_lookahead (front others : List α) (limit : Nat) :
    (front ++ others.take (limit - front.length + 1)).take limit = (front ++ others).take limit
      := by
  rw [List.take_append, List.take_append, List.take_take, Nat.min_eq_left (Nat.le_succ _)]

/-- Cutting the rest at one more than the page holds shows whether there is more. -/
theorem lookahead_length (front others : List α) {limit : Nat} (hfront : front.length ≤ limit) :
    limit < (front ++ others.take (limit - front.length + 1)).length
      ↔ limit < (front ++ others).length := by
  rw [List.length_append, List.length_append, List.length_take]
  omega

end Page

/-! ## The answer -/

/-- The item of a row, with some sources and entities. -/
def Recall.ItemOf (data : Recall) (row : Ranked) (item : MemoryItem) : Prop :=
  ∃ source relation, item = data.itemOf row source relation

/-- Whether some items contain a revision of an object. -/
def Contains (items : List MemoryItem) (id : UUID) (revision : Nat) : Prop :=
  ∃ item ∈ items, item.memoryId = id ∧ item.revision = revision

/-- **A result is complete up to its flags**, for the candidates that the recall's statements see
and the items it considers. -/
structure Recall.Completes (platform : Platform) (data : Recall) (ranked covered : List Candidate)
    (items : List MemoryItem) (r : RecallResult) : Prop where
  /-- The items are packed greedily. -/
  packed : r.items = greedy (fun kept => decide ((packOf kept).byteCount ≤ data.tokenBudget)) items
  distinct : (r.items.map MemoryItem.memoryId).Nodup
  /-- Nothing is reported left out exactly when nothing is left out. -/
  truncated : r.truncated = false
    ↔ (∀ ref ∈ data.requiredMemoryRefs, Contains r.items ref.memoryId ref.revision.val)
      ∧ ∀ c ∈ ranked, data.asks platform c = true → Contains r.items c.id c.revision
  /-- Only if nothing matches, and nothing that may match is not projected, nothing is found. -/
  notFound : r.emptyReason = some .notFound →
    (∀ c ∈ ranked, data.asks platform c = false) ∧ ∀ c ∈ covered, c.searchText ≠ none

section Answer

variable {platform : Platform} {data : Recall} {text : String}
  {required ranked covered : List Candidate} {items : List MemoryItem} {omitted : Bool}
  {r : RecallResult} {front : List Candidate} {others : List Ranked}

/-- The ids of what a lexical recall considers, in order. -/
def consideredIds (front : List Candidate) (others : List Ranked) : List UUID :=
  (front.map Candidate.unranked ++ others).map fun row => row.candidate.id

theorem Recall.Considers.front_ids (h : data.Considers platform required ranked front others) :
    front.map Candidate.id = data.requiredMemoryRefs.map MemoryReference.memoryId := by
  have hfront := h.inFront
  clear h
  generalize data.requiredMemoryRefs = refs at hfront ⊢
  induction hfront with
  | nil => rfl
  | cons hhead _ ih => rw [List.map_cons, List.map_cons, hhead.2.1, ih]

/-- What is considered has distinct ids. -/
theorem Recall.Considers.nodup (h : data.Considers platform required ranked front others)
    (hranked : (ranked.map Candidate.id).Nodup) : (consideredIds front others).Nodup := by
  have hrefs : (data.requiredMemoryRefs.map MemoryReference.memoryId).Nodup := by
    by_cases hnone : data.requiredMemoryRefs = []
    · rw [hnone]
      exact List.nodup_nil
    · exact (data.required.2 hnone).2.2
  have hothers : (others.map Ranked.candidate).map Candidate.id
      |>.Perm ((ranked.filter fun c => data.asks platform c
        && !(data.requiredMemoryRefs.map MemoryReference.memoryId).contains c.id).map
          Candidate.id) :=
    h.behind.map _
  rw [consideredIds, List.map_append, List.map_map]
  refine List.nodup_append.mpr ⟨?_, ?_, ?_⟩
  · exact (h.front_ids ▸ hrefs : (front.map Candidate.id).Nodup)
  · rw [List.map_map] at hothers
    exact hothers.nodup_iff.mpr (hranked.sublist (List.filter_sublist.map _))
  · intro a ha b hb heq
    have hrequired : a ∈ data.requiredMemoryRefs.map MemoryReference.memoryId := h.front_ids ▸ ha
    obtain ⟨row, hrow, rfl⟩ := List.mem_map.mp hb
    have hcandidate := h.behind.mem_iff.mp (List.mem_map_of_mem hrow)
    have hfree := (Bool.and_eq_true_iff.mp (List.mem_filter.mp hcandidate).2).2
    rw [Bool.not_eq_true', ← heq, List.contains_eq_mem, decide_eq_false_iff_not] at hfree
    exact hfree hrequired

/-- Items have the ids of their rows. -/
theorem itemIds_eq {rows : List Ranked} (h : List.Forall₂ data.ItemOf rows items) :
    items.map MemoryItem.memoryId = rows.map fun row => row.candidate.id := by
  induction h with
  | nil => rfl
  | cons hhead _ ih =>
    obtain ⟨source, relation, rfl⟩ := hhead
    rw [List.map_cons, List.map_cons, ih]
    rfl

/-- An item has the revision of its row. -/
theorem itemRow {rows : List Ranked} (h : List.Forall₂ data.ItemOf rows items) {item : MemoryItem}
    (hitem : item ∈ items) : ∃ row ∈ rows, row.candidate.id = item.memoryId
      ∧ row.candidate.revision = item.revision := by
  induction h with
  | nil => exact absurd hitem List.not_mem_nil
  | cons hhead _ ih =>
    rcases List.mem_cons.mp hitem with rfl | hrest
    · obtain ⟨source, relation, rfl⟩ := hhead
      exact ⟨_, List.mem_cons_self, rfl, rfl⟩
    · obtain ⟨row, hrow, hkey⟩ := ih hrest
      exact ⟨row, List.mem_cons_of_mem _ hrow, hkey⟩

/-- A row comes from a candidate that a statement saw. -/
theorem Recall.Considers.row_mem (h : data.Considers platform required ranked front others)
    {row : Ranked} (hrow : row ∈ front.map Candidate.unranked ++ others) :
    row.candidate ∈ required ++ ranked := by
  rcases List.mem_append.mp hrow with hfront | hothers
  · obtain ⟨c, hc, rfl⟩ := List.mem_map.mp hfront
    obtain ⟨n, hn, rfl⟩ := List.getElem_of_mem hc
    have hn' : n < data.requiredMemoryRefs.length := h.inFront.length_eq ▸ hn
    exact List.mem_append_left _ (List.forall₂_iff_get.mp h.inFront |>.2 n hn' hn).1
  · have hcandidate := h.behind.mem_iff.mp (List.mem_map_of_mem hothers)
    exact List.mem_append_right _ (List.mem_filter.mp hcandidate).1

/-- **All that is considered is contained** exactly when all that is required and all that matches
is. -/
theorem Recall.Considers.contained_iff
    (h : data.Considers platform required ranked front others)
    (hagree : ∀ c ∈ required ++ ranked, ∀ d ∈ required ++ ranked, c.id = d.id →
      c.revision = d.revision) {selected : List MemoryItem}
    (hselected : ∀ item ∈ selected, ∃ row ∈ front.map Candidate.unranked ++ others,
      row.candidate.id = item.memoryId ∧ row.candidate.revision = item.revision) :
    (∀ id ∈ consideredIds front others, id ∈ selected.map MemoryItem.memoryId)
      ↔ (∀ ref ∈ data.requiredMemoryRefs, Contains selected ref.memoryId ref.revision.val)
        ∧ ∀ c ∈ ranked, data.asks platform c = true → Contains selected c.id c.revision := by
  -- An id settles the revision, so to contain an id is to contain the candidate.
  have hfound : ∀ c ∈ required ++ ranked, c.id ∈ selected.map MemoryItem.memoryId →
      Contains selected c.id c.revision := by
    intro c hc hid
    obtain ⟨item, hitem, hkey⟩ := List.mem_map.mp hid
    obtain ⟨row, hrow, hrowId, hrowRevision⟩ := hselected item hitem
    refine ⟨item, hitem, hkey, ?_⟩
    rw [← hrowRevision]
    exact hagree _ (h.row_mem hrow) _ hc (hrowId.trans hkey)
  have hids : ∀ id, id ∈ consideredIds front others
      ↔ id ∈ data.requiredMemoryRefs.map MemoryReference.memoryId
        ∨ ∃ row ∈ others, row.candidate.id = id := by
    intro id
    rw [consideredIds, List.map_append, List.map_map, List.mem_append, List.mem_map (l := others),
      ← h.front_ids]
    rfl
  constructor
  · intro hall
    have hrequired : ∀ ref ∈ data.requiredMemoryRefs, Contains selected ref.memoryId
        ref.revision.val := by
      intro ref href
      obtain ⟨n, hn, rfl⟩ := List.getElem_of_mem href
      have hn' : n < front.length := h.inFront.length_eq ▸ hn
      obtain ⟨hc, hid, hrevision⟩ := List.forall₂_iff_get.mp h.inFront |>.2 n hn hn'
      have hcontains := hfound _ (List.mem_append_left _ hc) (hall _ ((hids _).mpr (Or.inl ?_)))
      · rw [hid, hrevision] at hcontains
        exact hcontains
      · rw [hid]
        exact List.mem_map_of_mem href
    refine ⟨hrequired, fun c hc hasks => hfound c (List.mem_append_right _ hc) (hall _ ?_)⟩
    -- A match that is also required stands in front, any other one behind.
    by_cases hrequired : c.id ∈ data.requiredMemoryRefs.map MemoryReference.memoryId
    · exact (hids _).mpr (Or.inl hrequired)
    · have hbehind : c ∈ others.map Ranked.candidate := by
        refine h.behind.mem_iff.mpr (List.mem_filter.mpr ⟨hc, ?_⟩)
        rw [hasks, Bool.true_and, Bool.not_eq_true', List.contains_eq_mem]
        exact decide_eq_false hrequired
      obtain ⟨row, hrow, rfl⟩ := List.mem_map.mp hbehind
      exact (hids _).mpr (Or.inr ⟨row, hrow, rfl⟩)
  · rintro ⟨hrequired, hmatching⟩ id hid
    rcases (hids id).mp hid with hreference | ⟨row, hrow, rfl⟩
    · obtain ⟨ref, href, rfl⟩ := List.mem_map.mp hreference
      obtain ⟨item, hitem, hkey, -⟩ := hrequired ref href
      exact List.mem_map.mpr ⟨item, hitem, hkey⟩
    · obtain ⟨hranked, hpasses⟩ := List.mem_filter.mp
        (h.behind.mem_iff.mp (List.mem_map_of_mem hrow))
      obtain ⟨item, hitem, hkey, -⟩ := hmatching _ hranked (Bool.and_eq_true_iff.mp hpasses).1
      exact List.mem_map.mpr ⟨item, hitem, hkey⟩

/-- The required references of a lexical recall fit its page. -/
theorem Recall.required_le : data.requiredMemoryRefs.length ≤ data.maxItems := by
  by_cases hnone : data.requiredMemoryRefs = []
  · rw [hnone]
    exact Nat.zero_le _
  · exact (data.required.2 hnone).2.1

/-- The rows of a lexical recall. -/
theorem Recall.rows_eq (platform : Platform) (text : String) (ranked : List Candidate)
    (hpresent : data.Present required) (hlexical : data.retrievalMode = .lexical) :
    data.rows platform text required ranked = (data.requiredRows required).map Candidate.unranked
      ++ (data.others platform text ranked).take
        (data.maxItems - ((data.requiredRows required).map Candidate.unranked).length + 1) := by
  rw [List.length_map, Recall.requiredRows_length.mpr hpresent]
  unfold Recall.rows Recall.rankedRows
  rw [Recall.vectorQuery_eq_none hlexical]
  rfl

/-- Nothing lacks the projection that a lexical recall searches, when it reports so. -/
theorem Recall.lacksText_eq_false (hlexical : data.retrievalMode = .lexical)
    (h : data.lacksText covered = false)
    (hsimple : data.searchProfile = .simple → ∀ c ∈ covered, c.searchText ≠ none) :
    ∀ c ∈ covered, c.searchText ≠ none := by
  cases hprofile : data.searchProfile with
  | simple => exact hsimple hprofile
  | japanese =>
    rw [lacksText, hlexical, hprofile, decide_eq_true (p := RetrievalMode.lexical ≠ .vector)
      (by decide), decide_eq_true rfl, Bool.true_and, Bool.true_and, List.any_eq_false] at h
    intro c hc hnone
    exact h c hc (Option.isNone_iff_eq_none.mpr hnone)

/-- **A lexical recall is complete up to its flags.** -/
theorem Recalled.completes (h : Recalled platform data text required ranked covered items omitted r)
    (hlexical : data.retrievalMode = .lexical) (htext : data.searchText? platform = some text)
    (hnodup : (ranked.map Candidate.id).Nodup)
    (hagree : ∀ c ∈ required ++ ranked, ∀ d ∈ required ++ ranked, c.id = d.id →
      c.revision = d.revision)
    (hsimple : data.searchProfile = .simple → ∀ c ∈ covered, c.searchText ≠ none) :
    List.Forall₂ data.ItemOf (((data.requiredRows required).map Candidate.unranked
        ++ data.others platform text ranked).take data.maxItems) items
      ∧ data.Completes platform ranked covered items r := by
  have hconsiders := data.considers ranked htext h.present
  -- Lexical recall looks one row past its page: what it considers is the front, then the others.
  have hfront : ((data.requiredRows required).map Candidate.unranked).length ≤ data.maxItems := by
    rw [List.length_map, Recall.requiredRows_length.mpr h.present]
    exact data.required_le
  have hrows := data.rows_eq platform text ranked h.present hlexical
  have hitems := h.considered
  rw [hrows, take_lookahead] at hitems
  refine ⟨hitems, ?_⟩
  obtain ⟨-, hgreedy⟩ := (packsExactly _ _ _).selects _ _ _ h.packed
  have hsub : r.items.Sublist items := hgreedy ▸ Greedy.greedy_sublist items
  have hids : items.map MemoryItem.memoryId = (consideredIds (data.requiredRows required)
      (data.others platform text ranked)).take data.maxItems := by
    rw [itemIds_eq hitems, List.map_take]
    rfl
  have hchosen : (r.items.map MemoryItem.memoryId).Sublist ((consideredIds
      (data.requiredRows required) (data.others platform text ranked)).take data.maxItems) :=
    hids ▸ hsub.map _
  have hdistinct := hconsiders.nodup hnodup
  have hselected : ∀ item ∈ r.items, ∃ row ∈ (data.requiredRows required).map Candidate.unranked
      ++ data.others platform text ranked, row.candidate.id = item.memoryId
        ∧ row.candidate.revision = item.revision := by
    intro item hitem
    obtain ⟨row, hrow, hkey⟩ := itemRow hitems (hsub.subset hitem)
    exact ⟨row, List.mem_of_mem_take hrow, hkey⟩
  -- Nothing left out of the answer is the same as every match contained in it.
  have hcontained := hconsiders.contained_iff hagree hselected
  refine ⟨hgreedy, hdistinct.sublist (hchosen.trans (List.take_sublist _ _)), ?_, ?_⟩
  · have homitted := (packsExactly _ _ _).drops _ _ _ h.packed
    rw [← hcontained, ← chosen_all_iff hchosen hdistinct, h.truncated, Bool.or_eq_false_iff,
      decide_eq_false_iff_not, hrows, lookahead_length _ _ hfront, ← hids, List.length_map,
      List.length_map, Nat.not_lt]
    refine and_congr ?_ (Iff.of_eq (congrArg (· ≤ data.maxItems) (List.length_map _).symm))
    rw [← Bool.not_eq_true, homitted, Nat.not_lt]
    exact ⟨fun hle => Nat.le_antisymm hsub.length_le hle, fun heq => Nat.le_of_eq heq.symm⟩
  -- Only the last branch of the reason says that nothing matches, and it needs both coverages.
  · intro hreason
    rw [h.emptyReason] at hreason
    split at hreason
    next hempty =>
      split at hreason
      next => cases hreason
      next hnone =>
        split at hreason
        next => cases hreason
        next hcomplete =>
          rw [h.lexical, h.vector, Bool.or_eq_true, not_or, Bool.not_eq_true] at hcomplete
          refine ⟨fun c hc => eq_false_of_ne_true fun hasks => ?_, ?_⟩
          · have hnothing : consideredIds (data.requiredRows required)
                (data.others platform text ranked) = [] := by
              rw [not_not.mp hnone, List.map_nil, eq_comm, List.take_eq_nil_iff] at hids
              exact hids.resolve_left (Nat.ne_of_gt data.limits.2.2.1.1)
            rw [hnothing, hempty] at hcontained
            obtain ⟨item, hitem, -⟩ := (hcontained.mp fun id hid =>
              absurd hid List.not_mem_nil).2 c hc hasks
            exact absurd hitem List.not_mem_nil
          · exact data.lacksText_eq_false hlexical hcomplete.1 hsimple
    next => cases hreason

end Answer

end PgAgmemory

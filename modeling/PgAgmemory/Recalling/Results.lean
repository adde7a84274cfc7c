import PgAgmemory.Recalling.Packing
import PgAgmemory.System.Outcomes

/-! # What a recall returns

The result of a recall is determined by the candidates that three of its statements see: the required
ones, the ones that are ranked, and the ones whose projections are checked (`Recalled`). -/

namespace PgAgmemory

open MemoryService

/-- The required rows among some candidates. -/
def Recall.requiredRows (data : Recall) (candidates : List Candidate) : List Candidate :=
  data.requiredMemoryRefs.filterMap fun ref =>
    candidates.find? fun c => c.id = ref.memoryId && c.revision = ref.revision.val

/-- The rows that the ranking query returns for some candidates. -/
def Recall.rankedRows (platform : Platform) (data : Recall) (text : String)
    (candidates : List Candidate) : List Ranked :=
  let limit := data.maxItems - data.requiredMemoryRefs.length + 1
  match data.vectorQuery with
  | none => (rankByText platform (decide (data.query.str = "")) text (candidates.filter fun c =>
      !(data.requiredMemoryRefs.map MemoryReference.memoryId).contains c.id)).take limit
  | some vector =>
    (rankFused platform data.retrievalMode text (platform.embed vector.values) candidates).take limit

/-- The rows that a recall considers. -/
def Recall.rows (platform : Platform) (data : Recall) (text : String)
    (required ranked : List Candidate) : List Ranked :=
  (data.requiredRows required).map Candidate.unranked ++ data.rankedRows platform text ranked

/-- The item of a row, with its sources and entities. -/
def Recall.itemOf (data : Recall) (row : Ranked) (source : List UUID)
    (relation : Option RelationEndpoints) : MemoryItem where
  memoryId := row.candidate.id
  revision := row.candidate.revision
  kind := row.candidate.kind
  content := row.candidate.content
  recordedAt := row.candidate.createdAt
  occurredAt := row.candidate.occurredAt
  validFrom := row.candidate.validFrom
  validTo := row.candidate.validTo
  source := source
  relation := relation
  retrieval := if data.vectorQuery.isSome then some {
      hybrid := decide (data.retrievalMode = .hybrid)
      lexicalRank := row.lexicalRank
      vectorRank := row.vectorRank
      vectorDistance := row.vectorDistance
      fusionScore := if data.retrievalMode = .hybrid then some row.fusionScore else none }
    else none

/-- The text that a recall searches for; none when the tokenizer is unavailable. -/
def Recall.searchText? (platform : Platform) (data : Recall) : Option String :=
  match data.searchProfile with
  | .simple => some data.query.str
  | .japanese => platform.segment data.query.str

/-- Whether the Japanese projection of a candidate is needed and missing. -/
def Recall.lacksText (data : Recall) (candidates : List Candidate) : Bool :=
  decide (data.retrievalMode ≠ .vector) && decide (data.searchProfile = .japanese)
    && candidates.any fun c => c.searchText.isNone

/-- Whether the vector of a candidate is needed and missing. -/
def Recall.lacksVector (data : Recall) (candidates : List Candidate) : Bool :=
  data.vectorQuery.isSome && candidates.any fun c => c.embedding.isNone

/-- Whether every required reference is among some candidates. -/
def Recall.Present (data : Recall) (candidates : List Candidate) : Prop :=
  ∀ ref ∈ data.requiredMemoryRefs, ∃ c ∈ candidates, c.id = ref.memoryId
    ∧ c.revision = ref.revision.val

/-- **A result follows from the candidates** that the required, the ranking and the coverage query of a
recall have seen, and from the text it searched for. -/
structure Recalled (platform : Platform) (data : Recall) (text : String)
    (required ranked covered : List Candidate) (items : List MemoryItem) (omitted : Bool)
    (r : RecallResult) : Prop where
  /-- Every required reference was found. -/
  present : data.Present required
  /-- The items are those of the first rows. -/
  considered : List.Forall₂ (fun row item => ∃ source relation, item = data.itemOf row source relation)
    ((data.rows platform text required ranked).take data.maxItems) items
  /-- The items are packed into the budget, the required ones in front. -/
  packed : buildContext items data.tokenBudget (data.requiredRows required).length
    = .ok (r.context, r.items, omitted)
  /-- Truncation is by the budget or by the page. -/
  truncated : r.truncated
    = (omitted || decide (data.maxItems < (data.rows platform text required ranked).length))
  lexical : r.lexicalIncomplete = data.lacksText covered
  vector : r.vectorIncomplete = data.lacksVector covered
  emptyReason : r.emptyReason = if r.items = [] then
      some (if items ≠ [] then .budgetExhausted
        else if r.lexicalIncomplete || r.vectorIncomplete then .indexIncomplete else .notFound)
    else none
  echo : r.searchProfile = data.searchProfile ∧ r.retrievalMode = data.retrievalMode
    ∧ r.embeddingModel = data.vectorQuery.map VectorQuery.model

/-- Every item is that of a row. -/
theorem Recalled.row_of_mem {platform : Platform} {data : Recall} {text : String}
    {required ranked covered : List Candidate} {items : List MemoryItem} {omitted : Bool}
    {r : RecallResult} (h : Recalled platform data text required ranked covered items omitted r)
    {item : MemoryItem} (hitem : item ∈ items) :
    ∃ row ∈ (data.rows platform text required ranked).take data.maxItems,
      ∃ source relation, item = data.itemOf row source relation := by
  have hconsidered := h.considered
  clear h
  generalize (data.rows platform text required ranked).take data.maxItems = rows at hconsidered
  induction hconsidered with
  | nil => exact absurd hitem List.not_mem_nil
  | cons hhead htail ih =>
    rcases List.mem_cons.mp hitem with rfl | hitem
    · exact ⟨_, List.mem_cons_self, hhead⟩
    · obtain ⟨row, hrow, hitem⟩ := ih hitem
      exact ⟨row, List.mem_cons_of_mem _ hrow, hitem⟩

/-- The rows of a filtered lookup are all there when there are as many as there are references. -/
theorem Recall.requiredRows_length {data : Recall} {candidates : List Candidate} :
    (data.requiredRows candidates).length = data.requiredMemoryRefs.length
      ↔ data.Present candidates := by
  rw [requiredRows, Present]
  induction data.requiredMemoryRefs with
  | nil => simp
  | cons ref refs ih =>
    rw [List.filterMap_cons, List.forall_mem_cons]
    have hle := List.length_filterMap_le (fun ref : MemoryReference => candidates.find? fun c =>
      c.id = ref.memoryId && c.revision = ref.revision.val) refs
    cases hfind : candidates.find? fun c => c.id = ref.memoryId && c.revision = ref.revision.val with
    | none =>
      constructor
      · intro hlength
        rw [List.length_cons] at hlength
        exact absurd hlength (Nat.ne_of_lt (Nat.lt_succ_of_le hle))
      · rintro ⟨⟨c, hc, hid, hrevision⟩, -⟩
        have hnone := List.find?_eq_none.mp hfind c hc
        exact absurd (Bool.and_eq_true_iff.mpr ⟨decide_eq_true hid, decide_eq_true hrevision⟩) hnone
    | some c =>
      rw [List.length_cons, List.length_cons, Nat.add_right_cancel_iff, ih]
      have hfound := List.find?_some hfind
      obtain ⟨hid, hrevision⟩ := Bool.and_eq_true_iff.mp hfound
      refine ⟨fun h => ⟨⟨c, List.mem_of_find?_eq_some hfind, of_decide_eq_true hid,
        of_decide_eq_true hrevision⟩, h⟩, And.right⟩

/-- **A recall can be answered**: there is a text to search for, its statements can be sent, and the rows
that they return can be decoded. The ranking statement is sent when nothing required is missing. -/
structure Recall.Answerable (platform : Platform) (data : Recall) (required ranked : List Candidate) :
    Prop where
  /-- The filters and the model can be sent. -/
  texts : data.texts.all storable = true
  /-- The required rows can be decoded. -/
  decoded : ∀ row ∈ data.requiredRows required, row.readable = true
  /-- The text can be sent, and the rows that the ranking returns can be decoded. -/
  searched : ∃ text, data.searchText? platform = some text ∧ (data.Present required →
    storable text = true ∧ ∀ row ∈ data.rankedRows platform text ranked, row.candidate.readable = true)

/-- A required row is one of the candidates. -/
theorem Recall.mem_requiredRows {data : Recall} {candidates : List Candidate} {c : Candidate}
    (h : c ∈ data.requiredRows candidates) : c ∈ candidates := by
  obtain ⟨ref, -, hfind⟩ := List.mem_filterMap.mp h
  exact List.mem_of_find?_eq_some hfind

/-- A ranked row is of one of the candidates. -/
theorem Recall.mem_rankedRows {platform : Platform} {data : Recall} {text : String}
    {candidates : List Candidate} {row : Ranked}
    (h : row ∈ data.rankedRows platform text candidates) : row.candidate ∈ candidates := by
  unfold Recall.rankedRows at h
  split at h
  · have hsorted := (List.mem_insertionSort _).mp (List.mem_of_mem_take h)
    obtain ⟨c, hc, rfl⟩ := List.mem_map.mp hsorted
    exact (List.mem_filter.mp (List.mem_filter.mp hc).1).1
  · have hsorted := (List.mem_insertionSort _).mp (List.mem_of_mem_take h)
    obtain ⟨c, hc, rfl⟩ := List.mem_map.mp (List.mem_filter.mp hsorted).1
    exact hc

/-- A recall can be answered when its texts can be sent and all it sees be decoded. -/
theorem Recall.answerable {platform : Platform} {data : Recall} {required ranked : List Candidate}
    {text : String} (htext : data.searchText? platform = some text) (hstorable : storable text = true)
    (htexts : data.texts.all storable = true)
    (hreadable : ∀ c ∈ required ++ ranked, c.readable = true) :
    data.Answerable platform required ranked where
  texts := htexts
  decoded row hrow := hreadable row (List.mem_append_left _ (Recall.mem_requiredRows hrow))
  searched := ⟨text, htext, fun _ => ⟨hstorable, fun row hrow =>
    hreadable row.candidate (List.mem_append_right _ (Recall.mem_rankedRows hrow))⟩⟩

/-- **How a recall fails**, given the candidates of the required and of the ranking query. -/
inductive Recall.Fails (platform : Platform) (data : Recall) (required ranked : List Candidate) :
    Fault → Prop where
  /-- The tokenizer is unavailable. -/
  | tokenizer (h : data.searchText? platform = none) : Fails platform data required ranked .unavailable
  /-- A statement cannot be sent, or one of its rows not decoded. -/
  | unanswerable (hunanswerable : ¬data.Answerable platform required ranked) :
      Fails platform data required ranked .database
  /-- A required reference is not among the candidates. -/
  | missing (hanswerable : data.Answerable platform required ranked)
      (hmissing : ¬data.Present required) : Fails platform data required ranked (.memory .notFound)
  /-- A relation among the first rows has no target. -/
  | dangling {text : String} {row : Ranked} (h : data.searchText? platform = some text)
      (hanswerable : data.Answerable platform required ranked) (hpresent : data.Present required)
      (hrow : row ∈ (data.rows platform text required ranked).take data.maxItems)
      (hsource : row.candidate.sourceEntity ≠ none) (htarget : row.candidate.targetEntity = none) :
      Fails platform data required ranked .database
  /-- The items do not fit the budget. -/
  | packing {text : String} {items : List MemoryItem} {code : ErrorCode}
      (h : data.searchText? platform = some text)
      (hanswerable : data.Answerable platform required ranked) (hpresent : data.Present required)
      (hitems : List.Forall₂ (fun row item => ∃ source relation, item = data.itemOf row source relation)
        ((data.rows platform text required ranked).take data.maxItems) items)
      (hbuild : buildContext items data.tokenBudget (data.requiredRows required).length = .error code) :
      Fails platform data required ranked (.memory code)

section Outcome

variable {platform : Platform} {timeline : Timeline} {data : Recall} {n : Nat} {σ : Session}

/-- The candidates that a statement of a recall sees. -/
def Session.candidatesAt (σ : Session) (timeline : Timeline) (data : Recall) (start n : Nat) :
    List Candidate :=
  (σ.view (timeline.moment n)).candidates
    (data.candidateQuery (σ.view (timeline.moment start)).timestamp)

/-- The candidates that a statement of a recall call sees. -/
def Call.seen (c : Call) (s : Store) (data : Recall) (n : Nat) : List Candidate :=
  (Session.start c.principal s).candidatesAt c.timeline data 1 n

/-- The statement of a recall that ranks, when the recall starts with another. -/
def Recall.rankingMoment (data : Recall) (start : Nat) : Nat :=
  if data.requiredMemoryRefs = [] then start + 1 else start + 2

theorem outcome_item (row : Ranked) :
    Outcome platform timeline (item data row)
      (fun item _ σ' => σ' = σ ∧ ∃ source relation, item = data.itemOf row source relation)
      (fun fault => fault = .database ∧ row.candidate.sourceEntity ≠ none
        ∧ row.candidate.targetEntity = none) n σ := by
  refine outcome_read ?_
  have hends : Outcome platform timeline (endpoints row.candidate) (fun _ _ σ' => σ' = σ)
      (fun fault => fault = .database ∧ row.candidate.sourceEntity ≠ none
        ∧ row.candidate.targetEntity = none) (n + 1) σ := by
    unfold endpoints
    split
    next hsource => exact outcome_pure rfl
    next hsource htarget => exact outcome_pure rfl
    next hsource htarget =>
      exact outcome_raise ⟨rfl, by rw [hsource]; exact Option.some_ne_none _, htarget⟩
  refine outcome_bind hends ?_
  rintro relation m σ' - rfl
  exact outcome_pure ⟨rfl, _, relation, rfl⟩

theorem outcome_searchText {text? : Option String} (h : data.searchText? platform = text?) :
    Outcome platform timeline (searchText platform data)
      (fun text m σ' => m = n ∧ σ' = σ ∧ text? = some text)
      (fun fault => fault = .unavailable ∧ text? = none) n σ := by
  subst h
  unfold searchText Recall.searchText?
  cases data.searchProfile with
  | simple => exact outcome_pure ⟨rfl, rfl, rfl⟩
  | japanese =>
    dsimp only
    unfold MemoryService.segment
    split
    next segmented hsegment => exact outcome_pure ⟨rfl, rfl, hsegment⟩
    next hsegment => exact outcome_raise ⟨rfl, hsegment⟩

theorem outcome_requiredCandidates (q : CandidateQuery) :
    Outcome platform timeline (requiredCandidates data q)
      (fun rows m σ' => m = (if data.requiredMemoryRefs = [] then n else n + 1) ∧ σ' = σ
        ∧ data.Present ((σ.view (timeline.moment n)).candidates q)
        ∧ (∀ row ∈ data.requiredRows ((σ.view (timeline.moment n)).candidates q),
          row.readable = true)
        ∧ rows = (data.requiredRows ((σ.view (timeline.moment n)).candidates q)).map
          Candidate.unranked)
      (fun fault => (fault = .database ∧ ¬(data.texts.all storable = true
          ∧ ∀ row ∈ data.requiredRows ((σ.view (timeline.moment n)).candidates q),
            row.readable = true))
        ∨ (fault = .memory .notFound ∧ data.texts.all storable = true
          ∧ (∀ row ∈ data.requiredRows ((σ.view (timeline.moment n)).candidates q),
            row.readable = true)
          ∧ ¬data.Present ((σ.view (timeline.moment n)).candidates q))) n σ := by
  unfold requiredCandidates
  split
  next hnone =>
    have hrows : data.requiredRows ((σ.view (timeline.moment n)).candidates q) = [] := by
      rw [Recall.requiredRows, hnone]
      rfl
    refine outcome_pure ⟨rfl, rfl, ?_, ?_, by rw [hrows]; rfl⟩
    · intro ref href
      rw [hnone] at href
      exact absurd href List.not_mem_nil
    · intro row hrow
      rw [hrows] at hrow
      exact absurd hrow List.not_mem_nil
  next hsome =>
    by_cases htexts : data.texts.all storable = true
    swap
    · rw [if_pos (by rw [eq_false_of_ne_true htexts]; rfl)]
      exact outcome_raise (Or.inl ⟨rfl, fun h => htexts h.1⟩)
    rw [if_neg (by rw [htexts]; exact Bool.false_ne_true)]
    refine outcome_read (outcome_decode (fun hreadable => ?_) fun hunreadable => Or.inl ⟨rfl, ?_⟩)
    swap
    · rintro ⟨-, hreadable⟩
      exact absurd (List.all_eq_true.mpr hreadable) (ne_true_of_eq_false hunreadable)
    have hreadable' := List.all_eq_true.mp hreadable
    refine outcome_demand (fun hlength => ?_) fun hlength => Or.inr ⟨rfl, htexts, hreadable', ?_⟩
    · exact outcome_pure ⟨rfl, rfl, Recall.requiredRows_length.mp (of_decide_eq_true hlength),
        hreadable', rfl⟩
    · intro hpresent
      exact absurd (Recall.requiredRows_length.mpr hpresent) (of_decide_eq_false hlength)

theorem outcome_rankedCandidates (q : CandidateQuery) (text : String) :
    Outcome platform timeline (rankedCandidates platform data q text)
      (fun rows m σ' => m = n + 1 ∧ σ' = σ ∧ (text :: data.texts).all storable = true
        ∧ rows = data.rankedRows platform text ((σ.view (timeline.moment n)).candidates q)
        ∧ ∀ row ∈ rows, row.candidate.readable = true)
      (fun fault => fault = .database ∧ ¬((text :: data.texts).all storable = true
        ∧ ∀ row ∈ data.rankedRows platform text ((σ.view (timeline.moment n)).candidates q),
          row.candidate.readable = true)) n σ := by
  unfold rankedCandidates
  by_cases htexts : (text :: data.texts).all storable = true
  swap
  · rw [if_pos (by rw [eq_false_of_ne_true htexts]; rfl)]
    exact outcome_raise ⟨rfl, fun h => htexts h.1⟩
  rw [if_neg (by rw [htexts]; exact Bool.false_ne_true)]
  refine outcome_read ?_
  -- the statement returns the ranked rows, whatever the query
  have hdecode : ∀ rows, rows = data.rankedRows platform text
      ((σ.view (timeline.moment n)).candidates q) →
      Outcome platform timeline (decode (fun row : Ranked => row.candidate.readable) rows)
        (fun rows m σ' => m = n + 1 ∧ σ' = σ ∧ (text :: data.texts).all storable = true
          ∧ rows = data.rankedRows platform text ((σ.view (timeline.moment n)).candidates q)
          ∧ ∀ row ∈ rows, row.candidate.readable = true)
        (fun fault => fault = .database ∧ ¬((text :: data.texts).all storable = true
          ∧ ∀ row ∈ data.rankedRows platform text ((σ.view (timeline.moment n)).candidates q),
            row.candidate.readable = true)) (n + 1) σ := by
    rintro rows rfl
    unfold decode
    split
    next hreadable =>
      exact outcome_pure ⟨rfl, rfl, htexts, rfl, List.all_eq_true.mp hreadable⟩
    next hunreadable =>
      exact outcome_raise ⟨rfl, fun h => hunreadable (List.all_eq_true.mpr h.2)⟩
  dsimp only
  cases hvector : data.vectorQuery with
  | none => exact hdecode _ (by rw [Recall.rankedRows, hvector])
  | some vector => exact hdecode _ (by rw [Recall.rankedRows, hvector])

theorem outcome_coverage (q : CandidateQuery) :
    Outcome platform timeline (coverage data q)
      (fun flags _ σ' => σ' = σ
        ∧ flags = (data.lacksText ((σ.view (timeline.moment n)).candidates q),
          data.lacksVector ((σ.view (timeline.moment n)).candidates q)))
      (fun _ => False) n σ := by
  unfold coverage
  split
  next hneeded => exact outcome_read (outcome_pure ⟨rfl, rfl⟩)
  next hneeded =>
    refine outcome_pure ⟨rfl, ?_⟩
    obtain ⟨hprofile, hvector⟩ := not_or.mp hneeded
    rw [Recall.lacksText, Recall.lacksVector, decide_eq_false hprofile,
      eq_false_of_ne_true hvector, Bool.and_false, Bool.false_and, Bool.false_and]

/-- **The outcome of a recall**, by the candidates that its statements see. -/
theorem outcome_recall (data : Recall) (n : Nat) (σ : Session) :
    Outcome platform timeline (MemoryService.«recall» platform data)
      (fun r _ σ' => σ' = σ ∧ data.Answerable platform (σ.candidatesAt timeline data n (n + 1))
          (σ.candidatesAt timeline data n (data.rankingMoment n))
        ∧ ∃ text items omitted, data.searchText? platform = some text
        ∧ Recalled platform data text (σ.candidatesAt timeline data n (n + 1))
          (σ.candidatesAt timeline data n (data.rankingMoment n))
          (σ.candidatesAt timeline data n (data.rankingMoment n + 1)) items omitted r)
      (data.Fails platform (σ.candidatesAt timeline data n (n + 1))
        (σ.candidatesAt timeline data n (data.rankingMoment n))) n σ := by
  -- Statement by statement, with the failure that each one of them may end in.
  refine outcome_read (outcome_bind ((outcome_searchText rfl).mono (fun _ _ _ _ h => h) ?_) ?_)
  · rintro fault ⟨rfl, hnone⟩
    exact .tokenizer hnone
  rintro text m σ' - ⟨rfl, rfl, htext⟩
  refine outcome_bind ((outcome_requiredCandidates _).mono (fun _ _ _ _ h => h) ?_) ?_
  · rintro fault (⟨rfl, hunread⟩ | ⟨rfl, htexts, hreadable, hmissing⟩)
    · exact .unanswerable fun h => hunread ⟨h.texts, h.decoded⟩
    · exact .missing ⟨htexts, hreadable, text, htext, fun hpresent => absurd hpresent hmissing⟩
        hmissing
  rintro required m σ' - ⟨hm, rfl, hpresent, hrequired, rfl⟩
  have hranking : m = data.rankingMoment n := hm
  subst hranking
  refine outcome_bind ((outcome_rankedCandidates _ text).mono (fun _ _ _ _ h => h) ?_) ?_
  · rintro fault ⟨rfl, hunread⟩
    refine .unanswerable fun h => hunread ?_
    obtain ⟨text', htext', hasked⟩ := h.searched
    obtain rfl := Option.some.inj (htext.symm.trans htext')
    obtain ⟨hstorable, hreadable⟩ := hasked hpresent
    exact ⟨by rw [List.all_cons, hstorable, h.texts]; rfl, hreadable⟩
  rintro ranked m' σ' - ⟨rfl, rfl, htexts, rfl, hranked⟩
  rw [List.all_cons, Bool.and_eq_true] at htexts
  have hanswerable : data.Answerable platform (σ'.candidatesAt timeline data n (n + 1))
      (σ'.candidatesAt timeline data n (data.rankingMoment n)) :=
    ⟨htexts.2, hrequired, text, htext, fun _ => ⟨htexts.1, hranked⟩⟩
  refine outcome_bind ((outcome_coverage _).mono (fun _ _ _ _ h => h) fun _ => False.elim) ?_
  rintro ⟨lexicalIncomplete, vectorIncomplete⟩ m' σ' - ⟨rfl, hflags⟩
  obtain ⟨rfl, rfl⟩ := Prod.mk.inj hflags
  refine outcome_bind (outcome_forCollect fun row hrow k _ =>
    (outcome_item row).mono (fun _ _ _ _ h => h) ?_) ?_
  · rintro fault ⟨rfl, hsource, htarget⟩
    exact .dangling htext hanswerable hpresent hrow hsource htarget
  rintro items k σ' - ⟨rfl, hitems⟩
  rw [List.length_map]
  cases hbuild : buildContext items data.tokenBudget
      (data.requiredRows (σ'.candidatesAt timeline data n (n + 1))).length with
  | error code =>
    unfold Session.candidatesAt at hbuild
    rw [hbuild]
    exact outcome_raise (.packing htext hanswerable hpresent hitems hbuild)
  | ok result =>
    obtain ⟨context, selected, omitted⟩ := result
    unfold Session.candidatesAt at hbuild
    rw [hbuild]
    refine outcome_read (outcome_read (outcome_pure
      ⟨rfl, hanswerable, text, items, omitted, htext, ?_⟩))
    exact {
      present := hpresent
      considered := hitems
      packed := hbuild
      truncated := rfl
      lexical := rfl
      vector := rfl
      emptyReason := rfl
      echo := ⟨rfl, rfl, rfl⟩ }

end Outcome

end PgAgmemory

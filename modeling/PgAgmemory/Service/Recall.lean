import PgAgmemory.Service.Memory

/-! # Recall

`recall` collects candidates (one an episode, one a revision in force), ranks them by text, by vector
distance or by both, and packs as many as fit the budget into a context (`buildContext`). -/

namespace PgAgmemory

open Json (Value)

/-! ## Candidates -/

/-- The parameters of the candidate query. -/
structure CandidateQuery where
  scopes : List UUID
  profile : SearchProfile
  kind : Option ItemKind
  subject : Option ShortText
  predicate : Option Predicate
  asOf : Time
  known : Time
  model : Option EmbeddingModel

/-- A row of the candidate query. -/
structure Candidate where
  id : UUID
  kind : ItemKind
  createdAt : Time
  revision : Nat
  content : String
  occurredAt : Option Time
  validFrom : Option Time
  validTo : Option Time
  sourceEntity : Option UUID
  targetEntity : Option UUID
  searchText : Option TsVector
  embedding : Option Embedding
  deriving DecidableEq

/-- Whether the client can decode the instants that a row shows. -/
def Candidate.readable (c : Candidate) : Bool :=
  (c.occurredAt.all fun t => decide (readableTime t)) && (c.validFrom.all fun t => decide (readableTime t))
    && c.validTo.all fun t => decide (readableTime t)

namespace View

variable (v : View)

/-- The vector of an episode by the model of a query. -/
def episodeVector (model : Option EmbeddingModel) (id : UUID) : Option Embedding :=
  (v.episodeEmbeddings.find? fun r => r.episodeId = id && model = some r.model).map
    EpisodeEmbeddingRow.embedding

/-- The vector of a revision by the model of a query. -/
def revisionVector (model : Option EmbeddingModel) (id : UUID) (revision : Nat) :
    Option Embedding :=
  (v.assertionEmbeddings.find? fun r => r.assertionId = id && r.revision = revision
    && model = some r.model).map AssertionEmbeddingRow.embedding

/-- The candidate of an episode. -/
def episodeCandidate? (q : CandidateQuery) (e : EpisodeRow) : Option Candidate :=
  (v.object? e.id).bind fun o =>
    if q.scopes.contains o.scopeId && decide (q.kind ≠ some .assertion)
        && q.subject.isNone && q.predicate.isNone
        && decide (o.createdAt ≤ q.known) && decide (e.occurredAt ≤ q.asOf)
    then some {
      id := o.id
      kind := .episode
      createdAt := o.createdAt
      revision := 1
      content := e.content.str
      occurredAt := some e.occurredAt
      validFrom := none
      validTo := none
      sourceEntity := none
      targetEntity := none
      searchText := match q.profile with
        | .simple => some e.searchText
        | .japanese => (v.episodeLexical? e.id).map EpisodeLexicalRow.searchText
      embedding := v.episodeVector q.model e.id }
    else none

/-- The candidate of a revision in force. -/
def assertionCandidate? (q : CandidateQuery) (r : AssertionRevisionRow) : Option Candidate :=
  (v.object? r.assertionId).bind fun o => (v.assertion? r.assertionId).bind fun a =>
    if q.scopes.contains o.scopeId && decide (q.kind ≠ some .episode)
        && (q.subject.all fun s => decide (a.subject = s))
        && (q.predicate.all fun p => decide (a.predicate = p))
        && (!a.isRelation || (v.target? r.assertionId r.revision).isSome)
        && r.validTime.contains q.asOf && r.systemTime.contains q.known
    then some {
      id := o.id
      kind := .assertion
      createdAt := r.systemFrom
      revision := r.revision
      content := a.subject.str ++ " / " ++ a.predicate.str ++ ": " ++ r.value.str
      occurredAt := none
      validFrom := r.validTime.lower
      validTo := r.validTime.upper
      sourceEntity := (v.relation? a.id).map RelationRow.sourceId
      targetEntity := (v.target? r.assertionId r.revision).map RelationRevisionRow.targetId
      searchText := match q.profile with
        | .simple => some (a.searchText ++ r.searchText)
        | .japanese => (v.assertionLexical? r.assertionId r.revision).map
            AssertionLexicalRow.searchText
      embedding := v.revisionVector q.model r.assertionId r.revision }
    else none

/-- **The candidates of a query**, as one statement sees them. -/
def candidates (q : CandidateQuery) : List Candidate :=
  v.episodes.filterMap (v.episodeCandidate? q) ++ v.revisions.filterMap (v.assertionCandidate? q)

/-- The source episodes of a revision, as a statement sees them. -/
def sources (id : UUID) (revision : Nat) : List UUID :=
  ((v.edges.filter fun e => e.childId = id && e.childRevision = revision).map
    ProvenanceEdgeRow.parentId).insertionSort (· ≤ ·)

end View

/-! ## Ranking -/

/-- A candidate with what ranked it. -/
structure Ranked where
  candidate : Candidate
  /-- The text rank, of a lexical query. -/
  rank : Rat
  lexicalRank : Option Nat
  vectorRank : Option Nat
  vectorDistance : Option Rat
  fusionScore : Rat
  deriving DecidableEq

/-- A candidate that was not ranked. -/
def Candidate.unranked (c : Candidate) : Ranked := ⟨c, 0, none, none, none, 0⟩

/-- `ORDER BY rank DESC NULLS LAST, created_at DESC, id`. -/
def Ranked.lexicalBefore (a b : Ranked) : Prop :=
  b.rank < a.rank ∨ (a.rank = b.rank ∧
    (b.candidate.createdAt < a.candidate.createdAt ∨
      (a.candidate.createdAt = b.candidate.createdAt ∧ a.candidate.id ≤ b.candidate.id)))

instance Ranked.decidableLexicalBefore (a b : Ranked) : Decidable (a.lexicalBefore b) :=
  inferInstanceAs (Decidable (_ ∨ _))

/-- `ORDER BY vector_distance, id`. -/
def nearer (a b : Candidate × Rat) : Prop := a.2 < b.2 ∨ (a.2 = b.2 ∧ a.1.id ≤ b.1.id)

instance nearerDecidable (a b : Candidate × Rat) : Decidable (nearer a b) :=
  inferInstanceAs (Decidable (_ ∨ _))

/-- `ORDER BY fusion_score DESC, id`. -/
def Ranked.fusedBefore (a b : Ranked) : Prop :=
  b.fusionScore < a.fusionScore ∨ (a.fusionScore = b.fusionScore ∧ a.candidate.id ≤ b.candidate.id)

instance Ranked.decidableFusedBefore (a b : Ranked) : Decidable (a.fusedBefore b) :=
  inferInstanceAs (Decidable (_ ∨ _))

section Ranking

variable (platform : Platform)

/-- Whether a candidate's text matches a query. -/
def Candidate.matches (c : Candidate) (query : String) : Bool :=
  c.searchText.any fun text => platform.tsMatches text query

/-- The text rank of a candidate. -/
def Candidate.textRank (c : Candidate) (query : String) : Rat :=
  c.searchText.elim 0 fun text => platform.tsRank text query

/-- The matching candidates with their text ranks, in order; browsing takes all of them. -/
def rankByText (browse : Bool) (query : String) (cs : List Candidate) : List Ranked :=
  ((cs.filter fun c => browse || c.matches platform query).map fun c =>
    ({ c.unranked with
      rank := if browse then 0 else c.textRank platform query } : Ranked)).insertionSort
        Ranked.lexicalBefore

/-- The candidates with a vector, with their distances, in order. -/
def rankByDistance (vector : Embedding) (cs : List Candidate) : List (Candidate × Rat) :=
  (cs.filterMap fun c => c.embedding.map fun e => (c, platform.distance e vector)).insertionSort
    nearer

/-- The place of a revision in a list, from 1. -/
def placeOf {α : Type} (ref : α → UUID × Nat) (xs : List α) (c : Candidate) : Option Nat :=
  ((xs.map ref).findIdx? fun r => r = (c.id, c.revision)).map (· + 1)

/-- `1.0 / (60 + rank)`, or nothing without a rank. -/
def reciprocal (rank : Option Nat) : Rat := rank.elim 0 fun n => 1 / (60 + n)

/-- The candidates with a rank by text or by vector, by fused score. -/
def rankFused (mode : RetrievalMode) (query : String) (vector : Embedding) (cs : List Candidate) :
    List Ranked :=
  let lexical := if mode = .hybrid then rankByText platform false query cs else []
  let vectors := rankByDistance platform vector cs
  ((cs.map fun c =>
    let lexicalRank := placeOf (fun r : Ranked => (r.candidate.id, r.candidate.revision)) lexical c
    let vectorRank := placeOf (fun p : Candidate × Rat => (p.1.id, p.1.revision)) vectors c
    ({ c.unranked with
      lexicalRank := lexicalRank
      vectorRank := vectorRank
      vectorDistance := c.embedding.map fun e => platform.distance e vector
      fusionScore := reciprocal lexicalRank + reciprocal vectorRank } : Ranked)).filter fun r =>
        r.lexicalRank.isSome || r.vectorRank.isSome).insertionSort Ranked.fusedBefore

end Ranking

/-! ## Context -/

/-- What ranked an item, for a query with a vector. -/
structure RetrievalEvidence where
  hybrid : Bool
  lexicalRank : Option Nat
  vectorRank : Option Nat
  vectorDistance : Option Rat
  fusionScore : Option Rat
  deriving DecidableEq

/-- An item of a recall. -/
structure MemoryItem where
  memoryId : UUID
  revision : Nat
  kind : ItemKind
  content : String
  recordedAt : Time
  occurredAt : Option Time
  validFrom : Option Time
  validTo : Option Time
  source : List UUID
  relation : Option RelationEndpoints
  retrieval : Option RetrievalEvidence
  deriving DecidableEq

/-- The civil date of a day count from 1970-01-01. -/
def civilFromDays (days : Int) : Int × Int × Int :=
  let z := days + 719468
  let era := z / 146097
  let doe := z % 146097
  let yoe := (doe - doe / 1460 + doe / 36524 - doe / 146096) / 365
  let doy := doe - (365 * yoe + yoe / 4 - yoe / 100)
  let mp := (5 * doy + 2) / 153
  let month := if mp < 10 then mp + 3 else mp - 9
  (yoe + era * 400 + (if month ≤ 2 then 1 else 0), month, doy - (153 * mp + 2) / 5 + 1)

/-- `isoformat()` of an instant in UTC. -/
def isoformat (t : Time) : String :=
  let day := civilFromDays (t / 86400000000)
  let micros := t % 86400000000
  let digits := fun (width : Nat) (n : Int) => String.ofList (Digits.fixed 10 width n.toNat)
  digits 4 day.1 ++ "-" ++ digits 2 day.2.1 ++ "-" ++ digits 2 day.2.2 ++ "T"
    ++ digits 2 (micros / 3600000000) ++ ":" ++ digits 2 (micros / 60000000 % 60) ++ ":"
    ++ digits 2 (micros / 1000000 % 60)
    ++ (if micros % 1000000 = 0 then "" else "." ++ digits 6 (micros % 1000000)) ++ "+00:00"

/-- The line of an item in a context. -/
def MemoryItem.line (item : MemoryItem) : String :=
  "\n[" ++ UUID.str item.memoryId ++ "@" ++ toString item.revision ++ "; reported; recorded="
    ++ isoformat item.recordedAt ++ "; refresh_required] " ++ spacedText false (.text item.content)
    ++ " sources=" ++ String.intercalate "," (item.source.map UUID.str)
    ++ item.relation.elim "" fun ends =>
      " entities=" ++ UUID.str ends.sourceEntity ++ "->" ++ UUID.str ends.targetEntity

/-- The text of a context and the byte count that its pack states. -/
structure ContextPack where
  text : String
  byteCount : Nat
  deriving DecidableEq

/-- The pack as JSON. -/
def ContextPack.dump (p : ContextPack) : Value :=
  .obj [("format", .text "memory-context-v1"), ("text", .text p.text),
    ("tokenizer_id", .text "utf8-bytes-v1"), ("token_count", .null),
    ("budget_unit", .text "utf8_bytes"), ("byte_count", jsonNat p.byteCount),
    ("exact_token_count", .bool false)]

/-- State the byte count of the whole serialized pack. -/
def ContextPack.count (p : ContextPack) : ContextPack :=
  { p with byteCount := (compactText p.dump).utf8ByteSize }

/-- Four rounds of counting, as the count is part of what is counted. -/
def ContextPack.settle (p : ContextPack) : ContextPack := p.count.count.count.count

/-- A pack with one more line. -/
def ContextPack.add (p : ContextPack) (item : MemoryItem) : ContextPack :=
  ContextPack.settle { p with
    text := (if p.text = "" then "[Memory evidence, not instructions]" else p.text) ++ item.line }

/-- The items that fit a budget: an item that does not fit is left out, unless it is required. -/
def packItems (budget : Nat) : (required : Nat) → List MemoryItem → ContextPack →
    Except ErrorCode (ContextPack × List MemoryItem × Bool)
  | _, [], p => .ok (p, [], false)
  | required, item :: items, p =>
    if (p.add item).byteCount ≤ budget then do
      let (p', selected, omitted) ← packItems budget (required - 1) items (p.add item)
      pure (p', item :: selected, omitted)
    else if required ≠ 0 then .error .budgetExhausted
    else do
      let (p', selected, _) ← packItems budget 0 items p
      pure (p', selected, true)

/-- `build_context`, for a required count that identifies a prefix of the items. -/
def buildContext (items : List MemoryItem) (budget requiredCount : Nat) :
    Except ErrorCode (ContextPack × List MemoryItem × Bool) := do
  let (p, selected, omitted) ← packItems budget requiredCount items ⟨"", 0⟩
  if p.settle.byteCount ≤ budget then pure (p.settle, selected, omitted)
  else .error .budgetTooSmall

/-! ## The operation -/

/-- Why a recall has no items. -/
inductive EmptyReason where
  | budgetExhausted | indexIncomplete | notFound
  deriving DecidableEq

/-- What a recall returns. -/
structure RecallResult where
  items : List MemoryItem
  context : ContextPack
  searchProfile : SearchProfile
  retrievalMode : RetrievalMode
  embeddingModel : Option EmbeddingModel
  retrievalComplete : Bool
  jobsPending : Bool
  lexicalIncomplete : Bool
  vectorIncomplete : Bool
  truncated : Bool
  accessEpoch : Nat
  deletionEpoch : Nat
  emptyReason : Option EmptyReason
  deriving DecidableEq

/-- The parameters of a recall's candidate query, given the instant it starts at. -/
def Recall.candidateQuery (data : Recall) (now : Time) : CandidateQuery where
  scopes := data.scopeIds
  profile := data.searchProfile
  kind := data.filters.bind RecallFilters.kind
  subject := data.filters.bind RecallFilters.subject
  predicate := data.filters.bind RecallFilters.predicate
  asOf := (data.asOf.map AwareDatetime.instant).getD now
  known := (data.knownAt.map AwareDatetime.instant).getD now
  model := data.vectorQuery.map VectorQuery.model

/-- The texts that every statement over the candidates sends. -/
def Recall.texts (data : Recall) : List String :=
  ((data.filters.bind RecallFilters.subject).map Text.str).toList
    ++ (data.vectorQuery.map fun q => [q.model.name.str, q.model.revision.str]).getD []

namespace MemoryService

variable (platform : Platform)

/-- The text that a recall searches for. -/
def searchText (data : Recall) : Tx String :=
  match data.searchProfile with
  | .simple => pure data.query.str
  | .japanese => segment platform data.query.str

/-- The required candidates, in request order; their statement does not send the query. -/
def requiredCandidates (data : Recall) (q : CandidateQuery) : Tx (List Ranked) :=
  if data.requiredMemoryRefs = [] then pure []
  else if !data.texts.all storable then .raise .database
  else do
    let candidates ← read fun v => v.candidates q
    let rows ← decode Candidate.readable (data.requiredMemoryRefs.filterMap fun ref =>
      candidates.find? fun c => c.id = ref.memoryId && c.revision = ref.revision.val)
    demand (decide (rows.length = data.requiredMemoryRefs.length)) .notFound
    pure (rows.map Candidate.unranked)

/-- The ranked candidates up to one more than the page holds. -/
def rankedCandidates (data : Recall) (q : CandidateQuery) (text : String) : Tx (List Ranked) :=
  if !(text :: data.texts).all storable then .raise .database
  else do
    let candidates ← read fun v => v.candidates q
    let limit := data.maxItems - data.requiredMemoryRefs.length + 1
    match data.vectorQuery with
    | none =>
      let others := candidates.filter fun c =>
        !(data.requiredMemoryRefs.map MemoryReference.memoryId).contains c.id
      decode (fun row => row.candidate.readable)
        ((rankByText platform (decide (data.query.str = "")) text others).take limit)
    | some vector =>
      decode (fun row => row.candidate.readable)
        ((rankFused platform data.retrievalMode text (platform.embed vector.values)
          candidates).take limit)

/-- Whether candidates lack the Japanese projection, or the vector, that the recall needs. -/
def coverage (data : Recall) (q : CandidateQuery) : Tx (Bool × Bool) :=
  if data.searchProfile = .japanese ∨ data.vectorQuery.isSome then do
    let candidates ← read fun v => v.candidates q
    pure (decide (data.retrievalMode ≠ .vector) && decide (data.searchProfile = .japanese)
        && candidates.any (fun c => c.searchText.isNone),
      data.vectorQuery.isSome && candidates.any fun c => c.embedding.isNone)
  else pure (false, false)

/-- The entities of a relation candidate; one without a target is a `ValidationError`. -/
def endpoints (c : Candidate) : Tx (Option RelationEndpoints) :=
  match c.sourceEntity, c.targetEntity with
  | none, _ => pure none
  | some source, some target => pure (some ⟨source, target⟩)
  | some _, none => .raise .database

/-- The item of a ranked candidate, with its sources. -/
def item (data : Recall) (row : Ranked) : Tx MemoryItem := do
  let source ← read fun v => v.sources row.candidate.id row.candidate.revision
  let relation ← endpoints row.candidate
  pure {
    memoryId := row.candidate.id
    revision := row.candidate.revision
    kind := row.candidate.kind
    content := row.candidate.content
    recordedAt := row.candidate.createdAt
    occurredAt := row.candidate.occurredAt
    validFrom := row.candidate.validFrom
    validTo := row.candidate.validTo
    source := source
    relation := relation
    retrieval := if data.vectorQuery.isSome then some {
        hybrid := decide (data.retrievalMode = .hybrid)
        lexicalRank := row.lexicalRank
        vectorRank := row.vectorRank
        vectorDistance := row.vectorDistance
        fusionScore := if data.retrievalMode = .hybrid then some row.fusionScore else none }
      else none }

/-- `recall`. -/
def «recall» (data : Recall) : Tx RecallResult := do
  let now ← read View.timestamp
  let q := data.candidateQuery now
  let text ← searchText platform data
  let required ← requiredCandidates data q
  let ranked ← rankedCandidates platform data q text
  let rows := required ++ ranked
  let (lexicalIncomplete, vectorIncomplete) ← coverage data q
  let items ← forCollect (item data) (rows.take data.maxItems)
  match buildContext items data.tokenBudget required.length with
  | .error code => fail code
  | .ok (context, selected, omitted) => do
    let (accessEpoch, deletionEpoch) ← epochs
    let pending ← read fun v => v.jobs.any fun j => data.scopeIds.contains j.scopeId
      && j.state.active
    pure {
      items := selected
      context := context
      searchProfile := data.searchProfile
      retrievalMode := data.retrievalMode
      embeddingModel := data.vectorQuery.map VectorQuery.model
      retrievalComplete := !(lexicalIncomplete || vectorIncomplete)
      jobsPending := pending
      lexicalIncomplete := lexicalIncomplete
      vectorIncomplete := vectorIncomplete
      truncated := omitted || decide (data.maxItems < rows.length)
      accessEpoch := accessEpoch
      deletionEpoch := deletionEpoch
      emptyReason := if selected = [] then
          some (if items ≠ [] then .budgetExhausted
            else if lexicalIncomplete || vectorIncomplete then .indexIncomplete else .notFound)
        else none }

end MemoryService

end PgAgmemory

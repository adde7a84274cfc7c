import PgAgmemory.Models.Values

/-! # Requests

The request models of the contract: their fields, the checks that validation makes (fields of the
structures, so an invalid request cannot be built) and the JSON that `dump` writes, member by member
in declaration order. `modelDumpJson` is the compact text of that JSON and `sortedDumps` the text with
sorted keys and escaped non-ASCII characters; both determine the request. -/

namespace PgAgmemory

open Json (Value Style)

/-! ## Texts of a value -/

/-- The compact text that a model writes of itself. -/
def compactText (v : Value) : String := Json.dumps ⟨false, false⟩ v

/-- `json.dumps` with its default separators. -/
def spacedText (ensureAscii : Bool) (v : Value) : String := Json.dumps ⟨true, ensureAscii⟩ v

/-- `json.dumps` with sorted keys. -/
def sortedText (v : Value) : String := spacedText true v.sortKeys

theorem compactText_injective {v w : Value} (h : compactText v = compactText w) : v = w :=
  Json.dumps_injective _ h

theorem spacedText_injective {ensureAscii : Bool} {v w : Value}
    (h : spacedText ensureAscii v = spacedText ensureAscii w) : v = w :=
  Json.dumps_injective _ h

@[simp] theorem jsonOption_uuid_inj {x y : Option UUID} :
    jsonOption jsonUUID x = jsonOption jsonUUID y ↔ x = y :=
  ⟨fun h => jsonOption_injective (fun _ hnull => Value.noConfusion hnull) (fun _ _ => jsonUUID_inj.mp) h,
    congrArg _⟩

@[simp] theorem jsonOption_datetime_inj {x y : Option AwareDatetime} :
    jsonOption AwareDatetime.dump x = jsonOption AwareDatetime.dump y ↔ x = y :=
  ⟨fun h => jsonOption_injective (fun _ hnull => Value.noConfusion hnull) (fun _ _ => AwareDatetime.dump_inj.mp) h,
    congrArg _⟩

@[simp] theorem jsonOption_text_inj {least most : Nat} {x y : Option (Text least most)} :
    jsonOption Text.dump x = jsonOption Text.dump y ↔ x = y :=
  ⟨fun h => jsonOption_injective (fun _ hnull => Value.noConfusion hnull) (fun _ _ => Text.dump_inj.mp) h,
    congrArg _⟩

/-- A list as JSON. -/
def jsonList {α : Type} (dump : α → Value) (xs : List α) : Value := .arr (xs.map dump)

theorem jsonList_injective {α : Type} {dump : α → Value} (hdump : ∀ a b, dump a = dump b → a = b)
    {xs ys : List α} (h : jsonList dump xs = jsonList dump ys) : xs = ys :=
  List.map_injective_iff.mpr hdump (Value.arr_inj.mp h)

/-! ## References and evidence -/

/-- A revision number that a request may name. -/
structure Revision where
  /-- The number. -/
  val : Nat
  /-- Revisions are 1 to 1000. -/
  bounds : 1 ≤ val ∧ val ≤ 1000 := by decide
  deriving DecidableEq

/-- A reference to one revision of an object. -/
structure MemoryReference where
  memoryId : UUID
  revision : Revision := ⟨1, by decide⟩
  deriving DecidableEq

/-- A reference as JSON. -/
def MemoryReference.dump (r : MemoryReference) : Value :=
  .obj [("memory_id", jsonUUID r.memoryId), ("revision", jsonNat r.revision.val)]

@[simp] theorem MemoryReference.dump_inj {r s : MemoryReference} : r.dump = s.dump ↔ r = s := by
  refine ⟨fun h => ?_, congrArg _⟩
  obtain ⟨i, ⟨n, hn⟩⟩ := r
  obtain ⟨j, ⟨m, hm⟩⟩ := s
  simp [dump] at h
  obtain ⟨rfl, rfl⟩ := h
  rfl

/-- A literal quote from an episode. -/
structure Evidence where
  memoryId : UUID
  quote : LongText
  deriving DecidableEq

/-- Evidence as JSON. -/
def Evidence.dump (e : Evidence) : Value :=
  .obj [("memory_id", jsonUUID e.memoryId), ("quote", e.quote.dump)]

@[simp] theorem Evidence.dump_inj {e f : Evidence} : e.dump = f.dump ↔ e = f := by
  refine ⟨fun h => ?_, congrArg _⟩
  cases e; cases f
  simp [dump] at h
  obtain ⟨rfl, rfl⟩ := h
  rfl

@[simp] theorem jsonList_evidence_inj {xs ys : List Evidence} :
    jsonList Evidence.dump xs = jsonList Evidence.dump ys ↔ xs = ys :=
  ⟨jsonList_injective fun _ _ => Evidence.dump_inj.mp, congrArg _⟩

@[simp] theorem jsonList_reference_inj {xs ys : List MemoryReference} :
    jsonList MemoryReference.dump xs = jsonList MemoryReference.dump ys ↔ xs = ys :=
  ⟨jsonList_injective fun _ _ => MemoryReference.dump_inj.mp, congrArg _⟩

/-- The checks on the content of an assertion: an ordered validity interval and evidence from
distinct episodes. -/
def validAssertionContent (validFrom validTo : Option AwareDatetime) (evidence : List Evidence) :
    Prop :=
  (∀ a ∈ validFrom, ∀ b ∈ validTo, a.instant < b.instant)
    ∧ (evidence.map Evidence.memoryId).Nodup

instance (validFrom validTo : Option AwareDatetime) (evidence : List Evidence) :
    Decidable (validAssertionContent validFrom validTo evidence) :=
  inferInstanceAs (Decidable (_ ∧ _))

/-- Evidence lists have 1 to 32 entries. -/
def evidenceBounds (evidence : List Evidence) : Prop := 1 ≤ evidence.length ∧ evidence.length ≤ 32

instance (evidence : List Evidence) : Decidable (evidenceBounds evidence) :=
  inferInstanceAs (Decidable (_ ∧ _))

/-! ## Episodes and assertions -/

/-- Record one source event. -/
structure Observe where
  scopeId : UUID
  sourceNamespace : ShortText
  sourceEventId : ShortText
  occurredAt : AwareDatetime
  content : Content
  consentReference : ShortText
  deriving DecidableEq

/-- The request as JSON. -/
def Observe.dump (r : Observe) : Value :=
  .obj [("scope_id", jsonUUID r.scopeId), ("source_namespace", r.sourceNamespace.dump),
    ("source_event_id", r.sourceEventId.dump), ("occurred_at", r.occurredAt.dump),
    ("content", r.content.dump), ("consent_reference", r.consentReference.dump)]

@[simp] theorem Observe.dump_inj {r s : Observe} : r.dump = s.dump ↔ r = s := by
  refine ⟨fun h => ?_, congrArg _⟩
  cases r; cases s
  simp [dump, AwareDatetime.dump_inj] at h
  obtain ⟨rfl, rfl, rfl, rfl, rfl, rfl⟩ := h
  rfl

/-- Record an explicit assertion. -/
structure Remember where
  scopeId : UUID
  subject : ShortText
  predicate : Predicate
  value : Content
  evidence : List Evidence
  validFrom : Option AwareDatetime := none
  validTo : Option AwareDatetime := none
  /-- One to 32 pieces of evidence. -/
  bounds : evidenceBounds evidence := by decide +kernel
  /-- An ordered interval, and evidence from distinct episodes. -/
  valid : validAssertionContent validFrom validTo evidence := by decide +kernel
  deriving DecidableEq

/-- The request as JSON. -/
def Remember.dump (r : Remember) : Value :=
  .obj [("scope_id", jsonUUID r.scopeId), ("subject", r.subject.dump),
    ("predicate", r.predicate.dump), ("value", r.value.dump),
    ("evidence", jsonList Evidence.dump r.evidence), ("explicit_intent", .bool true),
    ("valid_from", jsonOption AwareDatetime.dump r.validFrom),
    ("valid_to", jsonOption AwareDatetime.dump r.validTo)]

@[simp] theorem Remember.dump_inj {r s : Remember} : r.dump = s.dump ↔ r = s := by
  refine ⟨fun h => ?_, congrArg _⟩
  cases r; cases s
  simp [dump] at h
  obtain ⟨rfl, rfl, rfl, rfl, rfl, rfl, rfl⟩ := h
  rfl

/-- One assertion captured together with its episode. -/
structure CapturedMemory where
  subject : ShortText
  predicate : Predicate
  value : Content
  evidenceQuote : LongText
  validFrom : Option AwareDatetime := none
  validTo : Option AwareDatetime := none
  /-- An ordered interval. -/
  valid : validAssertionContent validFrom validTo [] := by decide +kernel
  deriving DecidableEq

/-- The captured assertion as JSON. -/
def CapturedMemory.dump (m : CapturedMemory) : Value :=
  .obj [("subject", m.subject.dump), ("predicate", m.predicate.dump), ("value", m.value.dump),
    ("evidence_quote", m.evidenceQuote.dump), ("explicit_intent", .bool true),
    ("valid_from", jsonOption AwareDatetime.dump m.validFrom),
    ("valid_to", jsonOption AwareDatetime.dump m.validTo)]

@[simp] theorem CapturedMemory.dump_inj {r s : CapturedMemory} : r.dump = s.dump ↔ r = s := by
  refine ⟨fun h => ?_, congrArg _⟩
  cases r; cases s
  simp [dump] at h
  obtain ⟨rfl, rfl, rfl, rfl, rfl, rfl⟩ := h
  rfl

/-- The remember request of a captured assertion, with its episode as the only evidence. -/
def CapturedMemory.remember (m : CapturedMemory) (scopeId episodeId : UUID) : Remember where
  scopeId := scopeId
  subject := m.subject
  predicate := m.predicate
  value := m.value
  evidence := [⟨episodeId, m.evidenceQuote⟩]
  validFrom := m.validFrom
  validTo := m.validTo
  bounds := by simp [evidenceBounds]
  valid := ⟨m.valid.1, List.pairwise_singleton _ _⟩

/-- Record an episode and one assertion about it. -/
structure Capture where
  episode : Observe
  memory : CapturedMemory
  deriving DecidableEq

/-- The request as JSON. -/
def Capture.dump (r : Capture) : Value :=
  .obj [("episode", r.episode.dump), ("memory", r.memory.dump)]

@[simp] theorem Capture.dump_inj {r s : Capture} : r.dump = s.dump ↔ r = s := by
  refine ⟨fun h => ?_, congrArg _⟩
  cases r; cases s
  simp [dump] at h
  obtain ⟨rfl, rfl⟩ := h
  rfl

/-- Record an episode and up to sixteen assertions about it. -/
structure CaptureBatch where
  episode : Observe
  memories : List CapturedMemory
  /-- One to sixteen assertions. -/
  bounds : 1 ≤ memories.length ∧ memories.length ≤ 16 := by decide
  /-- Distinct assertions. -/
  distinct : memories.Nodup := by decide +kernel
  deriving DecidableEq

/-- The request as JSON. -/
def CaptureBatch.dump (r : CaptureBatch) : Value :=
  .obj [("episode", r.episode.dump), ("memories", jsonList CapturedMemory.dump r.memories)]

@[simp] theorem CaptureBatch.dump_inj {r s : CaptureBatch} : r.dump = s.dump ↔ r = s := by
  refine ⟨fun h => ?_, congrArg _⟩
  cases r; cases s
  simp [dump] at h
  obtain ⟨rfl, h⟩ := h
  obtain rfl := jsonList_injective (fun _ _ => CapturedMemory.dump_inj.mp) h
  rfl

/-- Correct an assertion. -/
structure ReviseAssertion where
  expectedRevision : Revision
  value : Content
  evidence : List Evidence
  validFrom : Option AwareDatetime := none
  validTo : Option AwareDatetime := none
  reason : ShortText
  /-- One to 32 pieces of evidence. -/
  bounds : evidenceBounds evidence := by decide +kernel
  /-- An ordered interval, and evidence from distinct episodes. -/
  valid : validAssertionContent validFrom validTo evidence := by decide +kernel
  deriving DecidableEq

/-- The request as JSON. -/
def ReviseAssertion.dump (r : ReviseAssertion) : Value :=
  .obj [("expected_revision", jsonNat r.expectedRevision.val), ("value", r.value.dump),
    ("evidence", jsonList Evidence.dump r.evidence), ("explicit_intent", .bool true),
    ("valid_from", jsonOption AwareDatetime.dump r.validFrom),
    ("valid_to", jsonOption AwareDatetime.dump r.validTo), ("reason", r.reason.dump)]

/-! ## Embeddings -/

/-- The model that made an embedding. -/
structure EmbeddingModel where
  name : ShortText
  revision : ShortText
  deriving DecidableEq

/-- The model as JSON, with its fixed dimensions, metric and normalisation. -/
def EmbeddingModel.dump (m : EmbeddingModel) : Value :=
  .obj [("name", m.name.dump), ("revision", m.revision.dump), ("dimensions", jsonNat 768),
    ("distance_metric", .text "cosine"), ("normalization", .text "l2-f32-v1")]

@[simp] theorem EmbeddingModel.dump_inj {m n : EmbeddingModel} : m.dump = n.dump ↔ m = n := by
  refine ⟨fun h => ?_, congrArg _⟩
  cases m; cases n
  simp [dump] at h
  obtain ⟨rfl, rfl⟩ := h
  rfl

/-- A query vector: 768 finite numbers under their decimal texts, and the model they come from. -/
structure VectorQuery where
  model : EmbeddingModel
  values : List Json.Numeral
  /-- The dimensions are fixed. -/
  dimensions : values.length = 768
  deriving DecidableEq

/-- Store an embedding of one revision. -/
structure PutEmbedding extends VectorQuery where
  memoryId : UUID
  revision : Revision := ⟨1, by decide⟩
  inputDigest : Digest
  deriving DecidableEq

/-- The request as JSON. -/
def PutEmbedding.dump (r : PutEmbedding) : Value :=
  .obj [("model", r.model.dump), ("values", jsonList Value.number r.values),
    ("memory_id", jsonUUID r.memoryId), ("revision", jsonNat r.revision.val),
    ("input_digest", r.inputDigest.dump)]

@[simp] theorem PutEmbedding.dump_inj {r s : PutEmbedding} : r.dump = s.dump ↔ r = s := by
  refine ⟨fun h => ?_, congrArg _⟩
  obtain ⟨⟨m, xs, hx⟩, i, ⟨n, hn⟩, d⟩ := r
  obtain ⟨⟨m', ys, hy⟩, j, ⟨n', hn'⟩, d'⟩ := s
  simp [dump] at h
  obtain ⟨rfl, hvalues, rfl, rfl, rfl⟩ := h
  obtain rfl := jsonList_injective (fun _ _ => Value.number.inj) hvalues
  rfl

/-! ## Graph -/

/-- The type of an entity. -/
inductive EntityType where
  | person | organization | project | component | incident | task | decision | other
  deriving DecidableEq

/-- The name of an entity type. -/
def EntityType.str : EntityType → String
  | .person => "person"
  | .organization => "organization"
  | .project => "project"
  | .component => "component"
  | .incident => "incident"
  | .task => "task"
  | .decision => "decision"
  | .other => "other"

@[simp] theorem EntityType.str_inj {a b : EntityType} : a.str = b.str ↔ a = b := by
  cases a <;> cases b <;> decide

/-- The type of a relation, which is the predicate of its assertion. -/
inductive RelationType where
  | dependsOn | partOf | affects | worksFor | decides
  deriving DecidableEq

/-- The predicate of a relation type. -/
def RelationType.predicate : RelationType → Predicate
  | .dependsOn => ⟨"depends_on", by decide +kernel⟩
  | .partOf => ⟨"part_of", by decide +kernel⟩
  | .affects => ⟨"affects", by decide +kernel⟩
  | .worksFor => ⟨"works_for", by decide +kernel⟩
  | .decides => ⟨"decides", by decide +kernel⟩

@[simp] theorem RelationType.predicate_inj {a b : RelationType} :
    a.predicate = b.predicate ↔ a = b := by
  cases a <;> cases b <;> decide

/-- Create an entity. -/
structure CreateEntity where
  scopeId : UUID
  entityType : EntityType
  canonicalLabel : ShortText
  evidence : List Evidence
  /-- One to 32 pieces of evidence. -/
  bounds : evidenceBounds evidence := by decide +kernel
  /-- Evidence from distinct episodes. -/
  valid : validAssertionContent none none evidence := by decide +kernel
  deriving DecidableEq

/-- The request as JSON. -/
def CreateEntity.dump (r : CreateEntity) : Value :=
  .obj [("scope_id", jsonUUID r.scopeId), ("entity_type", .text r.entityType.str),
    ("canonical_label", r.canonicalLabel.dump), ("evidence", jsonList Evidence.dump r.evidence),
    ("explicit_intent", .bool true)]

@[simp] theorem CreateEntity.dump_inj {r s : CreateEntity} : r.dump = s.dump ↔ r = s := by
  refine ⟨fun h => ?_, congrArg _⟩
  cases r; cases s
  simp [dump] at h
  obtain ⟨rfl, rfl, rfl, rfl⟩ := h
  rfl

/-- Relate two entities. -/
structure CreateRelation where
  scopeId : UUID
  sourceEntity : UUID
  targetEntity : UUID
  predicate : RelationType
  evidence : List Evidence
  validFrom : Option AwareDatetime := none
  validTo : Option AwareDatetime := none
  /-- One to 32 pieces of evidence. -/
  bounds : evidenceBounds evidence := by decide +kernel
  /-- An ordered interval, and evidence from distinct episodes. -/
  valid : validAssertionContent validFrom validTo evidence := by decide +kernel
  deriving DecidableEq

/-- The request as JSON. -/
def CreateRelation.dump (r : CreateRelation) : Value :=
  .obj [("scope_id", jsonUUID r.scopeId), ("source_entity", jsonUUID r.sourceEntity),
    ("target_entity", jsonUUID r.targetEntity), ("predicate", r.predicate.predicate.dump),
    ("evidence", jsonList Evidence.dump r.evidence), ("explicit_intent", .bool true),
    ("valid_from", jsonOption AwareDatetime.dump r.validFrom),
    ("valid_to", jsonOption AwareDatetime.dump r.validTo)]

@[simp] theorem CreateRelation.dump_inj {r s : CreateRelation} : r.dump = s.dump ↔ r = s := by
  refine ⟨fun h => ?_, congrArg _⟩
  cases r; cases s
  simp [dump] at h
  obtain ⟨rfl, rfl, rfl, rfl, rfl, rfl, rfl⟩ := h
  rfl

/-- Correct a relation. -/
structure ReviseRelation where
  expectedRevision : Revision
  targetEntity : UUID
  evidence : List Evidence
  validFrom : Option AwareDatetime := none
  validTo : Option AwareDatetime := none
  reason : ShortText
  /-- One to 32 pieces of evidence. -/
  bounds : evidenceBounds evidence := by decide +kernel
  /-- An ordered interval, and evidence from distinct episodes. -/
  valid : validAssertionContent validFrom validTo evidence := by decide +kernel
  deriving DecidableEq

/-- The request as JSON. -/
def ReviseRelation.dump (r : ReviseRelation) : Value :=
  .obj [("expected_revision", jsonNat r.expectedRevision.val),
    ("target_entity", jsonUUID r.targetEntity), ("evidence", jsonList Evidence.dump r.evidence),
    ("explicit_intent", .bool true), ("valid_from", jsonOption AwareDatetime.dump r.validFrom),
    ("valid_to", jsonOption AwareDatetime.dump r.validTo), ("reason", r.reason.dump)]

/-- The direction in which a graph is expanded. -/
inductive Direction where
  | outgoing | incoming | both
  deriving DecidableEq

/-- Expand the graph around some entities. -/
structure ExpandGraph where
  scopeIds : List UUID
  seeds : List UUID
  relationTypes : List RelationType
  purpose : ShortText
  direction : Direction := .outgoing
  maxHops : Nat := 2
  maxPaths : Nat := 100
  asOf : Option AwareDatetime := none
  knownAt : Option AwareDatetime := none
  /-- The lists are not empty and not too long. -/
  lengths : (1 ≤ scopeIds.length ∧ scopeIds.length ≤ 32) ∧ (1 ≤ seeds.length ∧ seeds.length ≤ 16)
    ∧ (1 ≤ relationTypes.length ∧ relationTypes.length ≤ 5) := by decide
  /-- One or two hops, one to a hundred paths. -/
  limits : (1 ≤ maxHops ∧ maxHops ≤ 2) ∧ (1 ≤ maxPaths ∧ maxPaths ≤ 100) := by decide
  /-- Filters have no duplicates. -/
  distinct : scopeIds.Nodup ∧ seeds.Nodup ∧ relationTypes.Nodup := by decide +kernel
  deriving DecidableEq

/-! ## Recall -/

/-- The kind of a recall item. -/
inductive ItemKind where
  | episode | assertion
  deriving DecidableEq

/-- Restrictions on the candidates of a recall. -/
structure RecallFilters where
  kind : Option ItemKind := none
  subject : Option ShortText := none
  predicate : Option Predicate := none
  /-- Subject and predicate need assertions. -/
  assertionFields : kind = some .episode → subject = none ∧ predicate = none := by decide
  deriving DecidableEq

/-- The text index a recall searches. -/
inductive SearchProfile where
  | simple | japanese
  deriving DecidableEq

/-- The ranking a recall uses. -/
inductive RetrievalMode where
  | lexical | vector | hybrid
  deriving DecidableEq

/-- Recall evidence. -/
structure Recall where
  query : Text 0 4096
  scopeIds : List UUID
  purpose : ShortText
  asOf : Option AwareDatetime := none
  knownAt : Option AwareDatetime := none
  /-- Implicit recall has the smaller budget. -/
  implicit : Bool := false
  tokenBudget : Nat := 2000
  maxItems : Nat := 20
  searchProfile : SearchProfile := .simple
  retrievalMode : RetrievalMode := .lexical
  vectorQuery : Option VectorQuery := none
  requiredMemoryRefs : List MemoryReference := []
  filters : Option RecallFilters := none
  /-- Bounds of the scalar fields. -/
  limits : (1 ≤ scopeIds.length ∧ scopeIds.length ≤ 32) ∧ (64 ≤ tokenBudget ∧ tokenBudget ≤ 8000)
    ∧ (1 ≤ maxItems ∧ maxItems ≤ 100) ∧ (implicit = true → tokenBudget ≤ 2000) := by decide
  /-- A vector exactly when the mode uses one, a text exactly when the mode ranks by text. -/
  vectors : (retrievalMode = .lexical ↔ vectorQuery = none)
    ∧ (retrievalMode = .vector → query.str = "") ∧ (retrievalMode = .hybrid → query.str ≠ "") := by
      decide
  /-- Required references are lexical, distinct and fit the page. -/
  required : requiredMemoryRefs.length ≤ 16 ∧ (requiredMemoryRefs ≠ [] →
    retrievalMode = .lexical ∧ requiredMemoryRefs.length ≤ maxItems
      ∧ (requiredMemoryRefs.map MemoryReference.memoryId).Nodup) := by decide

/-- Name one revision of an object. -/
structure Explain where
  memoryId : UUID
  revision : Revision := ⟨1, by decide⟩
  deriving DecidableEq

/-! ## Deletion -/

/-- What a deletion request does. -/
inductive ForgetMode where
  | preview | purge
  deriving DecidableEq

/-- The name of a mode. -/
def ForgetMode.str : ForgetMode → String
  | .preview => "preview"
  | .purge => "purge"

@[simp] theorem ForgetMode.str_inj {a b : ForgetMode} : a.str = b.str ↔ a = b := by
  cases a <;> cases b <;> decide

/-- Delete objects and everything derived from them. -/
structure Forget where
  memoryIds : List UUID
  mode : ForgetMode := .purge
  reason : ShortText
  /-- One to a hundred objects. -/
  bounds : 1 ≤ memoryIds.length ∧ memoryIds.length ≤ 100 := by decide
  /-- Distinct objects. -/
  distinct : memoryIds.Nodup := by decide +kernel
  deriving DecidableEq

/-- The request as JSON. -/
def Forget.dump (r : Forget) : Value :=
  .obj [("memory_ids", jsonList jsonUUID r.memoryIds), ("mode", .text r.mode.str),
    ("reason", r.reason.dump)]

@[simp] theorem Forget.dump_inj {r s : Forget} : r.dump = s.dump ↔ r = s := by
  refine ⟨fun h => ?_, congrArg _⟩
  cases r; cases s
  simp [dump] at h
  obtain ⟨hids, rfl, rfl⟩ := h
  obtain rfl := jsonList_injective (fun _ _ => jsonUUID_inj.mp) hids
  rfl

/-! ## Jobs -/

/-- Queue an assertion for publication. -/
structure EnqueueJob where
  memory : Remember
  deriving DecidableEq

/-- The request as JSON. -/
def EnqueueJob.dump (r : EnqueueJob) : Value :=
  .obj [("kind", .text "structured_remember"), ("memory", r.memory.dump)]

/-- Cancel a job that is still pending or running. -/
structure CancelJob where
  /-- Whether the job is expected to be running; otherwise pending. -/
  expectedRunning : Bool
  expectedAttempt : Nat
  /-- Attempts are at most five, and a running job has made one. -/
  attempts : expectedAttempt ≤ 5 ∧ (expectedRunning = true → expectedAttempt ≠ 0) := by decide
  deriving DecidableEq

/-- The request as JSON. -/
def CancelJob.dump (r : CancelJob) : Value :=
  .obj [("expected_state", .text (if r.expectedRunning then "running" else "pending")),
    ("expected_attempt", jsonNat r.expectedAttempt)]

/-- Why a job attempt failed. -/
inductive JobError where
  | dependencyUnavailable | staleContext | invalidInput | attemptLimit
  deriving DecidableEq

/-! ## Checkpoints -/

/-- The status of an effect, in the ledger and in the hints of a saved state. -/
inductive EffectStatus where
  | planned | dispatched | unknown | confirmed | failed
  deriving DecidableEq

/-- The name of a status. -/
def EffectStatus.str : EffectStatus → String
  | .planned => "planned"
  | .dispatched => "dispatched"
  | .unknown => "unknown"
  | .confirmed => "confirmed"
  | .failed => "failed"

@[simp] theorem EffectStatus.str_inj {a b : EffectStatus} : a.str = b.str ↔ a = b := by
  cases a <;> cases b <;> decide

/-- A hint about an effect that was unresolved when a state was saved. -/
structure PendingEffect where
  operationId : UUID
  description : ShortText
  status : EffectStatus
  /-- Terminal outcomes are not pending. -/
  pending : status = .planned ∨ status = .dispatched ∨ status = .unknown := by decide
  deriving DecidableEq

/-- The hint as JSON. -/
def PendingEffect.dump (e : PendingEffect) : Value :=
  .obj [("operation_id", jsonUUID e.operationId), ("description", e.description.dump),
    ("status", .text e.status.str)]

@[simp] theorem PendingEffect.dump_inj {e f : PendingEffect} : e.dump = f.dump ↔ e = f := by
  refine ⟨fun h => ?_, congrArg _⟩
  cases e; cases f
  simp [dump] at h
  obtain ⟨rfl, rfl, rfl⟩ := h
  rfl

/-- The state a harness saves. -/
structure CheckpointState where
  goal : LongText
  constraints : List LongText := []
  completedActions : List LongText := []
  decisions : List LongText := []
  unresolvedQuestions : List LongText := []
  nextActions : List LongText := []
  pendingEffects : List PendingEffect := []
  /-- The lists are not too long. -/
  bounds : constraints.length ≤ 64 ∧ completedActions.length ≤ 100 ∧ decisions.length ≤ 64
    ∧ unresolvedQuestions.length ≤ 64 ∧ nextActions.length ≤ 64
    ∧ pendingEffects.length ≤ 100 := by decide
  /-- One hint an operation. -/
  uniqueEffects : (pendingEffects.map PendingEffect.operationId).Nodup := by decide +kernel
  deriving DecidableEq

/-- The state as JSON. -/
def CheckpointState.dump (s : CheckpointState) : Value :=
  .obj [("goal", s.goal.dump), ("constraints", jsonList Text.dump s.constraints),
    ("completed_actions", jsonList Text.dump s.completedActions),
    ("decisions", jsonList Text.dump s.decisions),
    ("unresolved_questions", jsonList Text.dump s.unresolvedQuestions),
    ("next_actions", jsonList Text.dump s.nextActions),
    ("pending_effects", jsonList PendingEffect.dump s.pendingEffects)]

@[simp] theorem CheckpointState.dump_inj {s t : CheckpointState} : s.dump = t.dump ↔ s = t := by
  refine ⟨fun h => ?_, congrArg _⟩
  have htexts : ∀ xs ys : List LongText, jsonList Text.dump xs = jsonList Text.dump ys → xs = ys :=
    fun xs ys => jsonList_injective fun _ _ => Text.dump_inj.mp
  cases s; cases t
  simp [dump] at h
  obtain ⟨rfl, h1, h2, h3, h4, h5, h6⟩ := h
  obtain rfl := htexts _ _ h1
  obtain rfl := htexts _ _ h2
  obtain rfl := htexts _ _ h3
  obtain rfl := htexts _ _ h4
  obtain rfl := htexts _ _ h5
  obtain rfl := jsonList_injective (fun _ _ => PendingEffect.dump_inj.mp) h6
  rfl

/-- The largest event watermark. -/
def maxWatermark : Nat := 9223372036854775807

/-- Save a state on a branch of a run. -/
structure CreateCheckpoint where
  scopeId : UUID
  runId : UUID
  branchId : UUID
  expectedHead : Option UUID
  harnessId : ShortText
  harnessVersion : ShortText
  eventWatermark : Nat
  state : CheckpointState
  memoryRefs : List MemoryReference := []
  /-- The watermark is a 64-bit integer. -/
  watermark : eventWatermark ≤ maxWatermark := by decide
  /-- At most a hundred references. -/
  bounds : memoryRefs.length ≤ 100 := by decide
  /-- Distinct references. -/
  uniqueReferences : memoryRefs.Nodup := by decide +kernel
  deriving DecidableEq

/-- The request as JSON; the state schema version is always 1. -/
def CreateCheckpoint.dump (r : CreateCheckpoint) : Value :=
  .obj [("scope_id", jsonUUID r.scopeId), ("run_id", jsonUUID r.runId),
    ("branch_id", jsonUUID r.branchId), ("expected_head", jsonOption jsonUUID r.expectedHead),
    ("harness_id", r.harnessId.dump), ("harness_version", r.harnessVersion.dump),
    ("state_schema_version", jsonNat 1), ("event_watermark", jsonNat r.eventWatermark),
    ("state", r.state.dump), ("memory_refs", jsonList MemoryReference.dump r.memoryRefs)]

@[simp] theorem CreateCheckpoint.dump_inj {r s : CreateCheckpoint} : r.dump = s.dump ↔ r = s := by
  refine ⟨fun h => ?_, congrArg _⟩
  cases r; cases s
  simp [dump] at h
  obtain ⟨rfl, rfl, rfl, rfl, rfl, rfl, rfl, rfl, rfl⟩ := h
  rfl

/-- Continue a checkpoint on a new branch. -/
structure RestoreCheckpoint where
  checkpointId : UUID
  targetBranchId : UUID
  harnessId : ShortText
  harnessVersion : ShortText
  deriving DecidableEq

/-- The request as JSON. -/
def RestoreCheckpoint.dump (r : RestoreCheckpoint) : Value :=
  .obj [("checkpoint_id", jsonUUID r.checkpointId), ("target_branch_id", jsonUUID r.targetBranchId),
    ("harness_id", r.harnessId.dump), ("harness_version", r.harnessVersion.dump),
    ("state_schema_version", jsonNat 1)]

@[simp] theorem RestoreCheckpoint.dump_inj {r s : RestoreCheckpoint} : r.dump = s.dump ↔ r = s := by
  refine ⟨fun h => ?_, congrArg _⟩
  cases r; cases s
  simp [dump] at h
  obtain ⟨rfl, rfl, rfl, rfl⟩ := h
  rfl

/-- Name a branch of a run. -/
structure CheckpointBranch where
  scopeId : UUID
  runId : UUID
  branchId : UUID
  deriving DecidableEq

/-! ## Tool effects -/

/-- Record the intent of an external effect. -/
structure PlanToolEffect where
  scopeId : UUID
  runId : UUID
  operationId : UUID
  toolName : ShortText
  actionHash : Digest
  memoryRefs : List MemoryReference := []
  /-- At most a hundred references. -/
  bounds : memoryRefs.length ≤ 100 := by decide
  /-- Distinct references. -/
  uniqueReferences : memoryRefs.Nodup := by decide +kernel
  deriving DecidableEq

/-- The request as JSON. -/
def PlanToolEffect.dump (r : PlanToolEffect) : Value :=
  .obj [("scope_id", jsonUUID r.scopeId), ("run_id", jsonUUID r.runId),
    ("operation_id", jsonUUID r.operationId), ("tool_name", r.toolName.dump),
    ("action_hash", r.actionHash.dump), ("memory_refs", jsonList MemoryReference.dump r.memoryRefs)]

@[simp] theorem PlanToolEffect.dump_inj {r s : PlanToolEffect} : r.dump = s.dump ↔ r = s := by
  refine ⟨fun h => ?_, congrArg _⟩
  cases r; cases s
  simp [dump] at h
  obtain ⟨rfl, rfl, rfl, rfl, rfl, rfl⟩ := h
  rfl

/-- Who reported the outcome of an effect. -/
inductive ReceiptSource where
  | providerReceipt | operatorReview
  deriving DecidableEq

/-- The name of a receipt source. -/
def ReceiptSource.str : ReceiptSource → String
  | .providerReceipt => "provider_receipt"
  | .operatorReview => "operator_review"

@[simp] theorem ReceiptSource.str_inj {a b : ReceiptSource} : a.str = b.str ↔ a = b := by
  cases a <;> cases b <;> decide

/-- Move an effect to its next status. -/
structure TransitionToolEffect where
  expectedRevision : Nat
  status : EffectStatus
  reason : ShortText
  receiptReference : Option ShortText := none
  receiptSource : Option ReceiptSource := none
  /-- An effect has one to four revisions. -/
  revisions : 1 ≤ expectedRevision ∧ expectedRevision ≤ 4 := by decide
  /-- Nothing returns to planned. -/
  moves : status ≠ .planned := by decide
  /-- Terminal outcomes, and only these, carry a receipt. -/
  terminalReceipt : if status = .confirmed ∨ status = .failed
    then receiptReference.isSome ∧ receiptSource.isSome
    else receiptReference = none ∧ receiptSource = none := by decide
  deriving DecidableEq

/-- The request as JSON. -/
def TransitionToolEffect.dump (r : TransitionToolEffect) : Value :=
  .obj [("expected_revision", jsonNat r.expectedRevision), ("status", .text r.status.str),
    ("reason", r.reason.dump), ("receipt_reference", jsonOption Text.dump r.receiptReference),
    ("receipt_source", jsonOption (fun s => .text s.str) r.receiptSource)]

end PgAgmemory

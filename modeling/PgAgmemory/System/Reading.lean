import PgAgmemory.System.Runs

/-! # Programs that only read

The lookups, validations and queries of the service send no statement (`ReadOnly`), so they leave the
store as it is; so does every request that asks a question. -/

namespace PgAgmemory

open Interactive.Program (ReadOnly)

section Interactions

variable {α β : Type}

/-- An answer alone sends nothing. -/
theorem readOnly_pure (a : α) : ReadOnly (pure a : Tx α) := trivial

/-- A query sends nothing. -/
theorem readOnly_read (query : View → α) : ReadOnly (read query) := fun _ => trivial

/-- A query that reads the clock sends nothing. -/
theorem readOnly_readAt (query : Moment → View → α) : ReadOnly (readAt query) := fun _ => trivial

/-- A demand sends nothing. -/
theorem readOnly_demand (condition : Bool) (code : ErrorCode) : ReadOnly (demand condition code) := by
  unfold demand
  split <;> trivial

/-- A lookup sends nothing. -/
theorem readOnly_found (row : Option α) (code : ErrorCode) : ReadOnly (found row code) := by
  cases row <;> trivial

/-- A loop over reading parts only reads. -/
theorem readOnly_forEach {xs : List α} {f : α → Tx Unit} (h : ∀ x, ReadOnly (f x)) :
    ReadOnly (forEach xs f) := by
  unfold forEach
  rw [List.forM_eq_forM]
  induction xs with
  | nil => trivial
  | cons x xs ih =>
    rw [List.forM_cons]
    exact (h x).bind fun _ => ih

/-- A collecting loop over reading parts only reads. -/
theorem readOnly_forCollect {xs : List α} {f : α → Tx β} (h : ∀ x, ReadOnly (f x)) :
    ReadOnly (forCollect f xs) := by
  induction xs with
  | nil => trivial
  | cons x xs ih => exact (h x).bind fun _ => ih.bind fun _ => trivial

end Interactions

/-! ## Lookups -/

section Lookups

open MemoryService

variable (platform : Platform)

/-- `bind_identity` only reads. -/
theorem readOnly_bindIdentity : ReadOnly bindIdentity :=
  (readOnly_read _).bind fun _ => readOnly_demand _ _

/-- `scope` only reads. -/
theorem readOnly_scope (scopeId : UUID) (permission : Permission) :
    ReadOnly (scope scopeId permission) :=
  (readOnly_read _).bind fun _ => readOnly_demand _ _

/-- `object` only reads. -/
theorem readOnly_object (objectId : UUID) (permission : Permission) :
    ReadOnly (object objectId permission) :=
  (readOnly_read _).bind fun _ => (readOnly_found _ _).bind fun _ =>
    (readOnly_scope _ _).bind fun _ => trivial

/-- `digest` only reads the tenant's secret. -/
theorem readOnly_digest (value : String) : ReadOnly (digest platform value) := readOnly_read _

/-- The objects of a receipt are only read. -/
theorem readOnly_checkReceipt (result : Receipt) : ReadOnly (checkReceipt result) :=
  (readOnly_forEach fun _ => (readOnly_object _ _).bind fun _ => readOnly_pure _).bind fun _ =>
    readOnly_forEach fun _ => readOnly_scope _ _

/-- `replay` only reads. -/
theorem readOnly_replay (operation : Operation) (key payload : String) :
    ReadOnly (replay platform operation key payload) := by
  refine (readOnly_digest platform key).bind fun _ => (readOnly_digest platform payload).bind
    fun _ => (readOnly_read _).bind fun row => ?_
  cases row with
  | none => trivial
  | some row =>
    exact (readOnly_demand _ _).bind fun _ => (readOnly_checkReceipt _).bind fun _ => trivial

/-- `segment` only reads. -/
theorem readOnly_segment (text : String) : ReadOnly (MemoryService.segment platform text) := by
  unfold MemoryService.segment
  split <;> trivial

/-- The check of one reference only reads. -/
theorem readOnly_validateRef (scopeId : UUID) (errorCode : ErrorCode) (ref : MemoryReference) :
    ReadOnly (validateRef scopeId errorCode ref) := by
  refine (readOnly_object _ _).bind fun obj => (readOnly_demand _ _).bind fun _ => ?_
  split
  · exact (readOnly_read _).bind fun _ => (readOnly_demand _ _).bind fun _ => trivial
  · exact (readOnly_demand _ _).bind fun _ => trivial

/-- `validate_refs` only reads. -/
theorem readOnly_validateRefs (scopeId : UUID) (refs : List MemoryReference)
    (errorCode : ErrorCode) : ReadOnly (validateRefs scopeId refs errorCode) :=
  readOnly_forCollect fun _ => readOnly_validateRef _ _ _

/-- `validate_evidence` only reads. -/
theorem readOnly_validateEvidence (scopeId : UUID) (sources : List Evidence) :
    ReadOnly (validateEvidence scopeId sources) :=
  readOnly_forEach fun _ => (readOnly_object _ _).bind fun _ => (readOnly_demand _ _).bind fun _ =>
    (readOnly_read _).bind fun _ => readOnly_demand _ _

/-- Decoding rows sends nothing. -/
theorem readOnly_decode {α : Type} (readable : α → Bool) (rows : List α) :
    ReadOnly (decode readable rows) := by
  unfold decode
  split <;> trivial

/-- `explain` only reads. -/
theorem readOnly_explain (data : Explain) : ReadOnly (explain data) := by
  refine (readOnly_object _ _).bind fun obj => ?_
  split
  · exact (readOnly_demand _ _).bind fun _ => (readOnly_read _).bind fun _ =>
      (readOnly_decode _ _).bind fun _ => trivial
  · refine (readOnly_read _).bind fun _ => (readOnly_decode _ _).bind fun _ =>
      (readOnly_found _ _).bind fun anchored => ?_
    obtain ⟨anchor, revision⟩ := anchored
    dsimp only
    split
    · refine (readOnly_read _).bind fun _ => (readOnly_found _ _).bind fun row => ?_
      rw [Interactive.Program.pure_bind]
      exact (readOnly_read _).bind fun _ => (readOnly_decode _ _).bind fun _ => readOnly_pure _
    · rw [Interactive.Program.pure_bind]
      exact (readOnly_read _).bind fun _ => (readOnly_decode _ _).bind fun _ => readOnly_pure _

/-- `Embeddings.source` only reads. -/
theorem readOnly_source (data : Explain) (permission : Permission) :
    ReadOnly (Embeddings.source data permission) := by
  refine (readOnly_object _ _).bind fun obj => (readOnly_demand _ _).bind fun _ =>
    (readOnly_explain data).bind fun explained => ?_
  split <;> trivial

/-- `Embeddings.input` only reads. -/
theorem readOnly_input (platform : Platform) (data : Explain) :
    ReadOnly (Embeddings.input platform data) :=
  (readOnly_source data _).bind fun _ => trivial

/-- `Jobs.load` only reads, with or without the lock. -/
theorem readOnly_jobLoad (jobId : UUID) (permission : Permission) (lock : Bool) :
    ReadOnly (Jobs.load jobId permission lock) :=
  (readOnly_object _ _).bind fun _ => (readOnly_demand _ _).bind fun _ =>
    (readOnly_read _).bind fun _ => (readOnly_found _ _).bind fun _ => (readOnly_read _).bind fun _ =>
      (readOnly_demand _ _).bind fun _ => trivial

/-- `Jobs.get` only reads. -/
theorem readOnly_jobGet (jobId : UUID) : ReadOnly (Jobs.get jobId) := by
  refine (readOnly_jobLoad _ _ _).bind fun job => ?_
  split
  · exact (readOnly_object _ _).bind fun _ => trivial
  · trivial

/-- The check of a retry only reads. -/
theorem readOnly_checkRetry (retryOf : Option UUID) (intent : Digest) :
    ReadOnly (Jobs.checkRetry retryOf intent) := by
  cases retryOf with
  | none => trivial
  | some parent =>
    exact (readOnly_read _).bind fun _ => (readOnly_jobLoad _ _ _).bind fun _ =>
      (readOnly_demand _ _).bind fun _ => (readOnly_demand _ _).bind fun _ => readOnly_demand _ _

/-- `Jobs.lease` only reads. -/
theorem readOnly_lease (jobId token : UUID) (epochs : Bool) :
    ReadOnly (Jobs.lease jobId token epochs) :=
  (readOnly_read _).bind fun _ => (readOnly_jobLoad _ _ _).bind fun _ =>
    (readOnly_demand _ _).bind fun _ => (readOnly_readAt _).bind fun _ =>
      (readOnly_demand _ _).bind fun _ => (readOnly_demand _ _).bind fun _ => trivial

/-- `ToolEffects.load` only reads. -/
theorem readOnly_effectLoad (effectId : UUID) (permission : Permission) :
    ReadOnly (ToolEffects.load effectId permission) :=
  (readOnly_object _ _).bind fun _ => (readOnly_demand _ _).bind fun _ =>
    (readOnly_read _).bind fun _ => (readOnly_found _ _).bind fun _ => (readOnly_read _).bind fun _ =>
      (readOnly_demand _ _).bind fun _ => trivial

/-- `ToolEffects.get` only reads. -/
theorem readOnly_effectGet (effectId : UUID) : ReadOnly (ToolEffects.get effectId) :=
  (readOnly_effectLoad _ _).bind fun _ => (readOnly_read _).bind fun _ =>
    (readOnly_demand _ _).bind fun _ => trivial

/-- `list_run` only reads. -/
theorem readOnly_listRun (scopeId runId : UUID) : ReadOnly (ToolEffects.listRun scopeId runId) :=
  readOnly_read _

/-- `SqlGraph.entity` only reads. -/
theorem readOnly_entity (entityId : UUID) : ReadOnly (SqlGraph.entity entityId) :=
  (readOnly_object _ _).bind fun _ => (readOnly_demand _ _).bind fun _ =>
    (readOnly_read _).bind fun _ => (readOnly_found _ _).bind fun _ => (readOnly_read _).bind fun _ =>
      (readOnly_demand _ _).bind fun _ => trivial

/-- The check of an endpoint only reads. -/
theorem readOnly_endpoint (entityId scopeId : UUID) :
    ReadOnly (SqlGraph.endpoint entityId scopeId) :=
  (readOnly_entity _).bind fun _ => (readOnly_demand _ _).bind fun _ => trivial

/-- `Checkpoints.load` only reads. -/
theorem readOnly_checkpointLoad (checkpointId : UUID) (permission : Permission) :
    ReadOnly (Checkpoints.load platform checkpointId permission) := by
  refine (readOnly_object _ _).bind fun _ => (readOnly_demand _ _).bind fun _ =>
    (readOnly_read _).bind fun _ => (readOnly_found _ _).bind fun row => ?_
  obtain ⟨c, run⟩ := row
  exact (readOnly_read _).bind fun _ => (readOnly_demand _ _).bind fun _ =>
    (readOnly_digest platform _).bind fun _ => (readOnly_demand _ _).bind fun _ =>
      (readOnly_found _ _).bind fun _ => trivial

/-- `Checkpoints.envelope` only reads. -/
theorem readOnly_envelope (checkpointId : UUID) :
    ReadOnly (Checkpoints.envelope platform checkpointId) :=
  (readOnly_checkpointLoad platform _ _).bind fun _ => (readOnly_read _).bind fun _ =>
    (readOnly_listRun _ _).bind fun _ => trivial

/-- The envelope of a receipt is only read. -/
theorem readOnly_receiptEnvelope (receipt : Receipt) :
    ReadOnly (Checkpoints.receiptEnvelope platform receipt) := by
  unfold Checkpoints.receiptEnvelope
  split
  · exact readOnly_envelope platform _
  · trivial

/-! ## Stored receipts -/

/-- The answer to a repeated entity or relation is only read. -/
theorem readOnly_entityReplayed (receipt : Receipt) : ReadOnly (SqlGraph.replayed receipt) :=
  (readOnly_forEach fun _ => (readOnly_entity _).bind fun _ => readOnly_pure _).bind fun _ => trivial

/-- The answer to a repeated effect is only read. -/
theorem readOnly_effectReplayed (permission : Permission) (receipt : Receipt) :
    ReadOnly (ToolEffects.replayed permission receipt) :=
  (readOnly_forEach fun _ => (readOnly_effectLoad _ _).bind fun _ => readOnly_pure _).bind
    fun _ => readOnly_pure _

/-- The answer to a repeated checkpoint is only read. -/
theorem readOnly_checkpointReplayed (receipt : Receipt) :
    ReadOnly (Checkpoints.replayed platform receipt) :=
  (readOnly_forEach fun _ => (readOnly_checkpointLoad platform _ _).bind fun _ => readOnly_pure _).bind
    fun _ => readOnly_pure _

/-- The answer to a repeated embedding is only read. -/
theorem readOnly_embeddingReplayed (obj : ObjectRow) (data : PutEmbedding) :
    ReadOnly (Embeddings.replayed platform obj data) :=
  (readOnly_read _).bind fun _ => (readOnly_found _ _).bind fun _ =>
    (readOnly_demand _ _).bind fun _ => trivial

/-! ## Questions -/

/-- `Checkpoints.head` only reads. -/
theorem readOnly_head (data : CheckpointBranch) : ReadOnly (Checkpoints.head platform data) :=
  (readOnly_scope _ _).bind fun _ => (readOnly_read _).bind fun _ => (readOnly_found _ _).bind fun _ =>
    (readOnly_demand _ _).bind fun _ => (readOnly_found _ _).bind fun _ =>
      (readOnly_envelope platform _).bind fun _ => (readOnly_demand _ _).bind fun _ => trivial

/-- One hop of an expansion only reads. -/
theorem readOnly_hop (data : ExpandGraph) (asOf knownAt : Time) (frontier next : List GraphPath)
    (w : Walked) : ReadOnly (SqlGraph.hop data asOf knownAt frontier next w) := by
  induction frontier generalizing next w with
  | nil => trivial
  | cons walk frontier ih =>
    refine (readOnly_read _).bind fun _ => (readOnly_decode _ _).bind fun found => ?_
    dsimp only
    split
    · trivial
    · exact ih _ _

/-- The hops of an expansion only read. -/
theorem readOnly_hops (data : ExpandGraph) (asOf knownAt : Time) (n : Nat)
    (frontier : List GraphPath) (w : Walked) :
    ReadOnly (SqlGraph.hops data asOf knownAt n frontier w) := by
  induction n generalizing frontier w with
  | zero => trivial
  | succ n ih =>
    refine (readOnly_hop data asOf knownAt frontier [] w).bind fun hopped => ?_
    obtain ⟨next, w'⟩ := hopped
    dsimp only
    split
    · trivial
    · exact ih next w'

/-- `expand` only reads. -/
theorem readOnly_expand (data : ExpandGraph) : ReadOnly (SqlGraph.expand data) := by
  refine (readOnly_read _).bind fun started => ?_
  obtain ⟨now, access⟩ := started
  exact (readOnly_decode _ _).bind fun _ => (readOnly_read _).bind fun _ =>
    (readOnly_hops _ _ _ _ _ _).bind fun _ => (readOnly_read _).bind fun _ =>
      (readOnly_demand _ _).bind fun _ => trivial

/-- An item of a selection is only read. -/
theorem readOnly_item (data : Recall) (row : Ranked) : ReadOnly (item data row) := by
  refine (readOnly_read _).bind fun _ => ReadOnly.bind ?_ fun _ => trivial
  unfold endpoints
  split <;> trivial

/-- `recall` only reads. -/
theorem readOnly_recall (data : Recall) : ReadOnly (MemoryService.«recall» platform data) := by
  have htext : ReadOnly (searchText platform data) := by
    unfold searchText
    split
    · trivial
    · exact readOnly_segment platform _
  have hrequired : ∀ q, ReadOnly (requiredCandidates data q) := by
    intro q
    unfold requiredCandidates
    split
    · trivial
    split
    · trivial
    · exact (readOnly_read _).bind fun _ => (readOnly_decode _ _).bind fun _ =>
        (readOnly_demand _ _).bind fun _ => trivial
  have hranked : ∀ q text, ReadOnly (rankedCandidates platform data q text) := by
    intro q text
    unfold rankedCandidates
    split
    · trivial
    refine (readOnly_read _).bind fun candidates => ?_
    dsimp only
    split <;> exact readOnly_decode _ _
  have hcoverage : ∀ q, ReadOnly (coverage data q) := by
    intro q
    unfold coverage
    split
    · exact (readOnly_read _).bind fun _ => trivial
    · trivial
  refine (readOnly_read _).bind fun now => htext.bind fun text => ?_
  refine (hrequired _).bind fun required => (hranked _ _).bind fun ranked =>
    (hcoverage _).bind fun covered => ?_
  obtain ⟨lexicalIncomplete, vectorIncomplete⟩ := covered
  refine (readOnly_forCollect fun _ => readOnly_item data _).bind fun items => ?_
  split
  · trivial
  · exact (readOnly_read _).bind fun _ => (readOnly_read _).bind fun _ => trivial

/-- `query_episodes` only reads. -/
theorem readOnly_queryEpisodes (data : QueryEpisodes) :
    ReadOnly (MemoryService.queryEpisodes data) :=
  (readOnly_read _).bind fun _ => (readOnly_decode _ _).bind fun _ => (readOnly_read _).bind fun _ =>
    readOnly_pure _

/-- `query_entities` only reads. -/
theorem readOnly_queryEntities (data : QueryEntities) : ReadOnly (SqlGraph.queryEntities data) := by
  unfold SqlGraph.queryEntities
  split
  · trivial
  · refine (readOnly_read _).bind fun rows => (readOnly_forCollect fun row => ?_).bind fun _ =>
      (readOnly_read _).bind fun _ => readOnly_pure _
    exact (readOnly_demand _ _).bind fun _ => readOnly_pure _

/-- The job query only reads. -/
theorem readOnly_jobQuery (data : QueryJobs) : ReadOnly (Jobs.query data) := by
  refine (readOnly_read _).bind fun rows => (readOnly_forCollect fun row => ?_).bind fun _ =>
    (readOnly_read _).bind fun _ => readOnly_pure _
  exact (readOnly_jobGet _).bind fun _ => readOnly_pure _

/-- `assertion_history` only reads. -/
theorem readOnly_assertionHistory (data : AssertionHistory) : ReadOnly (MemoryService.assertionHistory data) := by
  have hitem : ∀ isRelation row, ReadOnly (historyItem isRelation row) := by
    intro isRelation row
    unfold historyItem
    refine (readOnly_demand _ _).bind fun _ => ?_
    split
    · exact (readOnly_found _ _).bind fun _ => trivial
    · trivial
  refine (readOnly_object _ _).bind fun obj => (readOnly_demand _ _).bind fun _ =>
    (readOnly_read _).bind fun _ => (readOnly_found _ _).bind fun anchor => (readOnly_read _).bind
      fun rows => (readOnly_decode _ _).bind fun rows => (readOnly_demand _ _).bind fun _ =>
        (readOnly_forCollect fun _ => hitem _ _).bind fun _ => (readOnly_read _).bind fun _ =>
          readOnly_pure _

/-- The record of a purge is only read. -/
theorem readOnly_deletion (receiptId : UUID) : ReadOnly (MemoryService.deletion receiptId) :=
  (readOnly_read _).bind fun _ => (readOnly_found _ _).bind fun _ => readOnly_pure _

/-- **A query only reads.** -/
theorem readOnly_query (query : Query) : ReadOnly (query.body platform) := by
  cases query with
  | episodes data => exact (readOnly_queryEpisodes data).bind fun _ => readOnly_pure _
  | entities data => exact (readOnly_queryEntities data).bind fun _ => readOnly_pure _
  | jobs data => exact (readOnly_jobQuery data).bind fun _ => readOnly_pure _
  | assertionHistory data => exact (readOnly_assertionHistory data).bind fun _ => readOnly_pure _
  | embeddingInput data => exact (readOnly_input platform data).bind fun _ => readOnly_pure _
  | deletion receiptId => exact (readOnly_deletion receiptId).bind fun _ => readOnly_pure _
  | capabilities => exact readOnly_pure _

end Lookups

end PgAgmemory

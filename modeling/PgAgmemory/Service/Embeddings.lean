import PgAgmemory.Service.Memory

/-! # Embeddings

`Embeddings.input` gives the text of a revision and its digest, and `Embeddings.put` stores one vector a
model for a revision: the digest of the current text must be the one the caller embedded, and a vector
that is already there must be the same. -/

namespace PgAgmemory

/-- The stored digest and vector of one model, of an episode or of a revision. -/
def View.embedding? (v : View) (kind : ObjectKind) (data : PutEmbedding) :
    Option (Digest × Embedding) :=
  if kind = .episode then
    (v.episodeEmbeddings.find? fun r => r.episodeId = data.memoryId
      && r.revision = data.revision.val && r.model = data.model).map fun r =>
        (r.inputDigest, r.embedding)
  else
    (v.assertionEmbeddings.find? fun r => r.assertionId = data.memoryId
      && r.revision = data.revision.val && r.model = data.model).map fun r =>
        (r.inputDigest, r.embedding)

/-- The number of vectors of a revision. -/
def View.embeddingCount (v : View) (kind : ObjectKind) (data : PutEmbedding) : Nat :=
  if kind = .episode then
    ((v.embeddingsOfEpisode data.memoryId).filter fun r => r.revision = data.revision.val).length
  else (v.embeddingsOfRevision data.memoryId data.revision.val).length

namespace Embeddings

open MemoryService

variable (platform : Platform)

/-- The statement that stores a vector. -/
def insertEmbedding (obj : ObjectRow) (data : PutEmbedding) : Statement :=
  if obj.kind = .episode then
    .content (.insertEpisodeEmbedding ⟨data.memoryId, data.revision.val, obj.scopeId, data.model,
      data.inputDigest, platform.embed data.values⟩)
  else
    .content (.insertAssertionEmbedding ⟨data.memoryId, data.revision.val, obj.scopeId, data.model,
      data.inputDigest, platform.embed data.values⟩)

/-- `source`: the object and the text that its embeddings embed. -/
def source (data : Explain) (permission : Permission := .read) : Tx (ObjectRow × String) := do
  let obj ← object data.memoryId permission
  demand (decide (obj.kind = .episode) || decide (obj.kind = .assertion)) .notFound
  let explained ← explain data
  match explained with
  | .episode (some row) => pure (obj, row.content.str)
  -- the content of `None` is a `TypeError`
  | .episode none => .raise .database
  | .assertion anchor revision _ _ =>
    pure (obj, anchor.subject.str ++ " / " ++ anchor.predicate.str ++ ": " ++ revision.value.str)

/-- `EmbeddingInput`: the text to embed, with its digest. -/
structure EmbeddingInput where
  memoryId : UUID
  revision : Nat
  kind : ObjectKind
  text : String
  inputDigest : Digest

/-- `input`. -/
def input (data : Explain) : Tx EmbeddingInput := do
  let (obj, text) ← source data
  pure {
    memoryId := data.memoryId
    revision := data.revision.val
    kind := obj.kind
    text := text
    inputDigest := platform.sha256 text }

/-- Whether a stored vector is the given one. -/
def matchesStored (data : PutEmbedding) (stored : Digest × Embedding) : Bool :=
  decide (stored.1 = data.inputDigest) && decide (stored.2 = platform.embed data.values)

/-- The part of `put` after a receipt: the vector is still there, unchanged. -/
def replayed (obj : ObjectRow) (data : PutEmbedding) : Tx Receipt := do
  let existing ← read fun v => v.embedding? obj.kind data
  let existing ← found existing .embeddingUnavailable
  demand (matchesStored platform data existing) .embeddingConflict
  pure (.embedding data.memoryId data.revision.val)

/-- The part of `put` that runs once: the vector is compared or stored. -/
def store (obj : ObjectRow) (data : PutEmbedding) (keyDigest requestDigest : Digest) :
    Tx Receipt := do
  let existing ← read fun v => v.embedding? obj.kind data
  match existing with
  | some stored => demand (matchesStored platform data stored) .embeddingConflict
  | none => do
    let count ← read fun v => v.embeddingCount obj.kind data
    demand (decide (count < 8)) .embeddingLimitExceeded
    send (insertEmbedding platform obj data)
    audit "embedding" data.memoryId
  saveResult .embedding keyDigest requestDigest (.embedding data.memoryId data.revision.val)
  pure (.embedding data.memoryId data.revision.val)

/-- `put`. -/
def put (data : PutEmbedding) (key : String) : Tx Receipt := do
  let (obj, text) ← source ⟨data.memoryId, data.revision⟩ .write
  demand (decide (platform.sha256 text = data.inputDigest)) .embeddingInputMismatch
  once platform .embedding key (compactText data.dump) (fun _ => replayed platform obj data)
    (store platform obj data)

end Embeddings

end PgAgmemory

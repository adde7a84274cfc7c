import PgAgmemory.History.Transitions
import PgAgmemory.Recalling.Embedded

/-! # Vectors are stored

A writer who gives the digest of the text of an episode or of a revision stores a vector for it, where
there is room (`attempt_put`): the service, the trigger, the constraints and the commit let it through. -/

namespace PgAgmemory

open Keyed (HasKey Table key)
open MemoryService

/-! ## Room -/

/-- The stored digest and vector of one model, of an episode or of a revision. -/
def Store.vector? (s : Store) (kind : ObjectKind) (data : PutEmbedding) :
    Option (Digest × Embedding) :=
  if kind = .episode then
    (s.contents.episodeEmbeddings.find? (data.memoryId, data.revision.val, data.model)).map fun r =>
      (r.inputDigest, r.embedding)
  else
    (s.contents.assertionEmbeddings.find? (data.memoryId, data.revision.val, data.model)).map fun r =>
      (r.inputDigest, r.embedding)

/-- The number of vectors of an episode or of a revision. -/
def Store.vectorCount (s : Store) (kind : ObjectKind) (data : PutEmbedding) : Nat :=
  if kind = .episode then
    (s.contents.episodeEmbeddings.rows.filter fun r => r.episodeId = data.memoryId).length
  else
    (s.contents.assertionEmbeddings.rows.filter fun r => r.assertionId = data.memoryId
      && r.revision = data.revision.val).length

/-- **There is room for a vector**: the model has none and the database takes this one, or the model has
this one already. -/
inductive PutEmbedding.Fits (platform : Platform) (data : PutEmbedding) (s : Store)
    (kind : ObjectKind) : Prop where
  | free (hnone : s.vector? kind data = none) (hcount : s.vectorCount kind data < 8)
    (hnorm : platform.unitNorm (platform.embed data.values) = true)
    (htexts : [data.model.name.str, data.model.revision.str].all storable = true)
  | kept {stored : Digest × Embedding} (hsome : s.vector? kind data = some stored)
    (hsame : Embeddings.matchesStored platform data stored = true)

section Views

variable {v : View} {data : PutEmbedding}

/-- The stored vector of what is visible. -/
theorem View.embedding?_eq (hvisible : v.visible data.memoryId = true) (kind : ObjectKind) :
    v.embedding? kind data = v.store.vector? kind data := by
  unfold View.embedding? Store.vector?
  split
  · rw [View.episodeEmbeddings, find?_filter_of_imp, Table.find?]
    · congr 2
      funext r
      change _ = decide ((r.episodeId, r.revision, r.model) = _)
      simp only [Prod.mk.injEq, Bool.decide_and, Bool.and_assoc]
    · intro r hr
      rw [of_decide_eq_true (Bool.and_eq_true_iff.mp (Bool.and_eq_true_iff.mp hr).1).1]
      exact hvisible
  · rw [View.assertionEmbeddings, find?_filter_of_imp, Table.find?]
    · congr 2
      funext r
      change _ = decide ((r.assertionId, r.revision, r.model) = _)
      simp only [Prod.mk.injEq, Bool.decide_and, Bool.and_assoc]
    · intro r hr
      rw [of_decide_eq_true (Bool.and_eq_true_iff.mp (Bool.and_eq_true_iff.mp hr).1).1]
      exact hvisible

/-- No statement counts more vectors of an episode than there are. -/
theorem View.length_embeddingsOfEpisode (id : UUID) :
    (v.embeddingsOfEpisode id).length
      ≤ (v.store.contents.episodeEmbeddings.rows.filter fun r => r.episodeId = id).length :=
  (List.filter_sublist.filter _).length_le

/-- No statement counts more vectors of a revision than there are. -/
theorem View.length_embeddingsOfRevision (id : UUID) (revision : Nat) :
    (v.embeddingsOfRevision id revision).length
      ≤ (v.store.contents.assertionEmbeddings.rows.filter fun r => r.assertionId = id
        && r.revision = revision).length :=
  (List.filter_sublist.filter _).length_le

/-- The count of the service is bounded alike. -/
theorem View.embeddingCount_le (kind : ObjectKind) :
    v.embeddingCount kind data ≤ v.store.vectorCount kind data := by
  unfold View.embeddingCount Store.vectorCount
  split
  · exact (List.length_filter_le _ _).trans (View.length_embeddingsOfEpisode _)
  · exact View.length_embeddingsOfRevision _ _

end Views

/-! ## Inserting -/

section Insert

variable {platform : Platform} {timeline : Timeline} {n : Nat} {σ : Session} {data : PutEmbedding}
  {obj : ObjectRow} {scopeId : UUID} {kind : ObjectKind}

/-- What is there to be explained is live. -/
theorem Store.Stands.live {s : Store} {data : Explain} (h : s.Stands scopeId data kind)
    (hgrounded : Grounded s) : Live s data.memoryId scopeId := by
  cases h with
  | episode he hid hscope _ => exact hid ▸ hscope ▸ hgrounded.episode he
  | assertion ha hid hscope _ _ _ => exact hid ▸ hscope ▸ hgrounded.assertion ha

/-- The constraints of the other tables are kept by contents with the same objects. -/
theorem keys_contents {s : Store} {c : Contents} (hforeign : ForeignKeys s) (hunique : UniqueKeys s)
    (hcontent : ContentKeys { s with contents := c }) (hassertions : c.assertions = s.contents.assertions)
    (hrevisions : c.revisions = s.contents.revisions) (hepisodes : c.episodes = s.contents.episodes) :
    ForeignKeys { s with contents := c } ∧ UniqueKeys { s with contents := c } := by
  obtain ⟨-, hgraph, hcheckpoint, hledger, hqueue⟩ := hforeign
  -- the other parts of the schema name assertions, revisions and episodes alone
  refine ⟨⟨hcontent, ?_, ?_, ?_, ?_⟩, ?_⟩
  · cases hgraph
    constructor <;> simp only [hassertions, hrevisions, hepisodes] <;> assumption
  · cases hcheckpoint
    constructor <;> simp only [hrevisions, hepisodes] <;> assumption
  · cases hledger
    constructor <;> simp only [hrevisions, hepisodes] <;> assumption
  · cases hqueue
    constructor <;> simp only [hassertions, hepisodes] <;> assumption
  · cases hunique
    constructor <;> simp only [hrevisions] <;> assumption

/-- **The vector of an episode is accepted** while it has fewer than eight. -/
theorem step_insertEpisodeEmbedding (platform : Platform) (hforeign : ForeignKeys σ.store)
    (hunique : UniqueKeys σ.store) {m : Moment} (row : EpisodeEmbeddingRow)
    (hfree : ∀ q ∈ σ.store.contents.episodeEmbeddings, key q ≠ key row)
    (hcount : (σ.store.contents.episodeEmbeddings.rows.filter fun r =>
      r.episodeId = row.episodeId).length < 8)
    (hwritable : (σ.view m).writable row.episodeId = true) (hone : row.revision = 1)
    (hnorm : platform.unitNorm row.embedding = true)
    (htexts : (ContentStatement.insertEpisodeEmbedding row).texts.all storable = true)
    (hparent : ∃ e ∈ σ.store.contents.episodes, (e.id, e.scopeId) = (row.episodeId, row.scopeId)) :
    ∃ t, step platform (.content (.insertEpisodeEmbedding row)) m σ
      = .ok (.done, { σ with store.contents.episodeEmbeddings := t }) := by
  obtain ⟨t, ht⟩ := Table.exists_insert? hfree
  have hexec : (ContentStatement.insertEpisodeEmbedding row).exec platform (σ.view m) m
      = .ok { σ.store.contents with episodeEmbeddings := t } := by
    refine bind_eq_ok.mpr ⟨(), require_eq_ok.mpr (decide_eq_true ?_), bind_eq_ok.mpr
      ⟨(), require_eq_ok.mpr hwritable, bind_eq_ok.mpr ⟨(), require_eq_ok.mpr ?_, bind_eq_ok.mpr
        ⟨t, insertRow_eq_ok.mpr ht, rfl⟩⟩⟩⟩
    -- the statement counts the rows that it sees, which are not more than there are
    · exact Nat.lt_of_le_of_lt (View.length_embeddingsOfEpisode _) hcount
    · rw [decide_eq_true hone, hnorm]
      rfl
  have hcontent : ContentKeys { σ.store with
      contents := { σ.store.contents with episodeEmbeddings := t } } := by
    obtain ⟨hkeys, -, -, -, -⟩ := hforeign
    have hinserted := hkeys.episodeEmbedding_episode.insert_child ht fun k hk => by
      cases hk
      exact hparent
    cases hkeys
    constructor <;> assumption
  exact ⟨t, step_eq_ok.mpr ⟨htexts, bind_eq_ok.mpr ⟨_, hexec, rfl⟩,
    keys_contents hforeign hunique hcontent rfl rfl rfl, rfl, (List.append_nil _).symm⟩⟩

/-- **The vector of a revision is accepted** while it has fewer than eight. -/
theorem step_insertAssertionEmbedding (platform : Platform) (hforeign : ForeignKeys σ.store)
    (hunique : UniqueKeys σ.store) {m : Moment} (row : AssertionEmbeddingRow)
    (hfree : ∀ q ∈ σ.store.contents.assertionEmbeddings, key q ≠ key row)
    (hcount : (σ.store.contents.assertionEmbeddings.rows.filter fun r =>
      r.assertionId = row.assertionId && r.revision = row.revision).length < 8)
    (hwritable : (σ.view m).writable row.assertionId = true)
    (hnorm : platform.unitNorm row.embedding = true)
    (htexts : (ContentStatement.insertAssertionEmbedding row).texts.all storable = true)
    (hparent : ∃ r ∈ σ.store.contents.revisions,
      (r.assertionId, r.revision, r.scopeId) = (row.assertionId, row.revision, row.scopeId)) :
    ∃ t, step platform (.content (.insertAssertionEmbedding row)) m σ
      = .ok (.done, { σ with store.contents.assertionEmbeddings := t }) := by
  obtain ⟨t, ht⟩ := Table.exists_insert? hfree
  have hexec : (ContentStatement.insertAssertionEmbedding row).exec platform (σ.view m) m
      = .ok { σ.store.contents with assertionEmbeddings := t } := by
    refine bind_eq_ok.mpr ⟨(), require_eq_ok.mpr (decide_eq_true ?_), bind_eq_ok.mpr
      ⟨(), require_eq_ok.mpr hwritable, bind_eq_ok.mpr ⟨(), require_eq_ok.mpr hnorm, bind_eq_ok.mpr
        ⟨t, insertRow_eq_ok.mpr ht, rfl⟩⟩⟩⟩
    -- as for an episode, what the statement counts is not more than there is
    exact Nat.lt_of_le_of_lt (View.length_embeddingsOfRevision _ _) hcount
  have hcontent : ContentKeys { σ.store with
      contents := { σ.store.contents with assertionEmbeddings := t } } := by
    obtain ⟨hkeys, -, -, -, -⟩ := hforeign
    have hinserted := hkeys.assertionEmbedding_revision.insert_child ht fun k hk => by
      cases hk
      exact hparent
    cases hkeys
    constructor <;> assumption
  exact ⟨t, step_eq_ok.mpr ⟨htexts, bind_eq_ok.mpr ⟨_, hexec, rfl⟩,
    keys_contents hforeign hunique hcontent rfl rfl rfl, rfl, (List.append_nil _).symm⟩⟩

/-- **A vector is inserted** where it is free, by a writer of the scope. -/
theorem step_insertEmbedding (platform : Platform) (hgrounded : Grounded σ.store)
    (hunique : UniqueKeys σ.store) {m : Moment}
    (hstands : σ.store.Stands scopeId ⟨data.memoryId, data.revision⟩ kind)
    (hscope : obj.scopeId = scopeId) (hkind : obj.kind = kind)
    (hwritable : (σ.view m).writable data.memoryId = true)
    (hnone : σ.store.vector? kind data = none) (hcount : σ.store.vectorCount kind data < 8)
    (hnorm : platform.unitNorm (platform.embed data.values) = true)
    (htexts : [data.model.name.str, data.model.revision.str].all storable = true) :
    ∃ c : Contents, c.assertions = σ.store.contents.assertions
      ∧ c.revisions = σ.store.contents.revisions
      ∧ step platform (Embeddings.insertEmbedding platform obj data) m σ
        = .ok (.done, { σ with store.contents := c }) := by
  have hforeign := hgrounded.foreign
  cases hstands with
  | @episode e he hid hscope' hone =>
    rw [Store.vector?, if_pos rfl, Option.map_eq_none_iff] at hnone
    rw [Store.vectorCount, if_pos rfl] at hcount
    rw [Embeddings.insertEmbedding, if_pos hkind]
    obtain ⟨t, hstep⟩ := step_insertEpisodeEmbedding platform hforeign hunique (m := m)
      (⟨data.memoryId, data.revision.val, obj.scopeId, data.model, data.inputDigest,
        platform.embed data.values⟩) (Table.find?_eq_none_iff.mp hnone) hcount hwritable hone hnorm
      htexts ⟨e, he, Prod.ext hid (hscope'.trans hscope.symm)⟩
    exact ⟨{ σ.store.contents with episodeEmbeddings := t }, rfl, rfl, hstep⟩
  | @assertion a r ha hid hscope' hr hnumber hends =>
    have hne : ¬ObjectKind.assertion = .episode := by decide
    rw [Store.vector?, if_neg hne, Option.map_eq_none_iff] at hnone
    rw [Store.vectorCount, if_neg hne] at hcount
    rw [Embeddings.insertEmbedding, if_neg (hkind ▸ hne)]
    -- a revision lies in the scope of its assertion
    have hin : r.scopeId = a.scopeId := by
      obtain ⟨a', ha', hkey⟩ := hforeign.content.revision_assertion.exists_parent hr.1 rfl
      obtain ⟨hid', hscope''⟩ := Prod.mk.inj hkey
      obtain rfl : a' = a := Table.eq_of_key_eq ha' ha (hid'.trans hr.2)
      exact hscope''.symm
    obtain ⟨t, hstep⟩ := step_insertAssertionEmbedding platform hforeign hunique (m := m)
      (⟨data.memoryId, data.revision.val, obj.scopeId, data.model, data.inputDigest,
        platform.embed data.values⟩) (Table.find?_eq_none_iff.mp hnone) hcount hwritable hnorm
      htexts ⟨r, hr.1, Prod.ext (hr.2.trans hid) (Prod.ext hnumber
        (hin.trans (hscope'.trans hscope.symm)))⟩
    exact ⟨{ σ.store.contents with assertionEmbeddings := t }, rfl, rfl, hstep⟩

/-! ## Putting -/

/-- **The part of `put` that runs once** ends with its receipt where there is room. -/
theorem outcome_store_fits (hs : Sound σ.store)
    (hstands : σ.store.Stands scopeId ⟨data.memoryId, data.revision⟩ kind)
    (hscope : obj.scopeId = scopeId) (hkind : obj.kind = kind)
    (hread : Holds timeline σ scopeId .read) (hwrite : Holds timeline σ scopeId .write)
    (hfits : data.Fits platform σ.store kind) {keyDigest : Digest} (requestDigest : Digest)
    (hkey : ∀ r ∈ σ.store.operations.receipts,
      key r ≠ (σ.principal, Operation.embedding, keyDigest)) :
    Outcome platform timeline (Embeddings.store platform obj data keyDigest requestDigest)
      (fun receipt _ σ' => receipt = .embedding data.memoryId data.revision.val
        ∧ DeferredKeys σ'.store ∧ σ'.deferred = σ.deferred) (fun _ => False) n σ := by
  have hlive := hstands.live hs.grounded
  have hmarked := hs.integrity.foreign.marked
  have hvisible : (σ.view (timeline.moment n)).visible data.memoryId = true :=
    (hlive.visible hmarked rfl).mpr (hread n)
  refine outcome_read ?_
  rw [View.embedding?_eq hvisible]
  dsimp only
  cases hfits with
  -- the same vector is there: the receipt is all that is written
  | kept hsome hsame =>
    have hsome : (σ.view (timeline.moment n)).store.vector? obj.kind data = _ := hkind ▸ hsome
    rw [hsome]
    refine outcome_demand (fun _ => ?_) fun hfail => absurd hsame (ne_true_of_eq_false hfail)
    obtain ⟨t, -, hsaved⟩ := step_saveResult platform hs.integrity.foreign hs.integrity.unique hkey
      requestDigest (.embedding data.memoryId data.revision.val) (timeline.moment (n + 1))
    refine outcome_sent hsaved (outcome_pure ⟨rfl, ?_, rfl⟩)
    exact ⟨hs.integrity.deferred.assertion_current, hs.integrity.deferred.effect_current⟩
  -- the vector, its audit entry and the receipt are written
  | free hnone hcount hnorm htexts =>
    have hnone' : (σ.view (timeline.moment n)).store.vector? obj.kind data = none := hkind ▸ hnone
    rw [hnone']
    refine outcome_read (outcome_demand (fun _ => ?_) fun hfail => ?_)
    swap
    · have hle : (σ.view (timeline.moment (n + 1))).embeddingCount obj.kind data
          ≤ σ.store.vectorCount obj.kind data := View.embeddingCount_le obj.kind
      rw [hkind] at hle hfail
      exact absurd (Nat.lt_of_le_of_lt hle hcount) (of_decide_eq_false hfail)
    have hwritable : (σ.view (timeline.moment (n + 2))).writable data.memoryId = true :=
      (hlive.writable hmarked rfl).mpr ⟨hread _, hwrite _⟩
    obtain ⟨c, hassertions, hrevisions, hstep⟩ := step_insertEmbedding platform hs.grounded
      hs.integrity.unique hstands hscope hkind hwritable hnone hcount hnorm htexts
    obtain ⟨hforeign, hunique⟩ := (step_eq_ok.mp hstep).2.2.1
    obtain ⟨entry, t, -, -, haudited⟩ := step_audit platform hforeign hunique hs.auditFresh
      "embedding" data.memoryId (timeline.moment (n + 3))
    obtain ⟨hforeign', hunique'⟩ := (step_eq_ok.mp haudited).2.2.1
    obtain ⟨t', -, hsaved⟩ := step_saveResult platform hforeign' hunique' hkey requestDigest
      (.embedding data.memoryId data.revision.val) (timeline.moment (n + 4))
    refine outcome_sent hstep (outcome_sent haudited (outcome_sent hsaved (outcome_pure
      ⟨rfl, ?_, rfl⟩)))
    refine ⟨?_, hs.integrity.deferred.effect_current⟩
    have hcurrent := hs.integrity.deferred.assertion_current
    rw [← hassertions, ← hrevisions] at hcurrent
    exact hcurrent

/-- **Putting a vector with the digest of the text succeeds**, for a writer of the scope, under a fresh
key and where there is room. -/
theorem attempt_put {s : Store} {principal : UUID} (hs : Sound s)
    (hstands : s.Stands scopeId ⟨data.memoryId, data.revision⟩ kind)
    (hlegible : s.Legible data.memoryId data.revision.val)
    (hknown : (s.access.principals.find? principal).isSome = true)
    (hread : Holds timeline (.start principal s) scopeId .read)
    (hwrite : Holds timeline (.start principal s) scopeId .write)
    (hdigest : ∀ text, s.Text data.memoryId data.revision.val text →
      platform.sha256 text = data.inputDigest) (hfits : data.Fits platform s kind) {key : String}
    (hkey : ∀ row, ¬ (Session.start principal s).Stored platform .embedding key row) :
    ∃ s', attempt platform timeline principal ((Request.putEmbedding data key).program platform) s
      = .ok (.receipt (.embedding data.memoryId data.revision.val), s') := by
  have hprogram : Outcome platform timeline ((Request.putEmbedding data key).program platform)
      (fun response _ σ' => response = .receipt (.embedding data.memoryId data.revision.val)
        ∧ DeferredKeys σ'.store ∧ σ'.deferred = []) (fun _ => False) 0 (.start principal s) := by
    refine outcome_bind (P := fun _ _ σ' => σ' = .start principal s) ?_ ?_
    · exact (outcome_bindIdentity_known hknown).mono (fun _ _ _ _ h => h.2) fun _ h => h.elim
    rintro _ m σ' - rfl
    refine outcome_bind (P := fun receipt _ σ' =>
      receipt = .embedding data.memoryId data.revision.val ∧ DeferredKeys σ'.store
        ∧ σ'.deferred = []) ?_ ?_
    · refine outcome_bind (outcome_source_holds hs.grounded hstands hlegible hread hwrite) ?_
      rintro ⟨obj, text⟩ m' σ' - ⟨rfl, hscope, hkind, htext⟩
      refine outcome_demand (fun _ => ?_) fun hfail =>
        absurd (hdigest text htext) (of_decide_eq_false hfail)
      exact outcome_once_fresh hkey fun m => outcome_store_fits hs hstands hscope hkind hread hwrite
        hfits _ fun row hrow hsame => hkey row ⟨hrow, hsame⟩
    · rintro receipt m' σ' - ⟨rfl, hdeferred, hempty⟩
      exact outcome_pure ⟨rfl, hdeferred, hempty⟩
  rcases hprogram.cases_run with ⟨response, m, σ', hrun, rfl, hdeferred, hempty⟩ | ⟨_, _, hfalse⟩
  · refine ⟨_, attempt_eq_ok.mpr ⟨m, _, hrun, commit_eq_ok.mpr ⟨⟨?_, hdeferred⟩, rfl⟩⟩⟩
    rw [hempty]
    rfl
  · exact hfalse.elim

end Insert

end PgAgmemory

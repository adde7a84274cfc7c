import PgAgmemory.Guarantees.AllOrNothing

/-! # A purge is minimal

What `forget` selects lies in the scopes of the requested objects, each of which was checked. A preview
counts exactly that and changes nothing; more than the limit fails; and a committed purge touches only
rows of what it selected, besides the branches and runs that it invalidates and the rows that record
it (`purge_minimal`). -/

namespace PgAgmemory

open Keyed (HasKey Table key)

/-! ## Frames -/

/-- **A table is spared** outside the selection: no row is new, and rows of other objects stay as they
are. -/
def Spares {α κ : Type} [HasKey α κ] (selected : UUID → Prop) (own : α → UUID) (t t' : Table α) :
    Prop :=
  (∀ r ∈ t', r ∈ t) ∧ ∀ r ∈ t, ¬ selected (own r) → r ∈ t'

/-- A table is spared by deleting rows of selected objects only. -/
theorem Spares.delete {α κ : Type} [HasKey α κ] {selected : UUID → Prop} {own : α → UUID}
    {removed : UUID → Bool} (h : ∀ id, removed id = true → selected id) (t : Table α) :
    Spares selected own t (t.delete fun r => removed (own r)) := by
  refine ⟨fun r hr => (Table.mem_delete.mp hr).1, fun r hr hspared => ?_⟩
  refine Table.mem_delete.mpr ⟨hr, ?_⟩
  rw [← Bool.not_eq_true]
  exact fun hremoved => hspared (h _ hremoved)

/-- **A table is updated** exactly where a condition holds. -/
def Updates {α κ : Type} [HasKey α κ] (p : α → Prop) (f : α → α) (t t' : Table α) : Prop :=
  ∀ r', r' ∈ t' ↔ ∃ r ∈ t, (p r ∧ r' = f r) ∨ (¬ p r ∧ r' = r)

/-- An update of a table, with its condition said otherwise. -/
theorem Updates.update {α κ : Type} [HasKey α κ] {p : α → Prop} {q : α → Bool} {f : α → α}
    {t : Table α} (hf : ∀ r, key (f r) = key r) (h : ∀ r ∈ t, q r = true ↔ p r) :
    Updates p f t (t.update q f hf) := by
  intro r'
  rw [Table.mem_update]
  refine exists_congr fun r => and_congr_right fun hr => ?_
  split
  next hq =>
    have hp := (h r hr).mp hq
    exact ⟨fun heq => Or.inl ⟨hp, heq.symm⟩, fun hor => (hor.resolve_right fun hno => hno.1 hp).2.symm⟩
  next hq =>
    have hp : ¬ p r := fun hp => hq ((h r hr).mpr hp)
    exact ⟨fun heq => Or.inr ⟨hp, heq.symm⟩, fun hor => (hor.resolve_left fun hno => hp hno.1).2.symm⟩

/-- **A log grows by one row.** -/
def GrowsByOne {α κ : Type} [HasKey α κ] (t t' : Table α) : Prop :=
  ∃ row, row ∉ t ∧ ∀ r, r ∈ t' ↔ r = row ∨ r ∈ t

/-- **What a purge leaves alone**, when it selects some objects and invalidates some branches and
runs. -/
structure Frame (s s' : Store) (selected : UUID → Prop) (sealedBranch : CheckpointBranchRow → Prop)
    (sealedRun : CheckpointRunRow → Prop) : Prop where
  access : s'.access = { s.access with deletionEpoch := s.access.deletionEpoch + 1 }
  objects : s'.anchor.objects = s.anchor.objects
  marked : ∀ t, t ∈ s.anchor.tombstones → t ∈ s'.anchor.tombstones
  marks : ∀ t, t ∈ s'.anchor.tombstones → t ∈ s.anchor.tombstones ∨ selected t.objectId
  episodes : Spares selected EpisodeRow.id s.contents.episodes s'.contents.episodes
  assertions : Spares selected AssertionRow.id s.contents.assertions s'.contents.assertions
  revisions : Spares selected AssertionRevisionRow.assertionId s.contents.revisions
    s'.contents.revisions
  edges : Spares selected ProvenanceEdgeRow.childId s.contents.edges s'.contents.edges
  episodeLexical : Spares selected EpisodeLexicalRow.episodeId s.contents.episodeLexical
    s'.contents.episodeLexical
  assertionLexical : Spares selected AssertionLexicalRow.assertionId s.contents.assertionLexical
    s'.contents.assertionLexical
  episodeEmbeddings : Spares selected EpisodeEmbeddingRow.episodeId s.contents.episodeEmbeddings
    s'.contents.episodeEmbeddings
  assertionEmbeddings : Spares selected AssertionEmbeddingRow.assertionId
    s.contents.assertionEmbeddings s'.contents.assertionEmbeddings
  entities : Spares selected EntityRow.id s.graph.entities s'.graph.entities
  evidence : Spares selected EntityEvidenceRow.entityId s.graph.evidence s'.graph.evidence
  relations : Spares selected RelationRow.id s.graph.relations s'.graph.relations
  targets : Spares selected RelationRevisionRow.assertionId s.graph.targets s'.graph.targets
  checkpoints : Spares selected CheckpointRow.id s.checkpointing.checkpoints
    s'.checkpointing.checkpoints
  checkpointReferences : Spares selected CheckpointReferenceRow.checkpointId
    s.checkpointing.references s'.checkpointing.references
  effects : Spares selected ToolEffectRow.id s.ledger.effects s'.ledger.effects
  effectRevisions : Spares selected ToolEffectRevisionRow.effectId s.ledger.revisions
    s'.ledger.revisions
  effectReferences : Spares selected ToolEffectReferenceRow.effectId s.ledger.references
    s'.ledger.references
  jobs : Spares selected JobRow.id s.queue.jobs s'.queue.jobs
  jobInputs : Spares selected JobInputRow.jobId s.queue.inputs s'.queue.inputs
  branches : Updates sealedBranch (fun b => { b with invalidated := true }) s.checkpointing.branches
    s'.checkpointing.branches
  runs : Updates sealedRun (fun r => { r with effectsInvalidated := true }) s.checkpointing.runs
    s'.checkpointing.runs
  ordinals : s'.checkpointing.nextOrdinal = s.checkpointing.nextOrdinal
  effectIdentities : s'.ledger.identities = s.ledger.identities
  jobIdentities : s'.queue.identities = s.queue.identities
  sourceEvents : s'.operations.sourceEvents = s.operations.sourceEvents
  receipts : GrowsByOne s.operations.receipts s'.operations.receipts
  deletions : GrowsByOne s.operations.deletions s'.operations.deletions
  audit : GrowsByOne s.operations.audit s'.operations.audit

section Condition

variable (timeline : Timeline) (principal : UUID) (s : Store) (data : Forget)

/-- The selection is confined to the requested scopes, each of which was found readable and deletable
before the closure query. -/
def Confined : Prop :=
  ∀ id, Selected timeline principal s data id → ∃ r ∈ data.memoryIds, ∃ scope,
    Anchored s r scope ∧ Live s id scope ∧ ∃ k < closureMoment data,
      (viewAt timeline principal s k).permitted scope .read = true
        ∧ (viewAt timeline principal s k).permitted scope .delete = true

/-- A purge invalidates the branches whose head it selects, where it can read them. -/
def SealedBranch (b : CheckpointBranchRow) : Prop :=
  (∃ head, b.headId = some head ∧ Selected timeline principal s data head)
    ∧ ReadableBy timeline principal s data .branches b.scopeId

/-- A purge invalidates the runs with an effect that it selects, where it can read them. -/
def SealedRun (r : CheckpointRunRow) : Prop :=
  (∃ e ∈ s.ledger.effects, e.scopeId = r.scopeId ∧ e.runId = r.runId
      ∧ Selected timeline principal s data e.id)
    ∧ ReadableBy timeline principal s data .runs r.scopeId

/-- Two closure queries can read the same of the requested scopes. -/
def SeesAlike (timeline' : Timeline) (principal' : UUID) : Prop :=
  ∀ r ∈ data.memoryIds, ∀ scope, Anchored s r scope →
    (viewAt timeline' principal' s (closureMoment data)).permitted scope .read
      = (viewAt timeline principal s (closureMoment data)).permitted scope .read

end Condition

section Guarantee

variable {platform : Platform} {timeline : Timeline} {principal : UUID} {s s' : Store} {data : Forget}
  {key : String}

/-- What is selected for an admitted request lies in a requested scope. -/
theorem Admits.confined (hs : Grounded s) (h : Admits platform timeline principal s data key) :
    Confined timeline principal s data := by
  intro id hselected
  obtain ⟨r, hr, o, hfind, hlive, hchecked⟩ :=
    targetsOf_live hs h.deletable id ((mem_targetsOf hs).mpr hselected)
  obtain ⟨ho, hkey⟩ := Table.find?_eq_some_iff.mp hfind
  exact ⟨r, hr, o.scopeId, ⟨o, ho, hkey, rfl⟩, hlive, hchecked⟩

/-- **Alike requests select alike**: the same objects are requested, and the closure query can read the
same of their scopes. -/
theorem selected_congr {timeline' : Timeline} {principal' : UUID} {data' : Forget}
    (hids : data'.memoryIds = data.memoryIds)
    (hsight : SeesAlike timeline principal s data timeline' principal') {id : UUID} :
    Selected timeline' principal' s data' id ↔ Selected timeline principal s data id := by
  have hmoment : closureMoment data' = closureMoment data := by rw [closureMoment, closureMoment, hids]
  unfold Selected
  rw [hids, hmoment]
  refine exists_congr fun r => and_congr_right fun hr => or_congr_right (and_congr_left fun _ => ?_)
  exact exists_congr fun scope => and_congr_right fun ha => by rw [hsight r hr scope ha]

/-- **What a committed purge leaves alone.** -/
theorem PurgeLeaves.frame (hs : Sound s) (hadmits : Admits platform timeline principal s data key)
    (hrefused : ¬ PurgeRefused timeline principal s data)
    (h : PurgeLeaves platform timeline principal s data key s') :
    Frame s s' (Selected timeline principal s data) (SealedBranch timeline principal s data)
      (SealedRun timeline principal s data) := by
  have htargets := targets_targetsOf hs.grounded hadmits.deletable
  have hpurged := h.purged hs.grounded hadmits hrefused
  obtain ⟨tombstones, operations, hmarks, hrecords, rfl⟩ := h
  -- Whatever a statement of the purge removes, it removes as a selected object.
  have hgone : ∀ p id, goneAt timeline principal s (targetsOf timeline principal s data)
      (closureMoment data + 1) p id = true → Selected timeline principal s data id := by
    intro p id hgone
    rw [goneAt, View.removes, Bool.and_eq_true, decide_eq_true_eq] at hgone
    exact (mem_targetsOf hs.grounded).mp hgone.1
  -- At a given place of the purge a live object goes exactly when selected and then readable.
  have hexact : ∀ p {id scope : UUID}, Anchored s id scope →
      (goneAt timeline principal s (targetsOf timeline principal s data) (closureMoment data + 1) p id
          = true
        ↔ Selected timeline principal s data id ∧ ReadableBy timeline principal s data p scope) := by
    intro p id scope ha
    rw [goneAt_eq hs.grounded htargets ha, Bool.and_eq_true, decide_eq_true_eq,
      mem_targetsOf hs.grounded]
    exact Iff.rfl
  refine
    { access := rfl
      objects := rfl
      marked := fun t ht => hpurged.marked t ht
      marks := fun t ht => (hpurged.marks t ht).imp_right fun hgone' => hgone .episodes _ (hgone' _)
      episodes := Spares.delete (hgone .episodes) _
      assertions := Spares.delete (hgone .assertions) _
      revisions := Spares.delete (hgone .revisions) _
      edges := Spares.delete (hgone .edges) _
      episodeLexical := Spares.delete (hgone .episodes) _
      assertionLexical := Spares.delete (hgone .revisions) _
      episodeEmbeddings := Spares.delete (hgone .episodes) _
      assertionEmbeddings := Spares.delete (hgone .revisions) _
      entities := Spares.delete (hgone .entities) _
      evidence := Spares.delete (hgone .entityEvidence) _
      relations := Spares.delete (hgone .relations) _
      targets := Spares.delete (hgone .targets) _
      checkpoints := Spares.delete (hgone .checkpoints) _
      checkpointReferences := Spares.delete (hgone .checkpointReferences) _
      effects := Spares.delete (hgone .effects) _
      effectRevisions := Spares.delete (hgone .effectRevisions) _
      effectReferences := Spares.delete (hgone .effectReferences) _
      jobs := Spares.delete (hgone .jobs) _
      jobInputs := Spares.delete (hgone .jobInputs) _
      branches := ?_
      runs := ?_
      ordinals := rfl
      effectIdentities := rfl
      jobIdentities := rfl
      sourceEvents := hrecords.sourceEvents
      receipts := ⟨_, ?_, hrecords.receipts⟩
      deletions := ⟨_, ?_, hrecords.deletions⟩
      audit := ⟨_, ?_, hrecords.audit⟩ }
  · apply Updates.update
    · exact fun _ => rfl
    intro b hb
    rw [Option.any_eq_true, SealedBranch]
    constructor
    · rintro ⟨head, hhead, hgone'⟩
      obtain ⟨hselected, hread⟩ := (hexact _ (hs.grounded.anchored_head hb hhead)).mp hgone'
      exact ⟨⟨head, hhead, hselected⟩, hread⟩
    · rintro ⟨⟨head, hhead, hselected⟩, hread⟩
      exact ⟨head, hhead, (hexact _ (hs.grounded.anchored_head hb hhead)).mpr ⟨hselected, hread⟩⟩
  · apply Updates.update
    · exact fun _ => rfl
    intro r hr
    rw [List.any_eq_true, SealedRun]
    simp only [Bool.and_eq_true, decide_eq_true_eq]
    constructor
    · rintro ⟨e, he, ⟨hscope, hrun⟩, hgone'⟩
      obtain ⟨hselected, hread⟩ := (hexact _ (hs.grounded.effect he).anchored).mp hgone'
      exact ⟨⟨e, he, hscope, hrun, hselected⟩, hscope ▸ hread⟩
    · rintro ⟨⟨e, he, hscope, hrun, hselected⟩, hread⟩
      exact ⟨e, he, ⟨hscope, hrun⟩, (hexact _ (hs.grounded.effect he).anchored).mpr
        ⟨hselected, hscope.symm ▸ hread⟩⟩
  · exact fun hmem => Table.find?_eq_none_iff.mp hadmits.fresh _ hmem rfl
  · exact fun hmem => hrefused (Or.inr (Or.inl ⟨_, hmem, rfl⟩))
  · exact fun hmem => Nat.lt_irrefl _ (hs.auditFresh _ hmem)

/-- **A request with a new key** selects within the requested scopes; a preview counts the selection and
leaves the store alone, a purge counts it and leaves everything else alone. -/
theorem forget_selects (hs : Sound s)
    (hnew : s.operations.receipts.find?
      (principal, Operation.forget, platform.hmac s.access.dedupSecret key) = none)
    {response : Response}
    (hexec : Call.exec platform ⟨principal, timeline, .forget data key⟩ s = (.ok response, s')) :
    Confined timeline principal s data
      ∧ (data.mode = .preview → s' = s
        ∧ response = .deletion (.preview {id | Selected timeline principal s data id}.ncard))
      ∧ (data.mode = .purge →
        (∃ deletionId epoch scopes, response = .deletion (.purged (.deletion deletionId
          {id | Selected timeline principal s data id}.ncard epoch scopes)))
        ∧ Frame s s' (Selected timeline principal s data) (SealedBranch timeline principal s data)
          (SealedRun timeline principal s data)) := by
  have hok := transact_eq_ok.mp hexec
  rw [← length_targetsOf hs.grounded]
  by_cases hadmits : Admits platform timeline principal s data key
  · refine ⟨hadmits.confined hs.grounded, fun hmode => ?_, fun hmode => ?_⟩
    · by_cases hexceeds : closureLimit data < (targetsOf timeline principal s data).length
      · rw [attempt_exceeded hadmits hexceeds] at hok
        cases hok
      · rw [attempt_preview hs.integrity hmode hadmits (Nat.not_lt.mp hexceeds)] at hok
        cases hok
        exact ⟨rfl, rfl⟩
    · by_cases hrefused : PurgeRefused timeline principal s data
      · obtain ⟨fault, herror⟩ := attempt_purge_refused hs.grounded hs.integrity hs.auditFresh hmode
          hadmits hrefused
        rw [herror] at hok
        cases hok
      · obtain ⟨t, hpurge, hleaves⟩ := attempt_purge hs.grounded hs.integrity hs.auditFresh hmode
          hadmits hrefused
        rw [hpurge] at hok
        cases hok
        exact ⟨⟨_, _, _, rfl⟩, hleaves.frame hs hadmits hrefused⟩
  · obtain ⟨fault, herror⟩ := attempt_unadmitted hnew hadmits
    rw [herror] at hok
    cases hok

/-- **A request that selects too much** fails. -/
theorem forget_exceeded (hs : Sound s)
    (hnew : s.operations.receipts.find?
      (principal, Operation.forget, platform.hmac s.access.dedupSecret key) = none)
    (hexceeds : closureLimit data < {id | Selected timeline principal s data id}.ncard) :
    ∃ fault, Call.exec platform ⟨principal, timeline, .forget data key⟩ s = (.error fault, s) := by
  rw [← length_targetsOf hs.grounded] at hexceeds
  by_cases hadmits : Admits platform timeline principal s data key
  · exact ⟨_, by rw [Call.exec, transact, attempt_exceeded hadmits hexceeds]⟩
  · obtain ⟨fault, herror⟩ := attempt_unadmitted hnew hadmits
    exact ⟨fault, by rw [Call.exec, transact, herror]⟩

/-- **A purge is minimal**: it selects within the requested scopes and leaves everything else alone; a
preview changes nothing and counts what a purge of the same objects counts; beyond the limit both
fail. -/
theorem purge_minimal (hreachable : Reachable platform s)
    (hnew : s.operations.receipts.find?
      (principal, Operation.forget, platform.hmac s.access.dedupSecret key) = none) :
    (∀ response s', Call.exec platform ⟨principal, timeline, .forget data key⟩ s = (.ok response, s') →
      Confined timeline principal s data
      ∧ (data.mode = .preview → s' = s ∧ ∃ count, response = .deletion (.preview count)
        ∧ ∀ timeline' principal' (data' : Forget) key' response' s'', data'.mode = .purge →
          data'.memoryIds = data.memoryIds →
          SeesAlike timeline principal s data timeline' principal' →
          s.operations.receipts.find?
            (principal', Operation.forget, platform.hmac s.access.dedupSecret key') = none →
          Call.exec platform ⟨principal', timeline', .forget data' key'⟩ s = (.ok response', s'') →
          ∃ deletionId epoch scopes,
            response' = .deletion (.purged (.deletion deletionId count epoch scopes)))
      ∧ (data.mode = .purge → Frame s s' (Selected timeline principal s data)
        (SealedBranch timeline principal s data) (SealedRun timeline principal s data)))
    ∧ (10000 + data.memoryIds.length < {id | Selected timeline principal s data id}.ncard →
      ∃ fault, Call.exec platform ⟨principal, timeline, .forget data key⟩ s = (.error fault, s)) := by
  have hs := hreachable.sound
  refine ⟨fun response s' hexec => ?_, fun hexceeds => forget_exceeded hs hnew hexceeds⟩
  obtain ⟨hconfined, hpreview, hpurge⟩ := forget_selects hs hnew hexec
  refine ⟨hconfined, fun hmode => ?_, fun hmode => (hpurge hmode).2⟩
  obtain ⟨hsame, hresponse⟩ := hpreview hmode
  refine ⟨hsame, _, hresponse, ?_⟩
  intro timeline' principal' data' key' response' s'' hmode' hids hsight hnew' hexec'
  obtain ⟨hcounted, -⟩ := (forget_selects hs hnew' hexec').2.2 hmode'
  simpa only [selected_congr hids hsight] using hcounted

/-- The purge of the first observation of the small tenant leaves everything else alone: the assertion
is selected with it, and the other observation keeps its row. -/
theorem purge_minimal_observation :
    ∃ response s', Call.exec .plain ⟨1, .ticking 600 1000, .forget .observation "forget"⟩ .accompanied
        = (.ok response, s')
      ∧ Frame .accompanied s' (Selected (.ticking 600 1000) 1 .accompanied .observation)
          (SealedBranch (.ticking 600 1000) 1 .accompanied .observation)
          (SealedRun (.ticking 600 1000) 1 .accompanied .observation)
      ∧ Selected (.ticking 600 1000) 1 .accompanied .observation 309
      ∧ ∃ e ∈ s'.contents.episodes, e.id = 507 := by
  have hnew : Store.accompanied.operations.receipts.find? (1, Operation.forget,
      Platform.plain.hmac Store.accompanied.access.dedupSecret "forget") = none :=
    Option.isNone_iff_eq_none.mp (by decide +kernel)
  have hok : (Call.exec .plain ⟨1, .ticking 600 1000, .forget .observation "forget"⟩
      .accompanied).1.toBool = true := by decide +kernel
  have htargets : 309 ∈ targetsOf (.ticking 600 1000) 1 .accompanied .observation
      ∧ 507 ∉ targetsOf (.ticking 600 1000) 1 .accompanied .observation := by decide +kernel
  have hother : ∃ e ∈ Store.accompanied.contents.episodes.rows, e.id = 507 := by decide +kernel
  have hselects : ∀ {id}, id ∈ targetsOf (.ticking 600 1000) 1 .accompanied .observation
      ↔ Selected (.ticking 600 1000) 1 .accompanied .observation id :=
    mem_targetsOf reachable_accompanied.sound.grounded
  cases hexec : Call.exec .plain ⟨1, .ticking 600 1000, .forget .observation "forget"⟩ .accompanied with
  | mk result s' =>
    rw [hexec] at hok
    cases result with
    | error fault => cases hok
    | ok response =>
      have hframe := ((purge_minimal reachable_accompanied hnew).1 response s' hexec).2.2 rfl
      obtain ⟨e, he, hid⟩ := hother
      have hunselected : ¬ Selected (.ticking 600 1000) 1 .accompanied .observation e.id :=
        fun h => htargets.2 (hid ▸ hselects.mpr h)
      exact ⟨response, s', rfl, hframe, hselects.mp htargets.1, e,
        hframe.episodes.2 e (Table.mem_rows.mp he) hunselected, hid⟩

end Guarantee

end PgAgmemory

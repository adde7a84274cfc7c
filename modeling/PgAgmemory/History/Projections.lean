import PgAgmemory.History.Maintained
import PgAgmemory.Service.Lexical

/-! # Writers keep the lexical index

Whoever inserts an episode or a revision inserts its projection right after it, from the same text, and a
purge deletes both. So every episode and every revision of every reachable store has its projection
(`Projected`). -/

namespace PgAgmemory

open Keyed (HasKey Table key)
open Interactive (Program)
open Interactive.Program (ReadOnly Sends)
open MemoryService

/-! ## Projected contents -/

/-- **Contents with their projections**, but for an episode or a revision that is being written. -/
structure ProjectedBut (platform : Platform) (episode : Option UUID) (revision : Option (UUID × Nat))
    (c : Contents) : Prop where
  episodes : ∀ e ∈ c.episodes, some e.id ≠ episode →
    ∃ row ∈ c.episodeLexical, e.projection? platform = some row
  revisions : ∀ r ∈ c.revisions, some (key r) ≠ revision → ∀ a ∈ c.assertions, a.id = r.assertionId →
    ∃ row ∈ c.assertionLexical, a.projection? platform r = some row

/-- **A store with all projections.** -/
def Projected (platform : Platform) (s : Store) : Prop := ProjectedBut platform none none s.contents

section Statements

variable {platform : Platform} {timeline : Timeline} {n : Nat} {σ : Session}

/-- Statements that change no projected row and delete no projection. -/
def Unprojected : Statement → Prop
  | .content (.insertEpisode _) => False
  | .content (.insertAssertion _ _ _ _ _) => False
  | .content (.insertRevision _) => False
  | st => st.quiet = true

theorem Unprojected.operation {st : OperationStatement} : Unprojected (.operation st) := rfl

theorem Unprojected.episodeLexical {row : EpisodeLexicalRow} :
    Unprojected (.content (.insertEpisodeLexical row)) := rfl

theorem Unprojected.graph {st : GraphStatement} : Unprojected (.graph st) := rfl

theorem Unprojected.queue {st : QueueStatement} : Unprojected (.queue st) := rfl

theorem unprojected_newObject (scopeId : UUID) (kind : ObjectKind) :
    Sends Unprojected (newObject scopeId kind) := by
  refine sends_newObject fun id => ?_
  exact rfl

theorem Unprojected.edge {row : ProvenanceEdgeRow} : Unprojected (.content (.insertEdge row)) := rfl

theorem Unprojected.assertionLexical {row : AssertionLexicalRow} :
    Unprojected (.content (.insertAssertionLexical row)) := rfl

theorem Unprojected.quiet {st : Statement} (h : Unprojected st) : st.quiet = true := by
  cases st with
  | content st => rfl
  | _ => exact h

/-- **Other statements keep projections.** -/
theorem ProjectedBut.step {st : Statement} {m : Moment} {r : Returned} {σ' : Session}
    {episode : Option UUID} {revision : Option (UUID × Nat)} (hst : Unprojected st)
    (h : ProjectedBut platform episode revision σ.store.contents)
    (hstep : step platform st m σ = .ok (r, σ')) :
    ProjectedBut platform episode revision σ'.store.contents := by
  have haccepted := Statement.accepted (step_eq_ok.mp hstep).2.1
  rcases haccepted.contents_cases hst.quiet with hsame | ⟨st', rfl, hcontents⟩
  · exact hsame ▸ h
  generalize σ'.store.contents = c at hcontents ⊢
  cases st' with
  | insertEpisode row => exact hst.elim
  | insertAssertion id scope subject predicate isRelation => exact hst.elim
  | insertRevision new => exact hst.elim
  | insertEpisodeLexical row =>
    obtain ⟨-, t, ht, rfl⟩ := hcontents
    refine ⟨fun e he hother => ?_, h.revisions⟩
    obtain ⟨row, hrow, heq⟩ := h.episodes e he hother
    exact ⟨row, (Table.mem_insert? ht).mpr (Or.inr hrow), heq⟩
  | insertAssertionLexical row =>
    obtain ⟨-, t, ht, rfl⟩ := hcontents
    refine ⟨h.episodes, fun r hr hother a ha hid => ?_⟩
    obtain ⟨row, hrow, heq⟩ := h.revisions r hr hother a ha hid
    exact ⟨row, (Table.mem_insert? ht).mpr (Or.inr hrow), heq⟩
  | _ =>
    obtain ⟨-, t, -, rfl⟩ := hcontents
    exact ⟨h.episodes, h.revisions⟩

/-- Minor statements are among them. -/
theorem Minor.unprojected {st : Statement} (h : Minor st) : Unprojected st := by
  cases st with
  | content st =>
    cases st with
    | insertEpisodeEmbedding row => rfl
    | insertAssertionEmbedding row => rfl
    | _ => exact h.elim
  | queue st => rfl
  | insertObject id scope kind => rfl
  | checkpoint st => rfl
  | ledger st => rfl
  | operation st => rfl
  | _ => exact h.elim

theorem Holding.unprojected {st : Statement} {m : Moment} {r : Returned} {σ' : Session}
    (h : Holding (Projected platform) σ) (hst : Unprojected st)
    (hstep : step platform st m σ = .ok (r, σ')) : Holding (Projected platform) σ' :=
  ⟨(step_eq_ok.mp hstep).2.2.1.1, ProjectedBut.step hst h.holds hstep⟩

/-- A program that only sends such statements. -/
theorem Holding.unprojecteds {α : Type} {p : Tx α} (h : Holding (Projected platform) σ)
    (hp : Sends Unprojected p) : Maintains platform timeline (Holding (Projected platform)) p n σ :=
  hp.yields h fun _ _ _ _ _ hst hI hstep => hI.unprojected hst hstep

/-! ## Episodes -/

/-- **A new episode** gets its projection. -/
theorem Holding.recordEvent (h : Holding (Projected platform) σ) (data : Observe)
    (requestDigest : Digest) :
    Maintains platform timeline (Holding (Projected platform))
      (MemoryService.recordEvent platform data requestDigest) n σ := by
  refine outcome_digest (outcome_read ?_)
  split
  · exact h.unprojecteds (((readOnly_demand _ _).bind fun _ => (readOnly_object _ _).bind fun _ =>
      readOnly_pure _).sends)
  refine maintains_bind (h.unprojecteds (unprojected_newObject _ _)) fun id m σ₁ h₁ => ?_
  refine outcome_send (fun r σ₂ hstep => ?_) fun _ _ => trivial
  -- the episode is there, its projection is not
  obtain ⟨c, ⟨-, t, ht, rfl⟩, hstore⟩ := Statement.accepted (step_eq_ok.mp hstep).2.1
  have hpending : ProjectedBut platform (some id) none σ₂.store.contents := by
    rw [hstore]
    refine ⟨fun e he hother => ?_, h₁.holds.revisions⟩
    rcases (Table.mem_insert? ht).mp he with rfl | hold
    · exact absurd rfl hother
    · exact h₁.holds.episodes e hold (Option.some_ne_none _)
  have hrow : ∀ e ∈ σ₂.store.contents.episodes, e.id = id →
      e.content = data.content ∧ e.scopeId = data.scopeId := by
    rw [hstore]
    intro e he hid
    rw [Table.eq_of_key_eq he (Table.mem_insert?_self ht) hid]
    exact ⟨rfl, rfl⟩
  unfold MemoryService.segment
  cases hsegment : platform.segment data.content.str with
  | none => exact outcome_raise trivial
  | some segmented =>
    refine outcome_send (fun r σ₃ hstep' => ?_) fun _ _ => trivial
    have hpending' := hpending.step Unprojected.episodeLexical hstep'
    obtain ⟨c, ⟨-, t', ht', rfl⟩, hstore'⟩ := Statement.accepted (step_eq_ok.mp hstep').2.1
    have h₃ : Holding (Projected platform) σ₃ := by
      refine ⟨(step_eq_ok.mp hstep').2.2.1.1, ⟨fun e he _ => ?_, hpending'.revisions⟩⟩
      by_cases hid : e.id = id
      · have hold : e ∈ σ₂.store.contents.episodes := by
          rw [hstore'] at he
          exact he
        obtain ⟨hcontent, hscope⟩ := hrow e hold hid
        refine ⟨⟨id, data.scopeId, [segmented]⟩, ?_, ?_⟩
        · rw [hstore']
          exact Table.mem_insert?_self ht'
        · rw [EpisodeRow.projection?, hcontent, hsegment, hid, hscope]
          rfl
      · exact hpending'.episodes e he fun heq => hid (Option.some.inj heq)
    exact h₃.unprojecteds ((sends_send Unprojected.operation).bind fun _ =>
      (sends_send Unprojected.operation).bind fun _ => trivial)

/-! ## Revisions -/

/-- A new assertion has no revisions to project. -/
theorem Holding.insertAssertion {id scope : UUID} {subject : ShortText} {predicate : Predicate}
    {isRelation : Bool} {m : Moment} {r : Returned} {σ' : Session}
    (h : Holding (Projected platform) σ)
    (hstep : step platform (.content (.insertAssertion id scope subject predicate isRelation)) m σ
      = .ok (r, σ')) : Holding (Projected platform) σ' := by
  refine ⟨(step_eq_ok.mp hstep).2.2.1.1, ?_⟩
  obtain ⟨c, ⟨-, t, ht, rfl⟩, hstore⟩ := Statement.accepted (step_eq_ok.mp hstep).2.1
  rw [Projected, hstore]
  refine ⟨h.holds.episodes, fun r hr hother a ha hid => ?_⟩
  obtain ⟨b, hb, hkey⟩ := h.foreign.content.revision_assertion.exists_parent hr rfl
  obtain rfl : a = b := Table.eq_of_key_eq ha ((Table.mem_insert? ht).mpr (Or.inr hb))
    (hid.trans (Prod.mk.inj hkey).1.symm)
  exact h.holds.revisions r hr hother a hb hid

/-- What a statement that projects nothing leaves of the projected rows. -/
theorem Unprojected.rows {st : Statement} {m : Moment} {r : Returned} {σ' : Session}
    (hst : Unprojected st) (hstep : step platform st m σ = .ok (r, σ')) :
    σ'.store.contents.assertions = σ.store.contents.assertions
      ∧ σ'.store.contents.revisions = σ.store.contents.revisions := by
  rcases (Statement.accepted (step_eq_ok.mp hstep).2.1).contents_cases hst.quiet with
    hsame | ⟨st', rfl, hcontents⟩
  · exact ⟨congrArg _ hsame, congrArg _ hsame⟩
  generalize σ'.store.contents = c at hcontents ⊢
  cases st' with
  | insertEpisode row => exact hst.elim
  | insertAssertion id scope subject predicate isRelation => exact hst.elim
  | insertRevision new => exact hst.elim
  | _ =>
    obtain ⟨-, t, -, rfl⟩ := hcontents
    exact ⟨rfl, rfl⟩

/-- A revision of a text waits for its projection. -/
structure Unfinished (platform : Platform) (id : UUID) (revision : Nat) (value : Content)
    (σ : Session) : Prop where
  foreign : ForeignKeys σ.store
  others : ProjectedBut platform none (some (id, revision)) σ.store.contents
  value : ∀ r ∈ σ.store.contents.revisions, key r = (id, revision) → r.value = value

theorem Unfinished.step {id : UUID} {revision : Nat} {value : Content} {st : Statement} {m : Moment}
    {r : Returned} {σ' : Session} (hst : Unprojected st) (h : Unfinished platform id revision value σ)
    (hstep : PgAgmemory.step platform st m σ = .ok (r, σ')) :
    Unfinished platform id revision value σ' :=
  ⟨(step_eq_ok.mp hstep).2.2.1.1, h.others.step hst hstep, (hst.rows hstep).2 ▸ h.value⟩

/-- **A new revision** gets its projection. -/
theorem Holding.insertRevision (h : Holding (Projected platform) σ) (objectId scopeId : UUID)
    (revision : Nat) (data : RevisionContent) :
    Maintains platform timeline (Holding (Projected platform))
      (MemoryService.insertRevision platform objectId scopeId revision data) n σ := by
  refine outcome_send (fun r σ₁ hstep => ?_) fun _ _ => trivial
  -- the revision is there, its projection is not
  have hunfinished : Unfinished platform objectId revision data.value σ₁ := by
    obtain ⟨c, ⟨-, t, c', ⟨hadopts, ht⟩, rfl⟩, hstore⟩ := Statement.accepted (step_eq_ok.mp hstep).2.1
    obtain ⟨hsame, hassertions, hrevisions⟩ := hadopts.kept
    refine ⟨(step_eq_ok.mp hstep).2.2.1.1, ?_, ?_⟩
    · rw [hstore, hsame]
      refine ⟨h.holds.episodes, fun r hr hother a ha hid => ?_⟩
      rcases (Table.mem_insert? ht).mp hr with rfl | hold
      · exact absurd rfl hother
      obtain ⟨a', ha', head, rfl⟩ := hassertions a ha
      obtain ⟨r', hr', closed, rfl⟩ := hrevisions r hold
      exact h.holds.revisions r' hr' (Option.some_ne_none _) a' ha' hid
    · rw [hstore]
      intro r hr hkey
      rw [Table.eq_of_key_eq hr (Table.mem_insert?_self ht) hkey]
      rfl
  have hedges : Sends Unprojected (forEach data.evidence fun evidence => send (.content
      (.insertEdge ⟨objectId, revision, evidence.memoryId, scopeId, evidence.quote⟩))) :=
    sends_forEach fun _ _ => sends_send Unprojected.edge
  refine outcome_bind (hedges.yields hunfinished fun _ _ _ _ _ hst hI hstep => hI.step hst hstep)
    fun _ m σ₂ _ h₂ => ?_
  refine outcome_read (outcome_found (fun identity hidentity => ?_) fun _ => trivial)
  obtain ⟨hfound, -⟩ := Option.filter_eq_some_iff.mp hidentity
  obtain ⟨hmem, hid⟩ := Table.find?_eq_some_iff.mp hfound
  unfold MemoryService.segment
  cases hsegment : platform.segment (identity.subject.str ++ " " ++ identity.predicate.str ++ " "
      ++ data.value.str) with
  | none => exact outcome_raise trivial
  | some segmented =>
    refine outcome_send_last (fun r σ₃ hstep' => ?_) fun _ _ => trivial
    have h₃ := h₂.step Unprojected.assertionLexical hstep'
    refine ⟨h₃.foreign, ⟨h₃.others.episodes, fun r hr _ a ha hof => ?_⟩⟩
    by_cases hkey : key r = (objectId, revision)
    · obtain ⟨hassertions, -⟩ := Unprojected.rows Unprojected.assertionLexical hstep'
      obtain ⟨hrid, hrevision⟩ := Prod.mk.inj hkey
      obtain rfl : a = identity :=
        Table.eq_of_key_eq (hassertions ▸ ha) hmem (hof.trans (hrid.trans hid.symm))
      obtain ⟨c, ⟨-, t, ht, rfl⟩, hstore⟩ := Statement.accepted (step_eq_ok.mp hstep').2.1
      have hrow : (⟨objectId, revision, scopeId, [segmented]⟩ : AssertionLexicalRow)
          ∈ σ₃.store.contents.assertionLexical := by
        rw [hstore]
        exact Table.mem_insert?_self ht
      -- the scope of the projection is that of the assertion
      obtain ⟨r', hr', hkey'⟩ :=
        h₃.foreign.content.assertionLexical_revision.exists_parent hrow rfl
      obtain ⟨b, hb, hbkey⟩ := h₃.foreign.content.revision_assertion.exists_parent hr' rfl
      obtain ⟨hrid', hrest⟩ := Prod.mk.inj hkey'
      obtain ⟨hbid, hbscope⟩ := Prod.mk.inj hbkey
      have hscope : a.scopeId = scopeId := by
        obtain rfl : b = a := Table.eq_of_key_eq hb ha (hbid.trans (hrid'.trans hid.symm))
        exact hbscope.trans (Prod.mk.inj hrest).2
      refine ⟨_, hrow, ?_⟩
      rw [AssertionRow.projection?, h₃.value r hr hkey, hsegment, hscope, hrevision]
      exact congrArg (fun i => some (⟨i, revision, scopeId, [segmented]⟩ : AssertionLexicalRow)) hid
    · exact h₃.others.revisions r hr (fun heq => hkey (Option.some.inj heq)) a ha hof

/-! ## Operations -/

theorem Holding.publishAssertion (h : Holding (Projected platform) σ) (data : Remember) :
    Maintains platform timeline (Holding (Projected platform))
      (MemoryService.publishAssertion platform data) n σ := by
  refine maintains_reading h (readOnly_scope _ _) fun _ _ h => maintains_reading h
    (readOnly_validateEvidence _ _) fun _ _ h => ?_
  refine maintains_bind (h.unprojecteds (unprojected_newObject _ _)) fun id m σ₁ h₁ => ?_
  refine outcome_send (fun r σ₂ hstep => ?_) fun _ _ => trivial
  exact maintains_bind ((h₁.insertAssertion hstep).insertRevision _ _ _ _) fun _ _ _ h₃ =>
    h₃.unprojecteds ((sends_send Unprojected.operation).bind fun _ => trivial)

theorem Holding.reviseAssertion (h : Holding (Projected platform) σ) (objectId : UUID)
    (data : ReviseAssertion) (key : String) :
    Maintains platform timeline (Holding (Projected platform))
      (MemoryService.reviseAssertion platform objectId data key) n σ := by
  refine maintains_reading h (readOnly_object _ _) fun obj _ h => maintains_reading h
    (readOnly_demand _ _) fun _ _ h => maintains_once h (fun _ => readOnly_pure _) fun kd rd m => ?_
  refine maintains_reading h (readOnly_read _) fun _ _ h => maintains_reading h (readOnly_found _ _)
    fun head _ h => maintains_reading h (readOnly_demand _ _) fun _ _ h => maintains_reading h
      (readOnly_demand _ _) fun _ _ h => maintains_reading h (readOnly_demand _ _) fun _ _ h =>
        maintains_reading h (readOnly_validateEvidence _ _) fun _ _ h => ?_
  exact maintains_bind (h.insertRevision _ _ _ _) fun _ _ _ h' =>
    h'.unprojecteds ((sends_send Unprojected.operation).bind fun _ =>
      (sends_send Unprojected.operation).bind fun _ => trivial)

theorem Holding.createRelation (h : Holding (Projected platform) σ) (data : CreateRelation)
    (key : String) :
    Maintains platform timeline (Holding (Projected platform))
      (SqlGraph.createRelation platform data key) n σ := by
  refine maintains_reading h (readOnly_scope _ _) fun _ _ h => maintains_once h
    (fun _ => readOnly_pure _) fun kd rd m => ?_
  refine maintains_reading h (readOnly_endpoint _ _) fun source _ h => maintains_reading h
    (readOnly_endpoint _ _) fun target _ h => maintains_reading h (readOnly_validateEvidence _ _)
      fun _ _ h => ?_
  refine maintains_bind (h.unprojecteds (unprojected_newObject _ _)) fun id m σ₁ h₁ => ?_
  refine outcome_send (fun r σ₂ hstep => outcome_send (fun r σ₃ hstep' => ?_) fun _ _ => trivial)
    fun _ _ => trivial
  have h₃ := (h₁.insertAssertion hstep).unprojected Unprojected.graph hstep'
  exact maintains_bind (h₃.insertRevision _ _ _ _) fun _ _ _ h' =>
    h'.unprojecteds ((sends_send Unprojected.graph).bind fun _ =>
      (sends_send Unprojected.operation).bind fun _ =>
        (sends_send Unprojected.operation).bind fun _ => trivial)

theorem Holding.reviseRelation (h : Holding (Projected platform) σ) (assertionId : UUID)
    (data : ReviseRelation) (key : String) :
    Maintains platform timeline (Holding (Projected platform))
      (SqlGraph.reviseRelation platform assertionId data key) n σ := by
  refine maintains_reading h (readOnly_object _ _) fun obj _ h => maintains_reading h
    (readOnly_read _) fun _ _ h => maintains_reading h (readOnly_found _ _) fun head _ h =>
      maintains_once h (fun _ => readOnly_pure _) fun kd rd m => ?_
  refine maintains_reading h (readOnly_demand _ _) fun _ _ h => maintains_reading h
    (readOnly_demand _ _) fun _ _ h => maintains_reading h (readOnly_endpoint _ _) fun target _ h =>
      maintains_reading h (readOnly_validateEvidence _ _) fun _ _ h => ?_
  exact maintains_bind (h.insertRevision _ _ _ _) fun _ _ _ h' =>
    h'.unprojecteds ((sends_send Unprojected.graph).bind fun _ =>
      (sends_send Unprojected.operation).bind fun _ =>
        (sends_send Unprojected.operation).bind fun _ => trivial)

/-- Creating an entity projects nothing. -/
theorem unprojected_createEntity (data : CreateEntity) (key : String) :
    Sends Unprojected (SqlGraph.createEntity platform data key) := by
  refine (readOnly_scope _ _).sends.bind fun _ =>
    sends_once (fun r => (readOnly_entityReplayed r).sends) fun kd rd => ?_
  refine (readOnly_validateEvidence _ _).sends.bind fun _ =>
    (unprojected_newObject _ _).bind fun id => (sends_send Unprojected.graph).bind fun _ => ?_
  exact (sends_forEach fun _ _ => sends_send Unprojected.graph).bind fun _ =>
    (sends_send Unprojected.operation).bind fun _ => (sends_send Unprojected.operation).bind
      fun _ => trivial

/-- Inserting a job projects nothing. -/
theorem unprojected_insertJob (data : EnqueueJob) (retryOf : Option UUID) (intent identity : Digest) :
    Sends Unprojected (Jobs.insertJob data retryOf intent identity) := by
  refine (readOnly_read _).sends.bind fun _ => (readOnly_demand _ _).sends.bind fun _ =>
    (readOnly_validateEvidence _ _).sends.bind fun _ => (unprojected_newObject _ _).bind fun id =>
      (sends_send Unprojected.queue).bind fun _ => ?_
  exact (sends_forEach fun _ _ => sends_send Unprojected.queue).bind fun _ =>
    (readOnly_read _).sends.bind fun _ => (sends_send Unprojected.queue).bind fun _ =>
      (sends_send Unprojected.operation).bind fun _ => trivial

variable (platform) in
/-- **Every operation but `forget` keeps the projections.** -/
theorem maintained_projected : Maintained platform (Projected platform) where
  provisioned _ := ⟨fun e he => absurd he (Table.not_mem_empty e),
    fun r hr => absurd hr (Table.not_mem_empty r)⟩
  parts _ := {
    minor := fun hst h hstep => h.unprojected hst.unprojected hstep
    episode := fun data rd _ h => h.recordEvent data rd
    assertion := fun data _ h => h.publishAssertion data
    correction := fun objectId data key _ h => h.reviseAssertion objectId data key
    entity := fun data key _ h => h.unprojecteds (unprojected_createEntity data key)
    relation := fun data key _ h => h.createRelation data key
    relationCorrection := fun assertionId data key _ h => h.reviseRelation assertionId data key
    job := fun data retryOf intent identity _ h =>
      h.unprojecteds (unprojected_insertJob data retryOf intent identity) }
  access _ _ _ h := h

/-- **A purge deletes a row with its projection.** -/
theorem Projected.purged {s s' : Store} {gone : Gone} (h : Projected platform s)
    (hpurged : Purged s s' gone) : Projected platform s' := by
  rw [Projected, hpurged.contents]
  constructor
  · intro e he hother
    obtain ⟨hold, hkept⟩ := Table.mem_delete.mp he
    obtain ⟨row, hrow, heq⟩ := h.episodes e hold hother
    refine ⟨row, Table.mem_delete.mpr ⟨hrow, ?_⟩, heq⟩
    obtain ⟨text, -, rfl⟩ := Option.map_eq_some_iff.mp heq
    exact hkept
  · intro r hr hother a ha hid
    obtain ⟨hold, hkept⟩ := Table.mem_delete.mp hr
    obtain ⟨row, hrow, heq⟩ := h.revisions r hold hother a (Table.mem_delete.mp ha).1 hid
    refine ⟨row, Table.mem_delete.mpr ⟨hrow, ?_⟩, heq⟩
    obtain ⟨text, -, rfl⟩ := Option.map_eq_some_iff.mp heq
    exact hid ▸ hkept

/-- **Every reachable store has all projections.** -/
theorem Reachable.projected {s : Store} (h : Reachable platform s) : Projected platform s :=
  (maintained_projected platform).reachable (fun _ _ _ _ hJ hpurged => hJ.purged hpurged) h

end Statements

end PgAgmemory

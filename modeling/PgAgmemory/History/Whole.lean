import PgAgmemory.History.Effects
import PgAgmemory.History.Lineage
import PgAgmemory.Operations.Saves

/-! # Whole objects

An object is whole (`Whole`) when nothing of what it was created with is missing: its row, all the
references, evidence or inputs that the row counts, the target of every revision of a relation, and
the checksum that a checkpoint was signed with. Every statement keeps every object whole but the one
it builds (`Statement.builds`), so an operation keeps a store intact when it finishes what it
builds. -/

namespace PgAgmemory

open Keyed (HasKey Table key)
open Interactive (Program)
open Interactive.Program (ReadOnly Sends)
open MemoryService

/-! ## What belongs to an object -/

/-- An object has its row, in the table of its kind. -/
def HasRow (s : Store) (id : UUID) : ObjectKind → Prop
  | .episode => ∃ r ∈ s.contents.episodes, r.id = id
  | .assertion => ∃ r ∈ s.contents.assertions, r.id = id
  | .checkpoint => ∃ r ∈ s.checkpointing.checkpoints, r.id = id
  | .toolEffect => ∃ r ∈ s.ledger.effects, r.id = id
  | .entity => ∃ r ∈ s.graph.entities, r.id = id
  | .job => ∃ r ∈ s.queue.jobs, r.id = id

/-- An effect has the references that it counts. -/
def Ledger.Complete (l : Ledger) (id : UUID) : Prop :=
  ∀ e ∈ l.effects, e.id = id → l.references.rows.countP (·.effectId = id) = e.referenceCount

/-- An entity has the evidence that it counts. -/
def Graph.Complete (g : Graph) (id : UUID) : Prop :=
  ∀ e ∈ g.entities, e.id = id → g.evidence.rows.countP (·.entityId = id) = e.referenceCount

/-- A job has the inputs that it counts. -/
def Queue.Complete (q : Queue) (id : UUID) : Prop :=
  ∀ j ∈ q.jobs, j.id = id → q.inputs.rows.countP (·.jobId = id) = j.referenceCount

/-- The references of a checkpoint, as its payload lists them. -/
def Checkpointing.refsOf (k : Checkpointing) (id : UUID) : List (UUID × Nat) :=
  ((k.references.rows.filter (·.checkpointId = id)).map fun r =>
    (r.sourceId, r.sourceRevision)).insertionSort refBefore

/-- A checkpoint has the references that it counts, a valid state, and the checksum of its payload. -/
def Checkpointing.Complete (sign : String → Digest) (k : Checkpointing) (id : UUID) : Prop :=
  ∀ c ∈ k.checkpoints, c.id = id → (k.refsOf id).length = c.referenceCount
    ∧ (CheckpointState.validate c.state).isSome = true
    ∧ ∃ n ∈ k.runs, (n.scopeId, n.runId) = (c.scopeId, c.runId)
      ∧ c.checksum = sign (c.payload n (k.refsOf id)).text

/-- A relation has its source, and every revision of it a target. -/
def Related (s : Store) (id : UUID) : Prop :=
  ∀ a ∈ s.contents.assertions, a.id = id → a.isRelation = true →
    (∃ l ∈ s.graph.relations, l.id = id) ∧ ∀ r ∈ s.contents.revisions, r.assertionId = id →
      ∃ t ∈ s.graph.targets, key t = key r

/-- **A whole object.** -/
structure Whole (platform : Platform) (s : Store) (id : UUID) : Prop where
  row : ∀ o ∈ s.anchor.objects, o.id = id → Untombstoned s id → HasRow s id o.kind
  effect : s.ledger.Complete id
  entity : s.graph.Complete id
  job : s.queue.Complete id
  checkpoint : s.checkpointing.Complete (s.digest platform) id
  relation : Related s id

/-- **An intact store**: every object is whole. -/
def Intact (platform : Platform) (s : Store) : Prop := ∀ id, Whole platform s id

/-- Intact but for one object, which is being built. -/
def IntactBut (platform : Platform) (id : UUID) (s : Store) : Prop :=
  ∀ id', id' ≠ id → Whole platform s id'

/-- The object that a statement builds. -/
def Statement.builds : Statement → Option UUID
  | .insertObject id _ _ => some id
  | .content (.insertEpisode r) => some r.id
  | .content (.insertAssertion id _ _ _ _) => some id
  | .content (.insertRevision n) => some n.assertionId
  | .graph (.insertEntity r) => some r.id
  | .graph (.insertEntityEvidence r) => some r.entityId
  | .graph (.insertRelation r) => some r.id
  | .graph (.insertTarget r) => some r.assertionId
  | .checkpoint (.insertCheckpoint n) => some n.id
  | .checkpoint (.insertReference r) => some r.checkpointId
  | .ledger (.insertEffect n) => some n.id
  | .ledger (.insertReference r) => some r.effectId
  | .queue (.insertJob n) => some n.id
  | .queue (.insertInput r) => some r.jobId
  | _ => none

/-! ## Statements that build something else -/

section Statements

variable {v : View} {m : Moment} {id : UUID}

/-- Moving a head keeps what an effect counts. -/
theorem mem_moveEffectHead_count {t : Table ToolEffectRow} {id : UUID} {revision : Nat}
    {e : ToolEffectRow} (h : e ∈ moveEffectHead t id revision) :
    ∃ e' ∈ t, e'.id = e.id ∧ e'.referenceCount = e.referenceCount := by
  obtain ⟨e', he', rfl⟩ := Table.mem_update.mp h
  refine ⟨e', he', ?_⟩
  split <;> exact ⟨rfl, rfl⟩

theorem Ledger.Complete.statement {st : LedgerStatement} {l : Ledger} (h : st.Accepted v m l)
    (hother : (Statement.ledger st).builds ≠ some id) (hcomplete : v.store.ledger.Complete id) :
    l.Complete id := by
  cases st with
  | insertEffect n =>
    obtain ⟨-, t, ht, rfl⟩ := h
    intro e he hid
    rcases (Table.mem_insert? ht).mp he with rfl | hold
    · exact absurd (congrArg some hid) hother
    · exact hcomplete e hold hid
  | insertReference r =>
    obtain ⟨-, t, ht, rfl⟩ := h
    intro e he hid
    have hne : ¬ r.effectId = id := fun heq => hother (congrArg some heq)
    rw [Table.countP_insert? ht, if_neg (by simpa using hne)]
    exact hcomplete e he hid
  | insertIdentity r =>
    obtain ⟨-, t, -, rfl⟩ := h
    exact hcomplete
  | insertRevision n =>
    obtain ⟨-, t, effects, ⟨hadopts, -⟩, rfl⟩ := h
    intro e he hid
    cases hadopts with
    | first _ _ _ _ _ => exact hcomplete e he hid
    | next _ _ _ _ _ =>
      obtain ⟨e', he', hid', hcount⟩ := mem_moveEffectHead_count he
      exact (hcomplete e' he' (hid'.trans hid)).trans hcount

theorem Graph.Complete.statement {st : GraphStatement} {g : Graph} (h : st.Accepted v g)
    (hother : (Statement.graph st).builds ≠ some id) (hcomplete : v.store.graph.Complete id) :
    g.Complete id := by
  cases st with
  | insertEntity r =>
    obtain ⟨-, t, ht, rfl⟩ := h
    intro e he hid
    rcases (Table.mem_insert? ht).mp he with rfl | hold
    · exact absurd (congrArg some hid) hother
    · exact hcomplete e hold hid
  | insertEntityEvidence r =>
    obtain ⟨-, t, ht, rfl⟩ := h
    intro e he hid
    have hne : ¬ r.entityId = id := fun heq => hother (congrArg some heq)
    rw [Table.countP_insert? ht, if_neg (by simpa using hne)]
    exact hcomplete e he hid
  | _ =>
    obtain ⟨-, t, -, rfl⟩ := h
    exact hcomplete

/-- The rows after a job is replaced. -/
theorem mem_replaceJob_iff {t : Table JobRow} {id : UUID} {row : JobRow} (hid : row.id = id)
    {j : JobRow} : j ∈ replaceJob t id row hid
      ↔ (j = row ∧ ∃ j' ∈ t, j'.id = id) ∨ (j ∈ t ∧ j.id ≠ id) := by
  rw [replaceJob, Table.mem_update]
  constructor
  · rintro ⟨j', hj', rfl⟩
    by_cases hmatch : j'.id = id
    · rw [if_pos (decide_eq_true hmatch), if_pos hmatch]
      exact Or.inl ⟨rfl, j', hj', hmatch⟩
    · rw [if_neg (by simpa using hmatch)]
      exact Or.inr ⟨hj', hmatch⟩
  · rintro (⟨rfl, j', hj', hmatch⟩ | ⟨hj, hother⟩)
    · exact ⟨j', hj', by rw [if_pos (decide_eq_true hmatch), if_pos hmatch]⟩
    · exact ⟨j, hj, if_neg (by simpa using hother)⟩

/-- An update keeps the inputs that a job counts. -/
theorem ChangesJob.referenceCount {id : UUID} {change : JobChange} {old new : JobRow}
    (h : ChangesJob v m id change old new) : new.referenceCount = old.referenceCount := by
  rw [h.stamped]
  cases change <;> rfl

theorem Queue.Complete.statement {st : QueueStatement} {row : Option JobRow} {q : Queue}
    (h : st.Accepted v m row q) (hother : (Statement.queue st).builds ≠ some id)
    (hcomplete : v.store.queue.Complete id) : q.Complete id := by
  cases st with
  | insertJob n =>
    obtain ⟨-, t, ht, rfl⟩ := h
    intro j hj hid
    rcases (Table.mem_insert? ht).mp hj with rfl | hold
    · exact absurd (congrArg some hid) hother
    · exact hcomplete j hold hid
  | insertInput r =>
    obtain ⟨-, t, ht, rfl⟩ := h
    intro j hj hid
    have hne : ¬ r.jobId = id := fun heq => hother (congrArg some heq)
    rw [Table.countP_insert? ht, if_neg (by simpa using hne)]
    exact hcomplete j hj hid
  | insertIdentity r =>
    obtain ⟨-, t, -, rfl⟩ := h
    exact hcomplete
  | updateJob changed change =>
    obtain ⟨-, rfl⟩ | ⟨old, new, hnew, hchanges, -, rfl⟩ := h
    · exact hcomplete
    · intro j hj hid
      rcases (mem_replaceJob_iff hnew).mp hj with ⟨rfl, -⟩ | ⟨hold, -⟩
      · obtain ⟨hold, hkey⟩ := Table.find?_eq_some_iff.mp hchanges.found
        rw [hchanges.referenceCount]
        exact hcomplete old hold (hkey.trans (hnew.symm.trans hid))
      · exact hcomplete j hold hid

theorem Checkpointing.Complete.statement {sign : String → Digest} {st : CheckpointStatement}
    {inserted : Bool} {k : Checkpointing} (h : st.Accepted v inserted k)
    (hother : (Statement.checkpoint st).builds ≠ some id)
    (hcomplete : v.store.checkpointing.Complete sign id) : k.Complete sign id := by
  cases st with
  | insertRun scope run harnessId harnessVersion =>
    obtain ⟨-, ⟨-, rfl⟩ | ⟨-, t, ht, rfl⟩⟩ := h
    · exact hcomplete
    · intro c hc hid
      obtain ⟨hcount, hvalid, n, hn, hsigned⟩ := hcomplete c hc hid
      exact ⟨hcount, hvalid, n, (Table.mem_insert? ht).mpr (Or.inr hn), hsigned⟩
  | insertBranch scope run branch returning =>
    obtain ⟨-, ⟨-, rfl⟩ | ⟨-, t, -, rfl⟩⟩ := h
    · exact hcomplete
    · exact hcomplete
  | insertCheckpoint n =>
    obtain ⟨-, t, branch, ⟨-, ht⟩, rfl⟩ := h
    intro c hc hid
    rcases (Table.mem_insert? ht).mp hc with rfl | hold
    · exact absurd (congrArg some hid) hother
    · exact hcomplete c hold hid
  | insertReference r =>
    obtain ⟨-, t, ht, rfl⟩ := h
    have hne : ¬ r.checkpointId = id := fun heq => hother (congrArg some heq)
    have hrefs : Checkpointing.refsOf { v.store.checkpointing with references := t } id
        = v.store.checkpointing.refsOf id := by
      rw [refsOf, refsOf, (Table.insert?_eq_some_iff.mp ht).2,
        List.filter_cons_of_neg (by simpa using hne)]
    intro c hc hid
    rw [hrefs]
    exact hcomplete c hc hid

/-- Moving a head keeps every assertion. -/
theorem exists_moveHead {t : Table AssertionRow} {a : AssertionRow} (ha : a ∈ t) (id : UUID)
    (n : Nat) : ∃ a' ∈ moveHead t id n, a'.id = a.id := by
  refine ⟨_, Table.mem_update.mpr ⟨a, ha, rfl⟩, ?_⟩
  split <;> rfl

/-- Moving a head keeps the assertion, closing a revision its number. -/
theorem AdoptsRevision.rows {id : UUID} {n : Nat} {c : Contents} (h : AdoptsRevision v m id n c) :
    (∀ a ∈ c.assertions, ∃ a' ∈ v.store.contents.assertions,
        a'.id = a.id ∧ a'.isRelation = a.isRelation)
      ∧ ∀ r ∈ c.revisions, ∃ r' ∈ v.store.contents.revisions, key r' = key r := by
  cases h with
  | first _ _ _ => exact ⟨fun a ha => ⟨a, ha, rfl, rfl⟩, fun r hr => ⟨r, hr, rfl⟩⟩
  | next _ _ _ _ _ _ =>
    refine ⟨fun a (ha : a ∈ moveHead _ id n) => ?_, fun r (hr : r ∈ closeAt _ id _ _) => ?_⟩
    · obtain ⟨a', ha', rfl⟩ := Table.mem_update.mp ha
      refine ⟨a', ha', ?_⟩
      split <;> exact ⟨rfl, rfl⟩
    · obtain ⟨r', hr', rfl⟩ := Table.mem_update.mp hr
      refine ⟨r', hr', ?_⟩
      split <;> rfl

/-- Statements on contents keep relations. -/
theorem Related.contents {st : ContentStatement} {c : Contents} (h : st.Accepted v m c)
    (hother : (Statement.content st).builds ≠ some id) (hrelated : Related v.store id) :
    Related { v.store with contents := c } id := by
  cases st with
  | insertAssertion new scope subject predicate isRelation =>
    obtain ⟨-, t, ht, rfl⟩ := h
    intro a ha hid hrelation
    rcases (Table.mem_insert? ht).mp ha with rfl | hold
    · exact absurd (congrArg some hid) hother
    · exact hrelated a hold hid hrelation
  | insertRevision n =>
    obtain ⟨-, t, c', ⟨hadopts, ht⟩, rfl⟩ := h
    obtain ⟨hassertions, hrevisions⟩ := hadopts.rows
    intro a ha hid hrelation
    obtain ⟨a', ha', hid', hrelation'⟩ := hassertions a ha
    obtain ⟨hsource, htargets⟩ := hrelated a' ha' (hid'.trans hid) (hrelation'.trans hrelation)
    refine ⟨hsource, fun r hr hof => ?_⟩
    rcases (Table.mem_insert? ht).mp hr with rfl | hold
    · exact absurd (congrArg some hof) hother
    · obtain ⟨r', hr', hkey⟩ := hrevisions r hold
      obtain ⟨t', ht', hkey'⟩ := htargets r' hr' ((Prod.mk.inj hkey).1.trans hof)
      exact ⟨t', ht', hkey'.trans hkey⟩
  | _ =>
    obtain ⟨-, t, -, rfl⟩ := h
    exact hrelated

/-- Statements on the graph keep relations. -/
theorem Related.graph {st : GraphStatement} {g : Graph} (h : st.Accepted v g)
    (hrelated : Related v.store id) : Related { v.store with graph := g } id := by
  have hgrown : (∀ l ∈ v.store.graph.relations, l ∈ g.relations)
      ∧ ∀ t ∈ v.store.graph.targets, t ∈ g.targets := by
    cases st with
    | insertRelation r =>
      obtain ⟨-, t, ht, rfl⟩ := h
      exact ⟨fun l hl => (Table.mem_insert? ht).mpr (Or.inr hl), fun _ h => h⟩
    | insertTarget r =>
      obtain ⟨-, t, ht, rfl⟩ := h
      exact ⟨fun _ h => h, fun l hl => (Table.mem_insert? ht).mpr (Or.inr hl)⟩
    | _ =>
      obtain ⟨-, t, -, rfl⟩ := h
      exact ⟨fun _ h => h, fun _ h => h⟩
  intro a ha hid hrelation
  obtain ⟨⟨l, hl, hlid⟩, htargets⟩ := hrelated a ha hid hrelation
  refine ⟨⟨l, hgrown.1 l hl, hlid⟩, fun r hr hof => ?_⟩
  obtain ⟨t, ht, hkey⟩ := htargets r hr hof
  exact ⟨t, hgrown.2 t ht, hkey⟩

/-- Jobs stay over a statement. -/
theorem QueueStatement.Accepted.exists_job {st : QueueStatement} {row : Option JobRow} {q : Queue}
    (h : st.Accepted v m row q) {j : JobRow} (hj : j ∈ v.store.queue.jobs) (hid : j.id = id) :
    ∃ j' ∈ q.jobs, j'.id = id := by
  cases st with
  | insertJob n =>
    obtain ⟨-, t, ht, rfl⟩ := h
    exact ⟨j, (Table.mem_insert? ht).mpr (Or.inr hj), hid⟩
  | updateJob changed change =>
    obtain ⟨-, rfl⟩ | ⟨old, new, hnew, -, -, rfl⟩ := h
    · exact ⟨j, hj, hid⟩
    · by_cases hmatch : j.id = changed
      · exact ⟨new, (mem_replaceJob_iff hnew).mpr (Or.inl ⟨rfl, j, hj, hmatch⟩),
          hnew.trans (hmatch.symm.trans hid)⟩
      · exact ⟨j, (mem_replaceJob_iff hnew).mpr (Or.inr ⟨hj, hmatch⟩), hid⟩
  | _ =>
    obtain ⟨-, t, -, rfl⟩ := h
    exact ⟨j, hj, hid⟩

/-- Rows stay over a statement that is not part of a purge. -/
theorem HasRow.statement {st : Statement} {s : Store} (hquiet : st.quiet = true)
    (h : st.Accepted v m s) {kind : ObjectKind} (hrow : HasRow v.store id kind) :
    HasRow s id kind := by
  -- A quiet statement inserts, or changes a row and keeps its id: it deletes none.
  cases st with
  | insertObject id scope kind =>
    obtain ⟨-, t, -, rfl⟩ := h
    cases kind <;> exact hrow
  | content st =>
    obtain ⟨c, haccepted, rfl⟩ := h
    cases kind with
    | episode =>
      obtain ⟨r, hr, hid⟩ := hrow
      refine ⟨r, ?_, hid⟩
      cases st with
      | insertEpisode new =>
        obtain ⟨-, t, ht, rfl⟩ := haccepted
        exact (Table.mem_insert? ht).mpr (Or.inr hr)
      | insertRevision n =>
        obtain ⟨-, t, c', ⟨hadopts, -⟩, rfl⟩ := haccepted
        cases hadopts <;> exact hr
      | _ =>
        obtain ⟨-, t, -, rfl⟩ := haccepted
        exact hr
    | assertion =>
      obtain ⟨a, ha, hid⟩ := hrow
      cases st with
      | insertAssertion new scope subject predicate isRelation =>
        obtain ⟨-, t, ht, rfl⟩ := haccepted
        exact ⟨a, (Table.mem_insert? ht).mpr (Or.inr ha), hid⟩
      | insertRevision n =>
        obtain ⟨-, t, c', ⟨hadopts, -⟩, rfl⟩ := haccepted
        cases hadopts with
        | first _ _ _ => exact ⟨a, ha, hid⟩
        | next _ _ _ _ _ _ =>
          obtain ⟨a', ha', hid'⟩ := exists_moveHead ha n.assertionId n.revision
          exact ⟨a', ha', hid'.trans hid⟩
      | _ =>
        obtain ⟨-, t, -, rfl⟩ := haccepted
        exact ⟨a, ha, hid⟩
    | _ => exact hrow
  | graph st =>
    obtain ⟨g, haccepted, rfl⟩ := h
    cases kind with
    | entity =>
      obtain ⟨r, hr, hid⟩ := hrow
      refine ⟨r, ?_, hid⟩
      cases st with
      | insertEntity new =>
        obtain ⟨-, t, ht, rfl⟩ := haccepted
        exact (Table.mem_insert? ht).mpr (Or.inr hr)
      | _ =>
        obtain ⟨-, t, -, rfl⟩ := haccepted
        exact hr
    | _ => exact hrow
  | checkpoint st =>
    obtain ⟨inserted, k, haccepted, rfl⟩ := h
    cases kind with
    | checkpoint =>
      obtain ⟨r, hr, hid⟩ := hrow
      exact ⟨r, haccepted.advanced.kept r hr, hid⟩
    | _ => exact hrow
  | ledger st =>
    obtain ⟨l, haccepted, rfl⟩ := h
    cases kind with
    | toolEffect =>
      obtain ⟨e, he, hid⟩ := hrow
      obtain ⟨n, hn⟩ := haccepted.advanced.effects e he
      exact ⟨_, hn, hid⟩
    | _ => exact hrow
  | queue st =>
    obtain ⟨row, q, haccepted, rfl⟩ := h
    cases kind with
    | job =>
      obtain ⟨j, hj, hid⟩ := hrow
      exact haccepted.exists_job hj hid
    | _ => exact hrow
  | operation st =>
    obtain ⟨o, -, rfl⟩ := h
    cases kind <;> exact hrow
  | purge purgeStep targets => exact absurd hquiet (by simp [Statement.quiet])
  | insertTombstones targets => exact absurd hquiet (by simp [Statement.quiet])
  | bumpDeletionEpoch => exact absurd hquiet (by simp [Statement.quiet])

/-- **A statement keeps every object whole but the one it builds.** -/
theorem Whole.statement {platform : Platform} {st : Statement} {s : Store} (hquiet : st.quiet = true)
    (h : st.Accepted v m s) (hother : st.builds ≠ some id) (hwhole : Whole platform v.store id) :
    Whole platform s id := by
  have hrow : ∀ o ∈ v.store.anchor.objects, o.id = id → Untombstoned s id → HasRow s id o.kind := by
    intro o ho hid hlive
    rw [Untombstoned, (h.grown hquiet).tombstones] at hlive
    exact (hwhole.row o ho hid hlive).statement hquiet h
  cases st with
  | insertObject new scope kind =>
    obtain ⟨-, t, ht, rfl⟩ := h
    refine { hwhole with row := fun o ho hid hlive => ?_ }
    rcases (Table.mem_insert? ht).mp ho with rfl | hold
    · exact absurd (congrArg some hid) hother
    · exact hrow o hold hid hlive
  | content st =>
    obtain ⟨c, haccepted, rfl⟩ := h
    exact { hwhole with row := hrow, relation := hwhole.relation.contents haccepted hother }
  | graph st =>
    obtain ⟨g, haccepted, rfl⟩ := h
    exact { hwhole with
      row := hrow
      entity := hwhole.entity.statement haccepted hother
      relation := hwhole.relation.graph haccepted }
  | checkpoint st =>
    obtain ⟨inserted, k, haccepted, rfl⟩ := h
    exact { hwhole with row := hrow, checkpoint := hwhole.checkpoint.statement haccepted hother }
  | ledger st =>
    obtain ⟨l, haccepted, rfl⟩ := h
    exact { hwhole with row := hrow, effect := hwhole.effect.statement haccepted hother }
  | queue st =>
    obtain ⟨row, q, haccepted, rfl⟩ := h
    exact { hwhole with row := hrow, job := hwhole.job.statement haccepted hother }
  | operation st =>
    obtain ⟨o, -, rfl⟩ := h
    exact { hwhole with row := hrow }
  | purge purgeStep targets => exact absurd hquiet (by simp [Statement.quiet])
  | insertTombstones targets => exact absurd hquiet (by simp [Statement.quiet])
  | bumpDeletionEpoch => exact absurd hquiet (by simp [Statement.quiet])

end Statements

end PgAgmemory

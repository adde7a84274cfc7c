import PgAgmemory.System.Visibility

/-! # What a statement does

One inversion for every area: from a statement that was accepted, the guards that it passed and the
tables that it left (`Accepted`). Every later fact about single statements follows from these. -/

namespace PgAgmemory

open Keyed (HasKey Table key)

/-! ## Contents -/

/-- **Adopting a revision**: a first revision of a head at 1, or the successor of an open head that
began earlier, which is closed at the clock reading. -/
inductive AdoptsRevision (v : View) (m : Moment) (id : UUID) (revision : Nat) : Contents → Prop where
  | first {head : AssertionRow} (hhead : v.assertion? id = some head) (hfirst : revision = 1)
    (hcurrent : head.currentRevision = 1) : AdoptsRevision v m id revision v.store.contents
  | next {head : AssertionRow} {previous : AssertionRevisionRow}
    (hhead : v.assertion? id = some head) (hfirst : revision ≠ 1)
    (hnext : revision = head.currentRevision + 1)
    (hprevious : v.revision? id head.currentRevision = some previous)
    (hopen : previous.systemTo = none) (hlater : previous.systemFrom < m.clock 0) :
    AdoptsRevision v m id revision { v.store.contents with
      revisions := closeAt v.store.contents.revisions id head.currentRevision (m.clock 0)
      assertions := moveHead v.store.contents.assertions id revision }

/-- The trigger on a new revision. -/
theorem adoptRevision_eq_ok {v : View} {m : Moment} {id : UUID} {revision : Nat} {c : Contents}
    (h : adoptRevision v m id revision = .ok c) : AdoptsRevision v m id revision c := by
  simp only [adoptRevision, bind_eq_ok, requireSome_eq_ok] at h
  obtain ⟨head, hhead, h⟩ := h
  obtain ⟨hhead, -⟩ := Option.filter_eq_some_iff.mp hhead
  split at h
  next hfirst =>
    simp only [bind_eq_ok, require_eq_ok, decide_eq_true_eq] at h
    obtain ⟨-, hcurrent, hpure⟩ := h
    cases hpure
    exact .first hhead hfirst hcurrent
  next hfirst =>
    simp only [bind_eq_ok, require_eq_ok, requireSome_eq_ok, decide_eq_true_eq] at h
    obtain ⟨-, hnext, previous, hprevious, h⟩ := h
    split at h
    · cases h
    next hopen =>
      simp only [Bool.or_eq_true, decide_eq_true_eq, not_or, Bool.not_eq_true,
        Option.isSome_eq_false_iff, Option.isNone_iff_eq_none, not_le] at hopen
      obtain ⟨_, _, hpure⟩ := bind_eq_ok.mp h
      cases hpure
      exact .next hhead hfirst hnext hprevious hopen.1 hopen.2

/-- **Adopting a revision** moves heads and closes system times; nothing else changes. -/
theorem AdoptsRevision.kept {v : View} {m : Moment} {id : UUID} {n : Nat} {c : Contents}
    (h : AdoptsRevision v m id n c) :
    c = { v.store.contents with assertions := c.assertions, revisions := c.revisions }
      ∧ (∀ a ∈ c.assertions, ∃ a' ∈ v.store.contents.assertions, ∃ head,
        a = { a' with currentRevision := head })
      ∧ ∀ r ∈ c.revisions, ∃ r' ∈ v.store.contents.revisions, ∃ closed,
        r = { r' with systemTo := closed } := by
  cases h with
  | first _ _ _ => exact ⟨rfl, fun a ha => ⟨a, ha, _, rfl⟩, fun r hr => ⟨r, hr, _, rfl⟩⟩
  | next _ _ _ _ _ _ =>
    refine ⟨rfl, fun a (ha : a ∈ moveHead _ id n) => ?_, fun r (hr : r ∈ closeAt _ id _ _) => ?_⟩
    · obtain ⟨a', ha', rfl⟩ := Keyed.Table.mem_update.mp ha
      refine ⟨a', ha', ?_⟩
      split
      · exact ⟨_, rfl⟩
      · exact ⟨_, rfl⟩
    · obtain ⟨r', hr', rfl⟩ := Keyed.Table.mem_update.mp hr
      refine ⟨r', hr', ?_⟩
      split
      · exact ⟨_, rfl⟩
      · exact ⟨_, rfl⟩

/-- What an accepted statement on contents has passed, and what it leaves. -/
def ContentStatement.Accepted (v : View) (m : Moment) (c : Contents) : ContentStatement → Prop
  | .insertEpisode r => v.writable r.id = true
    ∧ ∃ t, v.store.contents.episodes.insert? r = some t
      ∧ c = { v.store.contents with episodes := t }
  | .insertAssertion id scope subject predicate isRelation => v.writable id = true
    ∧ ∃ t, v.store.contents.assertions.insert? ⟨id, scope, subject, predicate, isRelation, 1⟩ = some t
      ∧ c = { v.store.contents with assertions := t }
  | .insertRevision n => (v.writable n.assertionId = true ∧ n.checks = true)
    ∧ ∃ t c', (AdoptsRevision v m n.assertionId n.revision c'
        ∧ c'.revisions.insert? (n.row m) = some t)
      ∧ c = { c' with revisions := t }
  | .insertEdge r => (v.writable r.childId && v.visible r.parentId) = true
    ∧ ∃ t, v.store.contents.edges.insert? r = some t ∧ c = { v.store.contents with edges := t }
  | .insertEpisodeLexical r => v.writable r.episodeId = true
    ∧ ∃ t, v.store.contents.episodeLexical.insert? r = some t
      ∧ c = { v.store.contents with episodeLexical := t }
  | .insertAssertionLexical r => v.writable r.assertionId = true
    ∧ ∃ t, v.store.contents.assertionLexical.insert? r = some t
      ∧ c = { v.store.contents with assertionLexical := t }
  | .insertEpisodeEmbedding r => (v.writable r.episodeId = true ∧ r.revision = 1)
    ∧ ∃ t, v.store.contents.episodeEmbeddings.insert? r = some t
      ∧ c = { v.store.contents with episodeEmbeddings := t }
  | .insertAssertionEmbedding r => v.writable r.assertionId = true
    ∧ ∃ t, v.store.contents.assertionEmbeddings.insert? r = some t
      ∧ c = { v.store.contents with assertionEmbeddings := t }

/-- **Inversion** of statements on contents. -/
theorem ContentStatement.accepted {platform : Platform} {v : View} {m : Moment}
    {st : ContentStatement} {c : Contents} (h : st.exec platform v m = .ok c) :
    st.Accepted v m c := by
  cases st with
  | insertRevision n =>
    simp only [exec, PgAgmemory.insertRevision, bind_eq_ok, require_eq_ok, insertRow_eq_ok] at h
    obtain ⟨c', hadopt, -, hwritable, -, hchecks, t, ht, hpure⟩ := h
    cases hpure
    exact ⟨⟨hwritable, hchecks⟩, t, c', ⟨adoptRevision_eq_ok hadopt, ht⟩, rfl⟩
  | insertEpisodeEmbedding r =>
    simp only [exec, bind_eq_ok, require_eq_ok, insertRow_eq_ok, Bool.and_eq_true,
      decide_eq_true_eq] at h
    obtain ⟨-, -, -, hwritable, -, ⟨hrevision, -⟩, t, ht, hpure⟩ := h
    cases hpure
    exact ⟨⟨hwritable, hrevision⟩, t, ht, rfl⟩
  | insertAssertionEmbedding r =>
    simp only [exec, bind_eq_ok, require_eq_ok, insertRow_eq_ok] at h
    obtain ⟨-, -, -, hwritable, -, -, t, ht, hpure⟩ := h
    cases hpure
    exact ⟨hwritable, t, ht, rfl⟩
  | _ =>
    simp only [exec, bind_eq_ok, require_eq_ok, insertRow_eq_ok] at h
    obtain ⟨-, hguard, t, ht, hpure⟩ := h
    cases hpure
    exact ⟨hguard, t, ht, rfl⟩

/-! ## Graph -/

/-- What an accepted statement on the graph has passed, and what it leaves. -/
def GraphStatement.Accepted (v : View) (g : Graph) : GraphStatement → Prop
  | .insertEntity r => v.writable r.id = true
    ∧ ∃ t, v.store.graph.entities.insert? r = some t ∧ g = { v.store.graph with entities := t }
  | .insertEntityEvidence r => (v.writable r.entityId && v.visible r.sourceId) = true
    ∧ ∃ t, v.store.graph.evidence.insert? r = some t ∧ g = { v.store.graph with evidence := t }
  | .insertRelation r => (v.writable r.id && v.visible r.sourceId) = true
    ∧ ∃ t, v.store.graph.relations.insert? r = some t ∧ g = { v.store.graph with relations := t }
  | .insertTarget r => (v.writable r.assertionId && v.visible r.targetId
      && (v.relation? r.assertionId).isSome) = true
    ∧ ∃ t, v.store.graph.targets.insert? r = some t ∧ g = { v.store.graph with targets := t }

/-- **Inversion** of statements on the graph. -/
theorem GraphStatement.accepted {v : View} {st : GraphStatement} {g : Graph}
    (h : st.exec v = .ok g) : st.Accepted v g := by
  cases st with
  | insertEntity r =>
    simp only [exec, bind_eq_ok, require_eq_ok, insertRow_eq_ok] at h
    obtain ⟨-, hguard, -, -, t, ht, hpure⟩ := h
    cases hpure
    exact ⟨hguard, t, ht, rfl⟩
  | _ =>
    simp only [exec, bind_eq_ok, require_eq_ok, insertRow_eq_ok] at h
    obtain ⟨-, hguard, t, ht, hpure⟩ := h
    cases hpure
    exact ⟨hguard, t, ht, rfl⟩

/-! ## Checkpoints -/

/-- **Adopting a checkpoint**: it succeeds the head of a live branch, and its parent can be adopted. -/
structure AdoptsCheckpoint (v : View) (n : NewCheckpoint) (ordinal : Nat)
    (branch : CheckpointBranchRow) : Prop where
  found : v.branch? n.scopeId n.runId n.branchId = some branch
  live : branch.invalidated = false
  sequence : n.sequence = branch.sequence + 1
  successor : branch.sequence = 0 ∨ n.parentId = branch.headId
  parent : ∀ id, n.parentId = some id →
    ∃ parent, v.checkpoint? id = some parent ∧ parentAdoptable n ordinal branch parent = true
  guarded : guardBranch branch { branch with headId := some n.id, sequence := n.sequence } = true

/-- The trigger on a new checkpoint. -/
theorem adoptCheckpoint_eq_ok {v : View} {n : NewCheckpoint} {ordinal : Nat}
    {t : Table CheckpointBranchRow} (h : adoptCheckpoint v n ordinal = .ok t) :
    ∃ branch, AdoptsCheckpoint v n ordinal branch
      ∧ t = appendHead v.store.checkpointing.branches n.scopeId n.runId n.branchId n.id n.sequence := by
  simp only [adoptCheckpoint, bind_eq_ok, require_eq_ok, requireSome_eq_ok] at h
  obtain ⟨branch, hbranch, -, hguard, h⟩ := h
  obtain ⟨hfound, -⟩ := Option.filter_eq_some_iff.mp hbranch
  simp only [Bool.and_eq_true, Bool.or_eq_true, Bool.not_eq_true', decide_eq_true_eq] at hguard
  obtain ⟨⟨hlive, hsequence⟩, hsuccessor⟩ := hguard
  cases hparentId : n.parentId with
  | none =>
    rw [hparentId] at h
    simp only [bind_eq_ok, require_eq_ok] at h
    obtain ⟨-, hguarded, hpure⟩ := h
    cases hpure
    refine ⟨branch, ⟨hfound, hlive, hsequence, hsuccessor, fun id hid => ?_, hguarded⟩, rfl⟩
    cases hparentId.symm.trans hid
  | some id =>
    rw [hparentId] at h
    simp only [bind_eq_ok, require_eq_ok, requireSome_eq_ok] at h
    obtain ⟨parent, hparent, -, hadoptable, -, hguarded, hpure⟩ := h
    cases hpure
    refine ⟨branch, ⟨hfound, hlive, hsequence, hsuccessor, fun id' hid => ?_, hguarded⟩, rfl⟩
    cases hparentId.symm.trans hid
    exact ⟨parent, hparent, hadoptable⟩

/-- What an accepted statement on runs, branches or checkpoints has passed, and what it leaves. -/
def CheckpointStatement.Accepted (v : View) (inserted : Bool) (c : Checkpointing) :
    CheckpointStatement → Prop
  | .insertRun scope run harnessId harnessVersion => v.permitted scope .write = true
    ∧ ((inserted = false ∧ c = v.store.checkpointing)
      ∨ inserted = true ∧ ∃ t, v.store.checkpointing.runs.insert?
          ⟨scope, run, harnessId, harnessVersion, false⟩ = some t
        ∧ c = { v.store.checkpointing with runs := t })
  | .insertBranch scope run branch _ => v.permitted scope .write = true
    ∧ ((inserted = false ∧ c = v.store.checkpointing)
      ∨ inserted = true ∧ ∃ t, v.store.checkpointing.branches.insert?
          ⟨scope, run, branch, none, 0, false⟩ = some t
        ∧ c = { v.store.checkpointing with branches := t })
  | .insertCheckpoint n => (runActive v n.scopeId n.runId = true ∧ v.writable n.id = true
      ∧ n.checks = true)
    ∧ ∃ t branch, (AdoptsCheckpoint v n v.store.checkpointing.nextOrdinal branch
        ∧ v.store.checkpointing.checkpoints.insert? (n.row v.store.checkpointing.nextOrdinal) = some t)
      ∧ c = { v.store.checkpointing with
          branches := appendHead v.store.checkpointing.branches n.scopeId n.runId n.branchId n.id
            n.sequence
          checkpoints := t
          nextOrdinal := v.store.checkpointing.nextOrdinal + 1 }
  | .insertReference r => ((v.writable r.checkpointId && v.visible r.sourceId) = true
      ∧ referenceChecks r.sourceKind r.sourceRevision = true)
    ∧ ∃ t, v.store.checkpointing.references.insert? r = some t
      ∧ c = { v.store.checkpointing with references := t }

/-- **Inversion** of statements on runs, branches and checkpoints. -/
theorem CheckpointStatement.accepted {v : View} {st : CheckpointStatement} {inserted : Bool}
    {c : Checkpointing} (h : st.exec v = .ok (inserted, c)) : st.Accepted v inserted c := by
  cases st with
  | insertRun scope run harnessId harnessVersion =>
    simp only [exec, bind_eq_ok, require_eq_ok] at h
    obtain ⟨-, hguard, h⟩ := h
    split at h
    next hnone =>
      cases h
      exact ⟨hguard, Or.inl ⟨rfl, rfl⟩⟩
    next t hsome =>
      cases h
      exact ⟨hguard, Or.inr ⟨rfl, t, hsome, rfl⟩⟩
  | insertBranch scope run branch returning =>
    simp only [exec, bind_eq_ok, require_eq_ok, Bool.and_eq_true] at h
    obtain ⟨-, hguard, h⟩ := h
    split at h
    next hnone =>
      cases h
      exact ⟨hguard.1, Or.inl ⟨rfl, rfl⟩⟩
    next t hsome =>
      cases h
      exact ⟨hguard.1, Or.inr ⟨rfl, t, hsome, rfl⟩⟩
  | insertCheckpoint n =>
    simp only [exec, PgAgmemory.insertCheckpoint, bind_eq_ok, require_eq_ok, insertRow_eq_ok] at h
    obtain ⟨c', ⟨branches, hadopt, -, hactive, -, hwritable, -, hchecks, t, ht, hc⟩, hpure⟩ := h
    cases hc
    cases hpure
    obtain ⟨branch, hadopts, rfl⟩ := adoptCheckpoint_eq_ok hadopt
    exact ⟨⟨hactive, hwritable, hchecks⟩, t, branch, ⟨hadopts, ht⟩, rfl⟩
  | insertReference r =>
    simp only [exec, bind_eq_ok, require_eq_ok, insertRow_eq_ok] at h
    obtain ⟨-, hguard, -, hchecks, t, ht, hpure⟩ := h
    cases hpure
    exact ⟨⟨hguard, hchecks⟩, t, ht, rfl⟩

/-! ## Tool effects -/

/-- **Adopting an effect revision**: a first planned revision of a head at 1, or the successor of a
head that admits its status. -/
inductive AdoptsEffectRevision (v : View) (m : Moment) (n : NewEffectRevision) :
    Table ToolEffectRow → Prop where
  | first {effect : ToolEffectRow} (heffect : v.effect? n.effectId = some effect)
    (hfirst : n.revision = 1) (hcurrent : effect.currentRevision = 1) (hplanned : n.status = .planned)
    (horigin : n.origin = .api) : AdoptsEffectRevision v m n v.store.ledger.effects
  | next {effect : ToolEffectRow} {previous : ToolEffectRevisionRow}
    (heffect : v.effect? n.effectId = some effect) (hfirst : n.revision ≠ 1)
    (hprevious : v.effectRevision? n.effectId effect.currentRevision = some previous)
    (hadoptable : transitionAdoptable n effect.currentRevision previous = true)
    (hlater : previous.recordedAt < m.clock 0) :
    AdoptsEffectRevision v m n (moveEffectHead v.store.ledger.effects n.effectId n.revision)

/-- The trigger on a new effect revision. -/
theorem adoptEffectRevision_eq_ok {v : View} {m : Moment} {n : NewEffectRevision}
    {t : Table ToolEffectRow} (h : adoptEffectRevision v m n = .ok t) :
    (n.status = .dispatched → runInvalidated v n.effectId = false)
      ∧ AdoptsEffectRevision v m n t := by
  simp only [adoptEffectRevision, bind_eq_ok, require_eq_ok, requireSome_eq_ok] at h
  obtain ⟨effect, heffect, -, hinvalidated, h⟩ := h
  obtain ⟨heffect, -⟩ := Option.filter_eq_some_iff.mp heffect
  refine ⟨fun hstatus => ?_, ?_⟩
  · rw [hstatus] at hinvalidated
    simpa using hinvalidated
  split at h
  next hfirst =>
    simp only [bind_eq_ok, require_eq_ok, Bool.and_eq_true, decide_eq_true_eq] at h
    obtain ⟨-, ⟨⟨hcurrent, hplanned⟩, horigin⟩, hpure⟩ := h
    cases hpure
    exact .first heffect hfirst hcurrent hplanned horigin
  next hfirst =>
    simp only [bind_eq_ok, require_eq_ok, requireSome_eq_ok] at h
    obtain ⟨previous, hprevious, -, hadoptable, h⟩ := h
    split at h
    · cases h
    next hlater =>
      obtain ⟨_, _, hpure⟩ := bind_eq_ok.mp h
      cases hpure
      exact .next heffect hfirst hprevious hadoptable (not_le.mp hlater)

/-- What an accepted statement on tool effects has passed, and what it leaves. -/
def LedgerStatement.Accepted (v : View) (m : Moment) (l : Ledger) : LedgerStatement → Prop
  | .insertEffect n => (guardToolEffect v n.scopeId n.runId = true ∧ v.writable n.id = true)
    ∧ ∃ t, v.store.ledger.effects.insert? n.row = some t
      ∧ l = { v.store.ledger with effects := t }
  | .insertReference r => ((v.writable r.effectId && v.visible r.sourceId) = true
      ∧ referenceChecks r.sourceKind r.sourceRevision = true)
    ∧ ∃ t, v.store.ledger.references.insert? r = some t
      ∧ l = { v.store.ledger with references := t }
  | .insertIdentity r => v.permitted r.scopeId .write = true
    ∧ ∃ t, v.store.ledger.identities.insert? r = some t
      ∧ l = { v.store.ledger with identities := t }
  | .insertRevision n => (v.writable n.effectId = true ∧ n.checks = true
      ∧ (n.status = .dispatched → runInvalidated v n.effectId = false))
    ∧ ∃ t effects, (AdoptsEffectRevision v m n effects
        ∧ v.store.ledger.revisions.insert? (n.row v m) = some t)
      ∧ l = { v.store.ledger with effects := effects, revisions := t }

/-- **Inversion** of statements on tool effects. -/
theorem LedgerStatement.accepted {v : View} {m : Moment} {st : LedgerStatement} {l : Ledger}
    (h : st.exec v m = .ok l) : st.Accepted v m l := by
  cases st with
  | insertEffect n =>
    simp only [exec, bind_eq_ok, require_eq_ok, insertRow_eq_ok] at h
    obtain ⟨-, hguard, -, hwritable, -, -, t, ht, hpure⟩ := h
    cases hpure
    exact ⟨⟨hguard, hwritable⟩, t, ht, rfl⟩
  | insertReference r =>
    simp only [exec, bind_eq_ok, require_eq_ok, insertRow_eq_ok] at h
    obtain ⟨-, hguard, -, hchecks, t, ht, hpure⟩ := h
    cases hpure
    exact ⟨⟨hguard, hchecks⟩, t, ht, rfl⟩
  | insertIdentity r =>
    simp only [exec, bind_eq_ok, require_eq_ok, insertRow_eq_ok] at h
    obtain ⟨-, hguard, t, ht, hpure⟩ := h
    cases hpure
    exact ⟨hguard, t, ht, rfl⟩
  | insertRevision n =>
    simp only [exec, bind_eq_ok, require_eq_ok, insertRow_eq_ok] at h
    obtain ⟨effects, hadopt, -, hwritable, -, hchecks, t, ht, hpure⟩ := h
    cases hpure
    obtain ⟨hinvalidated, hadopts⟩ := adoptEffectRevision_eq_ok hadopt
    exact ⟨⟨hwritable, hchecks, hinvalidated⟩, t, effects, ⟨hadopts, ht⟩, rfl⟩

/-! ## Jobs -/

/-- **Changing a job**: its owner's update applies and the trigger admits the row that it stamps. -/
structure ChangesJob (v : View) (m : Moment) (id : UUID) (change : JobChange) (old new : JobRow) :
    Prop where
  found : v.store.queue.jobs.find? id = some old
  updatable : v.jobUpdatable old = true
  applies : change.applies v m old = true
  stamped : new = { change.apply v m old with updatedAt := m.clock 1 }
  guarded : guardUpdate (m.clock 1) old new = true
  checked : new.checks = true

/-- What an accepted statement on jobs has passed, and what it leaves. -/
def QueueStatement.Accepted (v : View) (m : Moment) (row : Option JobRow) (q : Queue) :
    QueueStatement → Prop
  | .insertJob n => (v.writable n.id = true ∧ (n.row v m).checks = true)
    ∧ ∃ t, v.store.queue.jobs.insert? (n.row v m) = some t ∧ q = { v.store.queue with jobs := t }
  | .insertInput r => (v.writable r.jobId && v.visible r.sourceId) = true
    ∧ ∃ t, v.store.queue.inputs.insert? r = some t ∧ q = { v.store.queue with inputs := t }
  | .insertIdentity r => (v.permitted r.scopeId .write = true ∧ r.principalId = v.principal)
    ∧ ∃ t, v.store.queue.identities.insert? r = some t ∧ q = { v.store.queue with identities := t }
  | .updateJob id change => (row = none ∧ q = v.store.queue)
    ∨ ∃ old new, ∃ hid : new.id = id, ChangesJob v m id change old new ∧ row = some new
      ∧ q = { v.store.queue with jobs := replaceJob v.store.queue.jobs id new hid }

/-- **Inversion** of statements on jobs. -/
theorem QueueStatement.accepted {v : View} {m : Moment} {st : QueueStatement} {row : Option JobRow}
    {q : Queue} (h : st.exec v m = .ok (row, q)) : st.Accepted v m row q := by
  cases st with
  | insertJob n =>
    simp only [exec, bind_eq_ok, require_eq_ok, insertRow_eq_ok] at h
    obtain ⟨-, -, -, hwritable, -, hchecks, t, ht, hpure⟩ := h
    cases hpure
    exact ⟨⟨hwritable, hchecks⟩, t, ht, rfl⟩
  | insertInput r =>
    simp only [exec, bind_eq_ok, require_eq_ok, insertRow_eq_ok] at h
    obtain ⟨-, hguard, t, ht, hpure⟩ := h
    cases hpure
    exact ⟨hguard, t, ht, rfl⟩
  | insertIdentity r =>
    simp only [exec, bind_eq_ok, require_eq_ok, insertRow_eq_ok, Bool.and_eq_true,
      decide_eq_true_eq] at h
    obtain ⟨-, hguard, t, ht, hpure⟩ := h
    cases hpure
    exact ⟨hguard, t, ht, rfl⟩
  | updateJob id change =>
    simp only [exec, PgAgmemory.updateJob] at h
    split at h
    · cases h
      exact Or.inl ⟨rfl, rfl⟩
    next old hfound =>
      split at h
      next happlies =>
        simp only [bind_eq_ok, require_eq_ok] at h
        obtain ⟨-, hguard, -, hchecks, hpure⟩ := h
        cases hpure
        rw [Bool.and_eq_true] at happlies
        exact Or.inr ⟨old, _, _, ⟨hfound, happlies.1, happlies.2, rfl, hguard, hchecks⟩, rfl, rfl⟩
      next =>
        cases h
        exact Or.inl ⟨rfl, rfl⟩

/-! ## Operations -/

/-- What an accepted statement on the operation tables has passed, and what it leaves. -/
def OperationStatement.Accepted (v : View) (m : Moment) (o : Operations) :
    OperationStatement → Prop
  | .insertSourceEvent r => v.permitted r.scopeId .write = true
    ∧ ∃ t, v.store.operations.sourceEvents.insert? r = some t
      ∧ o = { v.store.operations with sourceEvents := t }
  | .saveResult operation keyDigest requestDigest result => True
    ∧ ∃ t, v.store.operations.receipts.insert?
        ⟨v.principal, operation, keyDigest, requestDigest, result⟩ = some t
      ∧ o = { v.store.operations with receipts := t }
  | .audit action target => True
    ∧ ∃ t, v.store.operations.audit.insert?
        ⟨v.store.operations.nextAudit, v.principal, action, target, m.clock 0⟩ = some t
      ∧ o = { v.store.operations with
          audit := t, nextAudit := v.store.operations.nextAudit + 1 }
  | .insertDeletion id objectCount deletionEpoch => True
    ∧ ∃ t, v.store.operations.deletions.insert?
        ⟨id, v.principal, objectCount, deletionEpoch, m.clock 0⟩ = some t
      ∧ o = { v.store.operations with deletions := t }

/-- **Inversion** of statements on the operation tables. -/
theorem OperationStatement.accepted {v : View} {m : Moment} {st : OperationStatement}
    {o : Operations} (h : st.exec v m = .ok o) : st.Accepted v m o := by
  cases st with
  | insertSourceEvent r =>
    simp only [exec, bind_eq_ok, require_eq_ok, insertRow_eq_ok] at h
    obtain ⟨-, hguard, t, ht, hpure⟩ := h
    cases hpure
    exact ⟨hguard, t, ht, rfl⟩
  | _ =>
    simp only [exec, bind_eq_ok, insertRow_eq_ok] at h
    obtain ⟨t, ht, hpure⟩ := h
    cases hpure
    exact ⟨trivial, t, ht, rfl⟩

/-! ## Statements -/

/-- What an accepted statement outside a purge has passed, and what it leaves. -/
def Statement.Accepted (v : View) (m : Moment) (s : Store) : Statement → Prop
  | .insertObject id scope kind => v.permitted scope .write = true
    ∧ ∃ t, v.store.anchor.objects.insert? ⟨id, scope, kind, m.clock 0⟩ = some t
      ∧ s = { v.store with anchor.objects := t }
  | .content st => ∃ c, st.Accepted v m c ∧ s = { v.store with contents := c }
  | .graph st => ∃ g, st.Accepted v g ∧ s = { v.store with graph := g }
  | .checkpoint st => ∃ inserted c, st.Accepted v inserted c
    ∧ s = { v.store with checkpointing := c }
  | .ledger st => ∃ l, st.Accepted v m l ∧ s = { v.store with ledger := l }
  | .queue st => ∃ row q, st.Accepted v m row q ∧ s = { v.store with queue := q }
  | .operation st => ∃ o, st.Accepted v m o ∧ s = { v.store with operations := o }
  | _ => True

/-- **Inversion** of statements. -/
theorem Statement.accepted {platform : Platform} {v : View} {m : Moment} {st : Statement}
    {returned : Returned} {s : Store} (h : st.exec platform v m = .ok (returned, s)) :
    st.Accepted v m s := by
  cases st with
  | insertObject id scope kind =>
    simp only [exec, PgAgmemory.insertObject, bind_eq_ok, require_eq_ok, insertRow_eq_ok] at h
    obtain ⟨a, ⟨-, hguard, t, ht, ha⟩, hpure⟩ := h
    cases ha
    cases hpure
    exact ⟨hguard, t, ht, rfl⟩
  | content st =>
    obtain ⟨c, hexec, hpure⟩ := bind_eq_ok.mp h
    cases hpure
    exact ⟨c, st.accepted hexec, rfl⟩
  | graph st =>
    obtain ⟨g, hexec, hpure⟩ := bind_eq_ok.mp h
    cases hpure
    exact ⟨g, st.accepted hexec, rfl⟩
  | checkpoint st =>
    obtain ⟨⟨inserted, c⟩, hexec, hpure⟩ := bind_eq_ok.mp h
    cases hpure
    exact ⟨inserted, c, st.accepted hexec, rfl⟩
  | ledger st =>
    obtain ⟨l, hexec, hpure⟩ := bind_eq_ok.mp h
    cases hpure
    exact ⟨l, st.accepted hexec, rfl⟩
  | queue st =>
    obtain ⟨⟨row, q⟩, hexec, hpure⟩ := bind_eq_ok.mp h
    cases hpure
    exact ⟨row, q, st.accepted hexec, rfl⟩
  | operation st =>
    obtain ⟨o, hexec, hpure⟩ := bind_eq_ok.mp h
    cases hpure
    exact ⟨o, st.accepted hexec, rfl⟩
  | purge purgeStep targets => trivial
  | insertTombstones targets => trivial
  | bumpDeletionEpoch => trivial

end PgAgmemory

import PgAgmemory.System.Inversion

/-! # Growth

What every statement outside a purge leaves alone: access, tombstones, object anchors, the numbers of
revisions, source events, identities and receipts only ever grow (`Grown`). A program that sends no
statement of a purge is *quiet*; its run leads to a grown store. -/

namespace PgAgmemory

open Keyed (HasKey Table key)
open Interactive (Program)
open Interactive.Program (Ensures)

/-- Whether a statement is not part of a purge. -/
def Statement.quiet : Statement → Bool
  | .purge _ _ | .insertTombstones _ | .bumpDeletionEpoch => false
  | _ => true

/-- **Growth**: nothing that marks an identity, a deletion or a permission is lost or changed. -/
structure Grown (s s' : Store) : Prop where
  access : s'.access = s.access
  tombstones : s'.anchor.tombstones = s.anchor.tombstones
  objects : ∀ o ∈ s.anchor.objects, o ∈ s'.anchor.objects
  revisions : ∀ r ∈ s.contents.revisions, ∃ r' ∈ s'.contents.revisions, key r' = key r
  sourceEvents : ∀ e ∈ s.operations.sourceEvents, e ∈ s'.operations.sourceEvents
  receipts : ∀ r ∈ s.operations.receipts, r ∈ s'.operations.receipts
  jobIdentities : ∀ i ∈ s.queue.identities, i ∈ s'.queue.identities
  effectIdentities : ∀ i ∈ s.ledger.identities, i ∈ s'.ledger.identities

namespace Grown

/-- A store has grown from itself, by nothing. -/
theorem refl (s : Store) : Grown s s :=
  ⟨rfl, rfl, fun _ h => h, fun r h => ⟨r, h, rfl⟩, fun _ h => h, fun _ h => h, fun _ h => h,
    fun _ h => h⟩

/-- Growth adds up. -/
theorem trans {s s' s'' : Store} (h : Grown s s') (h' : Grown s' s'') : Grown s s'' where
  access := h'.access.trans h.access
  tombstones := h'.tombstones.trans h.tombstones
  objects o ho := h'.objects o (h.objects o ho)
  revisions r hr := by
    obtain ⟨r', hr', hkey⟩ := h.revisions r hr
    obtain ⟨r'', hr'', hkey'⟩ := h'.revisions r' hr'
    exact ⟨r'', hr'', hkey'.trans hkey⟩
  sourceEvents e he := h'.sourceEvents e (h.sourceEvents e he)
  receipts r hr := h'.receipts r (h.receipts r hr)
  jobIdentities i hi := h'.jobIdentities i (h.jobIdentities i hi)
  effectIdentities i hi := h'.effectIdentities i (h.effectIdentities i hi)

end Grown

/-- **What no event takes away**: the secret, the tombstones, the receipts and the identities. -/
structure Retains (s s' : Store) : Prop where
  secret : s'.access.dedupSecret = s.access.dedupSecret
  tombstones : ∀ t ∈ s.anchor.tombstones, t ∈ s'.anchor.tombstones
  sourceEvents : ∀ e ∈ s.operations.sourceEvents, e ∈ s'.operations.sourceEvents
  receipts : ∀ r ∈ s.operations.receipts, r ∈ s'.operations.receipts
  jobIdentities : ∀ i ∈ s.queue.identities, i ∈ s'.queue.identities
  effectIdentities : ∀ i ∈ s.ledger.identities, i ∈ s'.ledger.identities

namespace Retains

/-- A store retains what it has. -/
theorem refl (s : Store) : Retains s s :=
  ⟨rfl, fun _ h => h, fun _ h => h, fun _ h => h, fun _ h => h, fun _ h => h⟩

/-- What is retained twice is retained. -/
theorem trans {s s' s'' : Store} (h : Retains s s') (h' : Retains s' s'') : Retains s s'' where
  secret := h'.secret.trans h.secret
  tombstones t ht := h'.tombstones t (h.tombstones t ht)
  sourceEvents e he := h'.sourceEvents e (h.sourceEvents e he)
  receipts r hr := h'.receipts r (h.receipts r hr)
  jobIdentities i hi := h'.jobIdentities i (h.jobIdentities i hi)
  effectIdentities i hi := h'.effectIdentities i (h.effectIdentities i hi)

end Retains

/-- A grown store retains what it had. -/
theorem Grown.retains {s s' : Store} (h : Grown s s') : Retains s s' :=
  ⟨congrArg Access.dedupSecret h.access, fun _ ht => h.tombstones ▸ ht, h.sourceEvents, h.receipts,
    h.jobIdentities, h.effectIdentities⟩

/-! ## Statements grow the store -/

/-- Closing a revision keeps its number. -/
theorem closeAt_keys {revisions : Table AssertionRevisionRow} (id : UUID) (n : Nat) (t : Time)
    {r : AssertionRevisionRow} (hr : r ∈ revisions) :
    ∃ r' ∈ closeAt revisions id n t, key r' = key r := by
  refine ⟨_, Table.mem_update.mpr ⟨r, hr, rfl⟩, ?_⟩
  split <;> rfl

/-- Adopting a revision keeps the numbers of all others. -/
theorem AdoptsRevision.keys {v : View} {m : Moment} {id : UUID} {n : Nat} {c : Contents}
    (h : AdoptsRevision v m id n c) {r : AssertionRevisionRow}
    (hr : r ∈ v.store.contents.revisions) : ∃ r' ∈ c.revisions, key r' = key r := by
  cases h with
  | first _ _ _ => exact ⟨r, hr, rfl⟩
  | next _ _ _ _ _ _ => exact closeAt_keys id _ (m.clock 0) hr

/-- Statements on contents keep the numbers of all revisions. -/
theorem ContentStatement.Accepted.keys {v : View} {m : Moment} {st : ContentStatement} {c : Contents}
    (h : st.Accepted v m c) {r : AssertionRevisionRow} (hr : r ∈ v.store.contents.revisions) :
    ∃ r' ∈ c.revisions, key r' = key r := by
  cases st with
  | insertRevision n =>
    obtain ⟨-, t, c', ⟨hadopts, ht⟩, rfl⟩ := h
    obtain ⟨r', hr', hkey⟩ := hadopts.keys hr
    exact ⟨r', (Table.mem_insert? ht).mpr (Or.inr hr'), hkey⟩
  | _ =>
    obtain ⟨-, t, -, rfl⟩ := h
    exact ⟨r, hr, rfl⟩

/-- Statements on tool effects keep all identities. -/
theorem LedgerStatement.Accepted.identities {v : View} {m : Moment} {st : LedgerStatement}
    {l : Ledger} (h : st.Accepted v m l) {i : ToolEffectIdentityRow}
    (hi : i ∈ v.store.ledger.identities) : i ∈ l.identities := by
  cases st with
  | insertIdentity row =>
    obtain ⟨-, t, ht, rfl⟩ := h
    exact (Table.mem_insert? ht).mpr (Or.inr hi)
  | insertRevision n =>
    obtain ⟨-, t, effects, -, rfl⟩ := h
    exact hi
  | _ =>
    obtain ⟨-, t, -, rfl⟩ := h
    exact hi

/-- Statements on jobs keep all identities. -/
theorem QueueStatement.Accepted.identities {v : View} {m : Moment} {st : QueueStatement}
    {row : Option JobRow} {q : Queue} (h : st.Accepted v m row q) {i : JobIdentityRow}
    (hi : i ∈ v.store.queue.identities) : i ∈ q.identities := by
  cases st with
  | insertIdentity row =>
    obtain ⟨-, t, ht, rfl⟩ := h
    exact (Table.mem_insert? ht).mpr (Or.inr hi)
  | updateJob id change =>
    obtain ⟨-, rfl⟩ | ⟨old, new, hid, -, -, rfl⟩ := h
    · exact hi
    · exact hi
  | _ =>
    obtain ⟨-, t, -, rfl⟩ := h
    exact hi

/-- Statements on the operation tables keep all source events and receipts. -/
theorem OperationStatement.Accepted.grown {v : View} {m : Moment} {st : OperationStatement}
    {o : Operations} (h : st.Accepted v m o) :
    (∀ e ∈ v.store.operations.sourceEvents, e ∈ o.sourceEvents)
      ∧ ∀ r ∈ v.store.operations.receipts, r ∈ o.receipts := by
  cases st with
  | insertSourceEvent row =>
    obtain ⟨-, t, ht, rfl⟩ := h
    exact ⟨fun e he => (Table.mem_insert? ht).mpr (Or.inr he), fun _ hr => hr⟩
  | saveResult operation keyDigest requestDigest result =>
    obtain ⟨-, t, ht, rfl⟩ := h
    exact ⟨fun _ he => he, fun r hr => (Table.mem_insert? ht).mpr (Or.inr hr)⟩
  | _ =>
    obtain ⟨-, t, -, rfl⟩ := h
    exact ⟨fun _ he => he, fun _ hr => hr⟩

/-- **A quiet statement grows the store.** -/
theorem Statement.Accepted.grown {v : View} {m : Moment} {st : Statement} {s : Store}
    (hquiet : st.quiet = true) (h : st.Accepted v m s) : Grown v.store s := by
  cases st with
  | insertObject id scope kind =>
    obtain ⟨-, t, ht, rfl⟩ := h
    exact { Grown.refl v.store with
      objects := fun o ho => (Table.mem_insert? ht).mpr (Or.inr ho) }
  | content st =>
    obtain ⟨c, haccepted, rfl⟩ := h
    exact { Grown.refl v.store with revisions := fun r hr => haccepted.keys hr }
  | graph st =>
    obtain ⟨g, -, rfl⟩ := h
    exact { Grown.refl v.store with }
  | checkpoint st =>
    obtain ⟨inserted, c, -, rfl⟩ := h
    exact { Grown.refl v.store with }
  | ledger st =>
    obtain ⟨l, haccepted, rfl⟩ := h
    exact { Grown.refl v.store with effectIdentities := fun i hi => haccepted.identities hi }
  | queue st =>
    obtain ⟨row, q, haccepted, rfl⟩ := h
    exact { Grown.refl v.store with jobIdentities := fun i hi => haccepted.identities hi }
  | operation st =>
    obtain ⟨o, haccepted, rfl⟩ := h
    obtain ⟨hevents, hreceipts⟩ := haccepted.grown
    exact { Grown.refl v.store with
      sourceEvents := hevents
      receipts := hreceipts }
  | purge purgeStep targets => exact absurd hquiet (by simp [quiet])
  | insertTombstones targets => exact absurd hquiet (by simp [quiet])
  | bumpDeletionEpoch => exact absurd hquiet (by simp [quiet])

/-- **One statement**, unless it deletes, only adds to the store. -/
theorem step_grown {platform : Platform} {m : Moment} {st : Statement} {r : Returned}
    {session session' : Session} (hquiet : st.quiet = true)
    (h : step platform st m session = .ok (r, session')) : Grown session.store session'.store :=
  (st.accepted (step_eq_ok.mp h).2.1).grown hquiet

/-! ## One area at a time -/

/-- **A statement writes its own area only.** -/
structure Statement.InArea (v : View) (st : Statement) (s : Store) : Prop where
  access : s.access = v.store.access
  tombstones : s.anchor.tombstones = v.store.anchor.tombstones
  objects : s.anchor = v.store.anchor ∨ ∃ id scope kind, st = .insertObject id scope kind
  contents : s.contents = v.store.contents ∨ ∃ st', st = .content st'
  graph : s.graph = v.store.graph ∨ ∃ st', st = .graph st'
  checkpointing : s.checkpointing = v.store.checkpointing ∨ ∃ st', st = .checkpoint st'
  ledger : s.ledger = v.store.ledger ∨ ∃ st', st = .ledger st'
  queue : s.queue = v.store.queue ∨ ∃ st', st = .queue st'
  operations : s.operations = v.store.operations ∨ ∃ st', st = .operation st'

section Areas

variable {v : View} {m : Moment} {st : Statement} {s : Store}

/-- An accepted statement that does not delete writes in its own area. -/
theorem Statement.Accepted.inArea (hquiet : st.quiet = true) (h : st.Accepted v m s) :
    st.InArea v s := by
  have hsame : ∀ {α : Type} (a : α) (p : Prop), a = a ∨ p := fun _ _ => Or.inl rfl
  cases st with
  | insertObject id scope kind =>
    obtain ⟨-, t, -, rfl⟩ := h
    constructor <;> first | rfl | exact hsame _ _ | exact Or.inr ⟨_, _, _, rfl⟩
  | checkpoint st' =>
    obtain ⟨inserted, c, -, rfl⟩ := h
    constructor <;> first | rfl | exact hsame _ _ | exact Or.inr ⟨_, rfl⟩
  | queue st' =>
    obtain ⟨row, q, -, rfl⟩ := h
    constructor <;> first | rfl | exact hsame _ _ | exact Or.inr ⟨_, rfl⟩
  | content st' =>
    obtain ⟨c, -, rfl⟩ := h
    constructor <;> first | rfl | exact hsame _ _ | exact Or.inr ⟨_, rfl⟩
  | graph st' =>
    obtain ⟨g, -, rfl⟩ := h
    constructor <;> first | rfl | exact hsame _ _ | exact Or.inr ⟨_, rfl⟩
  | ledger st' =>
    obtain ⟨l, -, rfl⟩ := h
    constructor <;> first | rfl | exact hsame _ _ | exact Or.inr ⟨_, rfl⟩
  | operation st' =>
    obtain ⟨o, -, rfl⟩ := h
    constructor <;> first | rfl | exact hsame _ _ | exact Or.inr ⟨_, rfl⟩
  | purge purgeStep targets => exact absurd hquiet (by simp [quiet])
  | insertTombstones targets => exact absurd hquiet (by simp [quiet])
  | bumpDeletionEpoch => exact absurd hquiet (by simp [quiet])

/-- What a quiet statement does to the contents. -/
theorem Statement.Accepted.contents_cases (hquiet : st.quiet = true) (h : st.Accepted v m s) :
    s.contents = v.store.contents ∨ ∃ st', st = .content st' ∧ st'.Accepted v m s.contents := by
  rcases (h.inArea hquiet).contents with hsame | ⟨st', rfl⟩
  · exact Or.inl hsame
  · obtain ⟨c, haccepted, rfl⟩ := h
    exact Or.inr ⟨st', rfl, haccepted⟩

/-- What a quiet statement does to the graph. -/
theorem Statement.Accepted.graph_cases (hquiet : st.quiet = true) (h : st.Accepted v m s) :
    s.graph = v.store.graph ∨ ∃ st', st = .graph st' ∧ st'.Accepted v s.graph := by
  rcases (h.inArea hquiet).graph with hsame | ⟨st', rfl⟩
  · exact Or.inl hsame
  · obtain ⟨g, haccepted, rfl⟩ := h
    exact Or.inr ⟨st', rfl, haccepted⟩

/-- What a quiet statement does to runs, branches and checkpoints. -/
theorem Statement.Accepted.checkpointing_cases (hquiet : st.quiet = true) (h : st.Accepted v m s) :
    s.checkpointing = v.store.checkpointing
      ∨ ∃ st' inserted, st = .checkpoint st' ∧ st'.Accepted v inserted s.checkpointing := by
  rcases (h.inArea hquiet).checkpointing with hsame | ⟨st', rfl⟩
  · exact Or.inl hsame
  · obtain ⟨inserted, c, haccepted, rfl⟩ := h
    exact Or.inr ⟨st', inserted, rfl, haccepted⟩

/-- What a quiet statement does to the ledger. -/
theorem Statement.Accepted.ledger_cases (hquiet : st.quiet = true) (h : st.Accepted v m s) :
    s.ledger = v.store.ledger ∨ ∃ st', st = .ledger st' ∧ st'.Accepted v m s.ledger := by
  rcases (h.inArea hquiet).ledger with hsame | ⟨st', rfl⟩
  · exact Or.inl hsame
  · obtain ⟨l, haccepted, rfl⟩ := h
    exact Or.inr ⟨st', rfl, haccepted⟩

/-- What a quiet statement does to the queue. -/
theorem Statement.Accepted.queue_cases (hquiet : st.quiet = true) (h : st.Accepted v m s) :
    s.queue = v.store.queue ∨ ∃ st' row, st = .queue st' ∧ st'.Accepted v m row s.queue := by
  rcases (h.inArea hquiet).queue with hsame | ⟨st', rfl⟩
  · exact Or.inl hsame
  · obtain ⟨row, q, haccepted, rfl⟩ := h
    exact Or.inr ⟨st', row, rfl, haccepted⟩

end Areas

end PgAgmemory

import PgAgmemory.History.Texts
import PgAgmemory.Recalling.Reports
import PgAgmemory.Service.Embeddings
import PgAgmemory.System.Refusals

/-! # The text of a revision

An id and a number name at most one text, that of an episode or of a revision (`Store.Text`), and later
stores give them no other (`Worded.text_eq`). The text is what an explanation says, what the input of an
embedding repeats, and what the digest of a stored vector is compared with. -/

namespace PgAgmemory

open Keyed (HasKey Table key)
open Interactive.Program (Raises ReadOnly)
open MemoryService

/-! ## Texts -/

/-- **The text of an episode or of a revision.** -/
inductive Store.Text (s : Store) (id : UUID) (revision : Nat) : String → Prop where
  | episode {e : EpisodeRow} (he : e ∈ s.contents.episodes) (hid : e.id = id) (hone : revision = 1) :
    s.Text id revision e.content.str
  | assertion {a : AssertionRow} {r : AssertionRevisionRow} (ha : a ∈ s.contents.assertions)
    (hid : a.id = id) (hr : r ∈ s.contents.revisionsOf a.id) (hnumber : r.revision = revision) :
    s.Text id revision (a.text r)

/-- The objects of an episode and of an assertion are different, also of different stores. -/
theorem Steady.kind_eq {s s' : Store} (h : Steady s s') {id : UUID} {kind kind' : ObjectKind}
    (hobject : ∃ o ∈ s.anchor.objects, o.id = id ∧ o.kind = kind)
    (hobject' : ∃ o ∈ s'.anchor.objects, o.id = id ∧ o.kind = kind') : kind = kind' := by
  obtain ⟨o, ho, hid, rfl⟩ := hobject
  obtain ⟨o', ho', hid', rfl⟩ := hobject'
  rw [h.object_eq ho ho' (hid'.trans hid.symm)]

/-- The object of an episode. -/
theorem ForeignKeys.exists_episode {s : Store} (h : ForeignKeys s) {e : EpisodeRow}
    (he : e ∈ s.contents.episodes) :
    ∃ o ∈ s.anchor.objects, o.id = e.id ∧ o.kind = .episode := by
  obtain ⟨o, ho, hkey⟩ := h.content.episode_object.exists_parent he rfl
  obtain ⟨hid, -, hkind⟩ : _ ∧ _ ∧ _ := by simpa only [Prod.mk.injEq] using hkey
  exact ⟨o, ho, hid, hkind⟩

/-- The object of an assertion. -/
theorem ForeignKeys.exists_assertion {s : Store} (h : ForeignKeys s) {a : AssertionRow}
    (ha : a ∈ s.contents.assertions) :
    ∃ o ∈ s.anchor.objects, o.id = a.id ∧ o.kind = .assertion := by
  obtain ⟨o, ho, hkey⟩ := h.content.assertion_object.exists_parent ha rfl
  obtain ⟨hid, -, hkind⟩ : _ ∧ _ ∧ _ := by simpa only [Prod.mk.injEq] using hkey
  exact ⟨o, ho, hid, hkind⟩

/-- **A text is never reworded**: a later store has the same text for an id and a number, or none. -/
theorem Worded.text_eq {s s' : Store} (h : Worded s s') (hkeys : ForeignKeys s)
    (hkeys' : ForeignKeys s') (hhistory : ∀ a ∈ s.contents.assertions, s.contents.Historied a)
    {id : UUID} {revision : Nat} {text text' : String} (htext : s.Text id revision text)
    (htext' : s'.Text id revision text') : text' = text := by
  cases htext with
  | @episode e he hid hone =>
    cases htext' with
    | @episode e' he' hid' hone' => rw [h.episode_eq hkeys he he' (hid'.trans hid.symm)]
    | @assertion a' r' ha' hid' hr' hnumber' =>
      have hkind := h.steady.kind_eq (hid ▸ hkeys.exists_episode he)
        (hid' ▸ hkeys'.exists_assertion ha')
      cases hkind
  | @assertion a r ha hid hr hnumber =>
    cases htext' with
    | @episode e' he' hid' hone' =>
      have hkind := h.steady.kind_eq (hid ▸ hkeys.exists_assertion ha)
        (hid' ▸ hkeys'.exists_episode he')
      cases hkind
    | @assertion a' r' ha' hid' hr' hnumber' =>
      have hsame : a'.id = a.id := hid'.trans hid.symm
      obtain ⟨hsubject, hpredicate⟩ := h.assertion_eq hkeys ha ha' hsame
      have hkey : key r' = key r :=
        Prod.ext (hr'.2.trans (hsame.trans hr.2.symm)) (hnumber'.trans hnumber.symm)
      have hvalue := h.value_eq hkeys ha hr.1 hr.2 ((hhistory a ha).chain.bounds hr).2 hr'.1 hkey
      rw [AssertionRow.text, AssertionRow.text, hsubject, hpredicate, hvalue]

/-! ## Explanations -/

/-- The text that an explanation shows. -/
def Explanation.text? : Explanation → Option String
  | .episode row => row.map fun e => e.content.str
  | .assertion a r _ _ => some (a.text r)

/-- **What is there to be explained**: an episode of a scope, or a revision of an assertion of a scope
that has the links it should have. -/
inductive Store.Stands (s : Store) (scope : UUID) (data : Explain) : ObjectKind → Prop where
  | episode {e : EpisodeRow} (he : e ∈ s.contents.episodes) (hid : e.id = data.memoryId)
    (hscope : e.scopeId = scope) (hone : data.revision.val = 1) : s.Stands scope data .episode
  | assertion {a : AssertionRow} {r : AssertionRevisionRow} (ha : a ∈ s.contents.assertions)
    (hid : a.id = data.memoryId) (hscope : a.scopeId = scope) (hr : r ∈ s.contents.revisionsOf a.id)
    (hnumber : r.revision = data.revision.val)
    (hends : a.isRelation = true → (s.endpoints? a.id r.revision).isSome = true) :
    s.Stands scope data .assertion

/-- **A full explanation.** -/
inductive Store.Explained (s : Store) (data : Explain) : Explanation → Prop where
  | episode {e : EpisodeRow} (he : e ∈ s.contents.episodes) (hid : e.id = data.memoryId)
    (hone : data.revision.val = 1) : s.Explained data (.episode (some e))
  | assertion {a : AssertionRow} {r : AssertionRevisionRow} {evidence : List QuotedSource}
    (ha : a ∈ s.contents.assertions) (hid : a.id = data.memoryId)
    (hr : r ∈ s.contents.revisionsOf a.id) (hnumber : r.revision = data.revision.val)
    (hevidence : evidence.map QuotedSource.memoryId = s.evidenceRefs a.id r.revision) :
    s.Explained data (.assertion a r (if a.isRelation then s.endpoints? a.id r.revision else none)
      evidence)

/-- **What an explanation shows can be decoded**: the instants of the episode, or of the revision and of
the episodes of its evidence. -/
structure Store.Legible (s : Store) (id : UUID) (revision : Nat) : Prop where
  episode : ∀ e ∈ s.contents.episodes, e.id = id → readableTime e.occurredAt
  valid : ∀ r ∈ s.contents.revisions, r.assertionId = id → r.revision = revision → r.readable = true
  evidence : ∀ x ∈ s.contents.edges, x.childId = id → x.childRevision = revision →
    ∀ e ∈ s.contents.episodes, e.id = x.parentId → readableTime e.occurredAt

/-- The quoted episodes of a legible revision can be decoded. -/
theorem Store.Legible.quoted {v : View} {id : UUID} {revision : Nat}
    (h : v.store.Legible id revision) :
    (v.quotedSources id revision).all (fun x => decide (readableTime x.occurredAt)) = true := by
  refine List.all_eq_true.mpr fun x hx => decide_eq_true ?_
  obtain ⟨edge, hedge, hquoted⟩ := List.mem_filterMap.mp ((List.mem_insertionSort _).mp hx)
  obtain ⟨hvisible, hof⟩ := List.mem_filter.mp hedge
  obtain ⟨hid, hnumber⟩ := Bool.and_eq_true_iff.mp hof
  obtain ⟨e, he, rfl⟩ := Option.map_eq_some_iff.mp hquoted
  obtain ⟨hmem, hkey⟩ := Table.find?_eq_some_iff.mp (Option.filter_eq_some_iff.mp he).1
  exact h.evidence edge (List.mem_filter.mp hvisible).1 (of_decide_eq_true hid)
    (of_decide_eq_true hnumber) e hmem hkey

/-- The text of a full explanation. -/
theorem Store.Explained.text {s : Store} {data : Explain} {x : Explanation} (h : s.Explained data x) :
    ∃ text, x.text? = some text ∧ s.Text data.memoryId data.revision.val text := by
  cases h with
  | episode he hid hone => exact ⟨_, rfl, .episode he hid hone⟩
  | assertion ha hid hr hnumber _ => exact ⟨_, rfl, .assertion ha hid hr hnumber⟩

section Holders

variable {platform : Platform} {timeline : Timeline} {data : Explain} {n : Nat} {σ : Session}
  {scopeId : UUID} {kind : ObjectKind}

/-- The object of what is there to be explained is found. -/
theorem outcome_object_stands (hgrounded : Grounded σ.store) (h : σ.store.Stands scopeId data kind)
    {permission : Permission} (hread : Holds timeline σ scopeId .read)
    (hholds : Holds timeline σ scopeId permission) :
    Outcome platform timeline (object data.memoryId permission)
      (fun o _ σ' => σ' = σ ∧ o.scopeId = scopeId ∧ o.kind = kind) (fun _ => False) n σ := by
  cases h with
  | episode he hid hscope _ =>
    subst hscope
    rw [← hid]
    exact outcome_object_holds hgrounded
      (hgrounded.foreign.content.episode_object.exists_parent he rfl) (hgrounded.episode he).free
      hread hholds
  | assertion ha hid hscope _ _ _ =>
    subst hscope
    rw [← hid]
    exact outcome_object_holds hgrounded
      (hgrounded.foreign.content.assertion_object.exists_parent ha rfl) (hgrounded.assertion ha).free
      hread hholds

/-- **A reader of the scope is explained what is there.** -/
theorem outcome_explain_holds (hgrounded : Grounded σ.store)
    (h : σ.store.Stands scopeId data kind)
    (hlegible : σ.store.Legible data.memoryId data.revision.val)
    (hread : Holds timeline σ scopeId .read) :
    Outcome platform timeline (explain data) (fun x _ σ' => σ' = σ ∧ σ.store.Explained data x)
      (fun _ => False) n σ := by
  refine outcome_bind ((outcome_object_stands hgrounded h hread hread).mono (fun _ _ _ _ h => h)
    fun _ h => h) ?_
  rintro obj m σ' - ⟨rfl, -, hkind⟩
  have hmarked := hgrounded.foreign.marked
  -- The two kinds that are read at a revision: an episode has one row, an assertion a join of two.
  cases h with
  | @episode e he hid hscope hone =>
    rw [if_pos hkind]
    have hvisible : (σ'.view (timeline.moment m)).visible e.id = true :=
      ((hgrounded.episode he).visible hmarked rfl).mpr (hscope ▸ hread m)
    have hrow : (σ'.view (timeline.moment m)).episode? data.memoryId = some e := by
      rw [← hid]
      exact Option.filter_eq_some_iff.mpr ⟨Table.find?_eq_some_iff.mpr ⟨he, rfl⟩, hvisible⟩
    refine outcome_demand (fun _ => outcome_read ?_) fun hfail =>
      absurd hone (of_decide_eq_false hfail)
    rw [hrow]
    refine outcome_decode (fun _ => outcome_pure ⟨rfl, .episode he hid hone⟩) fun hfail => ?_
    rw [Option.toList_some, List.all_cons, List.all_nil, Bool.and_true,
      decide_eq_false_iff_not] at hfail
    exact hfail (hlegible.episode e he hid)
  | @assertion a r ha hid hscope hr hnumber hends =>
    rw [if_neg (by rw [hkind]; decide)]
    subst hscope
    have hvisible : ∀ k, (σ'.view (timeline.moment k)).visible a.id = true := fun k =>
      ((hgrounded.assertion ha).visible hmarked rfl).mpr (hread k)
    have hrow : ((σ'.view (timeline.moment m)).assertion? data.memoryId).bind (fun a =>
        ((σ'.view (timeline.moment m)).revision? data.memoryId data.revision.val).map fun r =>
          (a, r)) = some (a, r) := by
      have hassertion : (σ'.view (timeline.moment m)).assertion? data.memoryId = some a := by
        rw [← hid]
        exact Option.filter_eq_some_iff.mpr ⟨Table.find?_eq_some_iff.mpr ⟨ha, rfl⟩, hvisible m⟩
      have hrevision :
          (σ'.view (timeline.moment m)).revision? data.memoryId data.revision.val = some r := by
        refine Option.filter_eq_some_iff.mpr ⟨Table.find?_eq_some_iff.mpr
          ⟨hr.1, Prod.ext (hr.2.trans hid) hnumber⟩, ?_⟩
        rw [hr.2]
        exact hvisible m
      rw [hassertion, Option.bind_some, hrevision, Option.map_some]
    refine outcome_read (outcome_decode (fun _ => outcome_found (fun row hfound => ?_)
      fun hnone => ?_) fun hfail => ?_)
    rotate_left
    · rw [hrow] at hnone
      cases hnone
    · rw [hrow, Option.toList_some, List.all_cons, List.all_nil, Bool.and_true,
        hlegible.valid r hr.1 (hr.2.trans hid) hnumber] at hfail
      cases hfail
    obtain rfl := Option.some.inj (hrow.symm.trans hfound)
    have hquoted : ∀ k, ((σ'.view (timeline.moment k)).quotedSources data.memoryId
        data.revision.val).map QuotedSource.memoryId = σ'.store.evidenceRefs a.id r.revision := by
      intro k
      rw [← hid, ← hnumber]
      exact View.quotedSources_eq (v := σ'.view (timeline.moment k)) hgrounded ha (hread k) _
    have hexplained : ∀ k, σ'.store.Explained data (.assertion a r
        (if a.isRelation then σ'.store.endpoints? a.id r.revision else none)
        ((σ'.view (timeline.moment k)).quotedSources data.memoryId data.revision.val)) := fun k =>
      .assertion ha hid hr hnumber (hquoted k)
    dsimp only
    cases hrelation : a.isRelation with
    | false =>
      rw [if_neg Bool.false_ne_true]
      refine outcome_pure_bind (outcome_read (outcome_decode (fun _ => outcome_pure ⟨rfl, ?_⟩)
        fun hfail => absurd hlegible.quoted (ne_true_of_eq_false hfail)))
      have hread := hexplained (m + 1)
      rwa [hrelation, if_neg Bool.false_ne_true] at hread
    | true =>
      rw [if_pos rfl]
      have hends' : (σ'.view (timeline.moment (m + 1))).endpoints? data.memoryId data.revision.val
          = σ'.store.endpoints? a.id r.revision := by
        rw [← hid, ← hnumber]
        exact View.endpoints?_eq (v := σ'.view (timeline.moment (m + 1))) hgrounded ha
          (hread (m + 1)) _
      refine outcome_read (outcome_found (fun ends hfound => ?_) fun hnone => ?_)
      · refine outcome_pure_bind (outcome_read (outcome_decode (fun _ => outcome_pure ⟨rfl, ?_⟩)
          fun hfail => absurd hlegible.quoted (ne_true_of_eq_false hfail)))
        have hread := hexplained (m + 1 + 1)
        rwa [hrelation, if_pos rfl, ← hends', hfound] at hread
      · have hsome := hends hrelation
        rw [← hends', hnone] at hsome
        cases hsome

/-- **A holder of a permission gets the text of what is there.** -/
theorem outcome_source_holds (hgrounded : Grounded σ.store)
    (h : σ.store.Stands scopeId data kind)
    (hlegible : σ.store.Legible data.memoryId data.revision.val) {permission : Permission}
    (hread : Holds timeline σ scopeId .read) (hholds : Holds timeline σ scopeId permission) :
    Outcome platform timeline (Embeddings.source data permission)
      (fun x _ σ' => σ' = σ ∧ x.1.scopeId = scopeId ∧ x.1.kind = kind
        ∧ σ.store.Text data.memoryId data.revision.val x.2) (fun _ => False) n σ := by
  refine outcome_bind ((outcome_object_stands hgrounded h hread hholds).mono (fun _ _ _ _ h => h)
    fun _ h => h) ?_
  rintro obj m σ' - ⟨rfl, hscope, hkind⟩
  refine outcome_demand (fun _ => ?_) fun hfail => ?_
  swap
  · cases h <;> simp [hkind] at hfail
  refine outcome_bind ((outcome_explain_holds hgrounded h hlegible hread).mono (fun _ _ _ _ h => h)
    fun _ h => h) ?_
  rintro x k σ'' - ⟨rfl, hexplained⟩
  cases hexplained with
  | episode he hid hone => exact outcome_pure ⟨rfl, hscope, hkind, .episode he hid hone⟩
  | assertion ha hid hr hnumber _ =>
    exact outcome_pure ⟨rfl, hscope, hkind, .assertion ha hid hr hnumber⟩

/-- **The input of an embedding** is the text of what is there, with its digest. -/
theorem outcome_input_holds (hgrounded : Grounded σ.store)
    (h : σ.store.Stands scopeId data kind)
    (hlegible : σ.store.Legible data.memoryId data.revision.val)
    (hread : Holds timeline σ scopeId .read) :
    Outcome platform timeline (Embeddings.input platform data)
      (fun x _ _ => x.memoryId = data.memoryId ∧ x.revision = data.revision.val ∧ x.kind = kind
        ∧ σ.store.Text data.memoryId data.revision.val x.text
        ∧ x.inputDigest = platform.sha256 x.text) (fun _ => False) n σ := by
  refine outcome_bind ((outcome_source_holds hgrounded h hlegible hread hread).mono (fun _ _ _ _ h => h)
    fun _ h => h) ?_
  rintro ⟨obj, text⟩ m σ' - ⟨rfl, -, hkind, htext⟩
  exact outcome_pure ⟨rfl, rfl, hkind, htext, rfl⟩

end Holders

/-! ## Stored vectors -/

section Put

variable {platform : Platform} {timeline : Timeline} {n : Nat} {σ : Session}

/-- The errors of a source. -/
theorem raises_source (data : Explain) (permission : Permission) :
    Raises (Fault.among [.notFound, .relationInvalidated]) (Embeddings.source data permission) := by
  have hexplain : Raises (Fault.among [.notFound, .relationInvalidated]) (explain data) := by
    refine (raises_object _ _ (by decide)).bind fun obj => ?_
    split
    · exact (raises_demand (by decide)).bind fun _ => raises_read.bind fun _ =>
        raises_decode.bind fun _ => trivial
    refine raises_read.bind fun _ => raises_decode.bind fun _ =>
      (raises_found (by decide)).bind fun row => ?_
    obtain ⟨a, r⟩ := row
    have hrest : ∀ relation, Raises (Fault.among [.notFound, .relationInvalidated])
        (read (fun v => v.quotedSources data.memoryId data.revision.val) >>= fun evidence =>
          decode (fun x => decide (readableTime x.occurredAt)) evidence >>= fun evidence =>
            (pure (Explanation.assertion a r relation evidence) : Tx Explanation)) := fun _ =>
      raises_read.bind fun _ => raises_decode.bind fun _ => trivial
    dsimp only
    split
    · exact raises_read.bind fun _ => (raises_found (by decide)).bind fun _ => hrest _
    · exact hrest _
  refine (raises_object _ _ (by decide)).bind fun obj => (raises_demand (by decide)).bind fun _ =>
    hexplain.bind fun x => ?_
  split
  · trivial
  · trivial
  · trivial

/-- A source gives the text of the revision. -/
theorem outcome_source_text (data : Explain) (permission : Permission) :
    Outcome platform timeline (Embeddings.source data permission)
      (fun x _ σ' => σ' = σ ∧ σ.store.Text data.memoryId data.revision.val x.2) (fun _ => True)
      n σ := by
  refine outcome_bind ((outcome_object _ _).mono (fun _ _ _ _ h => h) fun _ _ => trivial) ?_
  rintro obj m σ' - ⟨rfl, -⟩
  refine outcome_demand (fun _ => ?_) fun _ => trivial
  have hexplains : Outcome platform timeline (explain data)
      (fun x _ σ'' => σ'' = σ' ∧ ∀ text, x.text? = some text →
        σ'.store.Text data.memoryId data.revision.val text) (fun _ => True) m σ' := by
    refine outcome_bind ((outcome_object _ _).mono (fun _ _ _ _ h => h) fun _ _ => trivial) ?_
    rintro obj' k σ'' - ⟨rfl, -⟩
    split
    next =>
      refine outcome_demand (fun hone => outcome_read (outcome_decode (fun _ =>
        outcome_pure ⟨rfl, fun text htext => ?_⟩) fun _ => trivial)) fun _ => trivial
      obtain ⟨e, he, rfl⟩ := Option.map_eq_some_iff.mp htext
      obtain ⟨hmem, hid⟩ := Table.find?_eq_some_iff.mp (Option.filter_eq_some_iff.mp he).1
      exact .episode hmem hid (of_decide_eq_true hone)
    next =>
      refine outcome_read (outcome_decode (fun _ => outcome_found (fun row hrow => ?_)
        fun _ => trivial) fun _ => trivial)
      obtain ⟨a, ha, hrest⟩ := Option.bind_eq_some_iff.mp hrow
      obtain ⟨r, hr, rfl⟩ := Option.map_eq_some_iff.mp hrest
      obtain ⟨haMem, haKey⟩ := Table.find?_eq_some_iff.mp (Option.filter_eq_some_iff.mp ha).1
      obtain ⟨hrMem, hrKey⟩ := Table.find?_eq_some_iff.mp (Option.filter_eq_some_iff.mp hr).1
      have haKey : a.id = data.memoryId := haKey
      obtain ⟨hrId, hrNumber⟩ := Prod.mk.inj hrKey
      have htext : ∀ text, some (a.text r) = some text →
          σ''.store.Text data.memoryId data.revision.val text := by
        rintro text heq
        cases heq
        exact .assertion haMem haKey ⟨hrMem, hrId.trans haKey.symm⟩ hrNumber
      dsimp only
      split
      · refine outcome_read (outcome_found (fun ends hends => ?_) fun _ => trivial)
        exact outcome_pure_bind (outcome_read (outcome_decode (fun _ => outcome_pure ⟨rfl, htext⟩)
          fun _ => trivial))
      · exact outcome_pure_bind (outcome_read (outcome_decode (fun _ => outcome_pure ⟨rfl, htext⟩)
          fun _ => trivial))
  refine outcome_bind hexplains ?_
  rintro x k σ'' - ⟨rfl, htext⟩
  split
  · exact outcome_pure ⟨rfl, htext _ rfl⟩
  · exact outcome_raise trivial
  · exact outcome_pure ⟨rfl, htext _ rfl⟩

/-- The errors of storing a vector, once its digest has been compared. -/
theorem raises_compared (obj : ObjectRow) (data : PutEmbedding) (key payload : String) :
    Raises (Fault.among [.notFound, .idempotencyConflict, .embeddingUnavailable, .embeddingConflict,
        .embeddingLimitExceeded])
      (once platform .embedding key payload (fun _ => Embeddings.replayed platform obj data)
        (Embeddings.store platform obj data)) := by
  refine raises_once (by decide) (by decide) (fun _ => ?_) fun kd rd => ?_
  · exact raises_read.bind fun _ => (raises_found (by decide)).bind fun _ =>
      (raises_demand (by decide)).bind fun _ => trivial
  · refine raises_read.bind fun existing => ?_
    have hsave : Raises (Fault.among [.notFound, .idempotencyConflict, .embeddingUnavailable,
        .embeddingConflict, .embeddingLimitExceeded])
        (saveResult .embedding kd rd (.embedding data.memoryId data.revision.val) >>= fun _ =>
          (pure (Receipt.embedding data.memoryId data.revision.val) : Tx Receipt)) :=
      (raises_send _).bind fun _ => trivial
    split
    · exact (raises_demand (by decide)).bind fun _ => hsave
    · exact raises_read.bind fun _ => (raises_demand (by decide)).bind fun _ =>
        (raises_send _).bind fun _ => (raises_send _).bind fun _ => hsave

/-- **Storing a vector compares its digest** with that of the text. -/
theorem outcome_put (data : PutEmbedding) (key : String) :
    Outcome platform timeline (Embeddings.put platform data key)
      (fun _ _ _ => ∃ text, σ.store.Text data.memoryId data.revision.val text
        ∧ platform.sha256 text = data.inputDigest)
      (fun fault => fault = .memory .embeddingInputMismatch →
        ∃ text, σ.store.Text data.memoryId data.revision.val text
          ∧ platform.sha256 text ≠ data.inputDigest) n σ := by
  have hother : ∀ {codes : List ErrorCode} {fault : Fault} {P : Prop},
      ErrorCode.embeddingInputMismatch ∉ codes → Fault.among codes fault →
      fault = .memory .embeddingInputMismatch → P := by
    rintro codes fault P hnot hamong rfl
    exact absurd hamong hnot
  have hsource : Outcome platform timeline
      (Embeddings.source ⟨data.memoryId, data.revision⟩ .write)
      (fun x _ σ' => σ' = σ ∧ σ.store.Text data.memoryId data.revision.val x.2)
      (Fault.among [.notFound, .relationInvalidated]) n σ :=
    (outcome_source_text _ _).faults (outcome_raises (raises_source _ _) timeline n σ)
  refine outcome_bind (hsource.mono (fun _ _ _ _ h => h) fun _ => hother (by decide)) ?_
  rintro ⟨obj, text⟩ m σ' - ⟨rfl, htext⟩
  refine outcome_demand (fun hequal => ?_) fun hdifferent _ =>
    ⟨text, htext, of_decide_eq_false hdifferent⟩
  refine (outcome_raises (raises_compared obj data key _) timeline m σ').mono ?_ fun _ =>
    hother (by decide)
  exact fun _ _ _ _ _ => ⟨text, htext, of_decide_eq_true hequal⟩

/-- **A writer is told that a digest is not that of the text.** -/
theorem outcome_put_mismatch (hgrounded : Grounded σ.store) {data : PutEmbedding} {scopeId : UUID}
    {kind : ObjectKind} (h : σ.store.Stands scopeId ⟨data.memoryId, data.revision⟩ kind)
    (hlegible : σ.store.Legible data.memoryId data.revision.val)
    (hread : Holds timeline σ scopeId .read) (hwrite : Holds timeline σ scopeId .write)
    (hdifferent : ∀ text, σ.store.Text data.memoryId data.revision.val text →
      platform.sha256 text ≠ data.inputDigest) (key : String) :
    Outcome platform timeline (Embeddings.put platform data key) (fun _ _ _ => False)
      (fun fault => fault = .memory .embeddingInputMismatch) n σ := by
  refine outcome_bind ((outcome_source_holds hgrounded h hlegible hread hwrite).mono (fun _ _ _ _ h => h)
    fun _ h => h.elim) ?_
  rintro ⟨obj, text⟩ m σ' - ⟨rfl, -, -, htext⟩
  exact outcome_demand (fun hequal => absurd (of_decide_eq_true hequal) (hdifferent text htext))
    fun _ => rfl

end Put

end PgAgmemory

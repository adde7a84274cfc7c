import PgAgmemory.Guarantees.Quotes
import PgAgmemory.Recalling.Vectors

/-! # Reading operations agree

An item that a recall shows is the same item for an explanation, for the history of its assertion and for
the input of an embedding, and the digest of that input is the one that a vector is accepted with, as long
as the item lives (`Orderly.readsAgree`). In an orderly run these readings succeed, provided that the
client can decode the instants that are stored. A purge whose caller's membership expires between
two of its statements breaks this: it leaves an assertion that is recalled and has no history. -/

namespace PgAgmemory

open Keyed (HasKey Table key)
open Interactive.Program (Raises)
open MemoryService

/-! ## Agreement with an item -/

/-- **An explanation that agrees with an item.** -/
inductive Explanation.Agrees (item : MemoryItem) : Explanation → Prop where
  | episode {e : EpisodeRow} (hid : e.id = item.memoryId) (hone : item.revision = 1)
    (hcontent : e.content.str = item.content) (hoccurred : some e.occurredAt = item.occurredAt)
    (hvalid : none = item.validFrom ∧ none = item.validTo) (hevidence : [] = item.source)
    (hrelation : none = item.relation) : Agrees item (.episode (some e))
  | assertion {a : AssertionRow} {r : AssertionRevisionRow} {relation : Option RelationEndpoints}
    {evidence : List QuotedSource} (hid : a.id = item.memoryId)
    (hrevision : r.assertionId = item.memoryId ∧ r.revision = item.revision)
    (hcontent : a.text r = item.content)
    (hvalid : r.validTime.lower = item.validFrom ∧ r.validTime.upper = item.validTo)
    (hrecorded : r.systemFrom = item.recordedAt)
    (hevidence : evidence.map QuotedSource.memoryId = item.source)
    (hrelation : relation = item.relation) : Agrees item (.assertion a r relation evidence)

/-- **An entry of a history that agrees with an item.** -/
structure AssertionRevisionMetadata.Agrees (m : AssertionRevisionMetadata) (item : MemoryItem) :
    Prop where
  revision : m.revision = item.revision
  valid : m.validFrom = item.validFrom ∧ m.validTo = item.validTo
  recordedAt : m.recordedAt = item.recordedAt
  evidence : m.evidenceRefs = item.source
  relation : m.relation = item.relation

/-- **The input of an embedding that agrees with an item.** -/
structure Embeddings.EmbeddingInput.Agrees (platform : Platform) (x : Embeddings.EmbeddingInput)
    (item : MemoryItem) : Prop where
  identity : x.memoryId = item.memoryId ∧ x.revision = item.revision
  text : x.text = item.content
  digest : x.inputDigest = platform.sha256 item.content

/-- **The other readings of an item**, for a principal who can read its scope. -/
structure ItemAgrees (platform : Platform) (s : Store) (principal : UUID) (scope : UUID)
    (item : MemoryItem) : Prop where
  /-- Its explanation succeeds and agrees. -/
  explained : ∀ timeline (data : Explain), data.memoryId = item.memoryId →
    data.revision.val = item.revision → Holds timeline (.start principal s) scope .read →
      ∃ x, ask platform principal timeline (explain data) s = .ok x ∧ x.Agrees item
  /-- The history of its assertion succeeds, and agrees where it shows the revision. -/
  history : item.kind = .assertion → ∀ timeline (data : AssertionHistory),
    data.memoryId = item.memoryId → Holds timeline (.start principal s) scope .read →
      ∃ page, ask platform principal timeline (assertionHistory data) s = .ok page
        ∧ (∃ value, item.content = page.subject.str ++ " / " ++ page.predicate.str ++ ": " ++ value)
        ∧ (item.revision ∈ data.shown (data.highest page.currentRevision) →
          ∃ m ∈ page.revisions, m.Agrees item)
  /-- The input of its embedding succeeds and agrees. -/
  input : ∀ timeline (data : Explain), data.memoryId = item.memoryId →
    data.revision.val = item.revision → Holds timeline (.start principal s) scope .read →
      ∃ x, ask platform principal timeline (Embeddings.input platform data) s = .ok x
        ∧ x.Agrees platform item

/-- **The digest of an item** in all later stores: a vector is stored only with the digest of its content,
and refused for its digest only with another one. As long as the item lives and can be decoded, a writer
of its scope is told of a wrong digest, and a vector with the right one is accepted where there is room. -/
structure DigestStays (platform : Platform) (s : Store) (item : MemoryItem) : Prop where
  stored : ∀ events (c : Call) data key r, c.request = .putEmbedding data key →
    data.memoryId = item.memoryId → data.revision.val = item.revision →
      (c.exec platform (runEvents platform events s)).1 = .ok r →
        data.inputDigest = platform.sha256 item.content
  refused : ∀ events (c : Call) data key, c.request = .putEmbedding data key →
    data.memoryId = item.memoryId → data.revision.val = item.revision →
      (c.exec platform (runEvents platform events s)).1 = .error (.memory .embeddingInputMismatch) →
        data.inputDigest ≠ platform.sha256 item.content
  told : ∀ events, LastingRun platform events s → ∀ (c : Call) data key scope,
    c.request = .putEmbedding data key → data.memoryId = item.memoryId →
      data.revision.val = item.revision →
      (runEvents platform events s).Text item.memoryId item.revision item.content →
      (runEvents platform events s).Legible item.memoryId item.revision →
      (∃ o ∈ s.anchor.objects, o.id = item.memoryId ∧ o.scopeId = scope) →
      ((runEvents platform events s).access.principals.find? c.principal).isSome = true →
      Holds c.timeline (.start c.principal (runEvents platform events s)) scope .read →
      Holds c.timeline (.start c.principal (runEvents platform events s)) scope .write →
        data.inputDigest ≠ platform.sha256 item.content →
          (c.exec platform (runEvents platform events s)).1
            = .error (.memory .embeddingInputMismatch)
  accepted : ∀ events, LastingRun platform events s → ∀ (c : Call) data key scope kind,
    c.request = .putEmbedding data key → data.memoryId = item.memoryId →
      data.revision.val = item.revision →
      (runEvents platform events s).Text item.memoryId item.revision item.content →
      (runEvents platform events s).Legible item.memoryId item.revision →
      (∃ o ∈ s.anchor.objects, o.id = item.memoryId ∧ o.scopeId = scope ∧ o.kind = kind) →
      ((runEvents platform events s).access.principals.find? c.principal).isSome = true →
      Holds c.timeline (.start c.principal (runEvents platform events s)) scope .read →
      Holds c.timeline (.start c.principal (runEvents platform events s)) scope .write →
      (∀ row, ¬ (Session.start c.principal (runEvents platform events s)).Stored platform .embedding
        key row) → data.Fits platform (runEvents platform events s) kind →
        data.inputDigest = platform.sha256 item.content →
          (c.exec platform (runEvents platform events s)).1
            = .ok (.receipt (.embedding data.memoryId data.revision.val))

/-- **Reading operations agree.** -/
structure ReadsAgree (platform : Platform) (s : Store) : Prop where
  /-- An item is read alike by whoever recalls it and keeps the permission to read its scope. -/
  items : ∀ (c : Call) data result, c.request = .«recall» data →
    (c.exec platform s).1 = .ok (.recalled result) → ∀ item ∈ result.items,
      ∃ o ∈ s.anchor.objects, o.id = item.memoryId
        ∧ (Holds c.timeline (.start c.principal s) o.scopeId .read →
          ItemAgrees platform s c.principal o.scopeId item)
        ∧ s.Text item.memoryId item.revision item.content ∧ DigestStays platform s item
  /-- In a history a revision is known until the next one is recorded, and the last one still is. -/
  known : ∀ a ∈ s.contents.assertions, ∀ principal timeline (data : AssertionHistory) page,
    data.memoryId = a.id → Holds timeline (.start principal s) a.scopeId .read →
      ask platform principal timeline (assertionHistory data) s = .ok page →
        ∀ m ∈ page.revisions, (m.knownUntil = none ↔ m.revision = page.currentRevision)
          ∧ ∀ timeline' (data' : AssertionHistory) page', data'.memoryId = a.id →
            Holds timeline' (.start principal s) a.scopeId .read →
            ask platform principal timeline' (assertionHistory data') s = .ok page' →
              ∀ m' ∈ page'.revisions, m'.revision = m.revision + 1 →
                m.knownUntil = some m'.recordedAt

/-! ## Orderly stores -/

section Orderly

variable {platform : Platform} {s : Store} {a : AssertionRow} {r : AssertionRevisionRow}

/-- The sources of a revision are the episodes of its evidence. -/
theorem Store.length_evidenceRefs (s : Store) (id : UUID) (revision : Nat) :
    (s.evidenceRefs id revision).length = (s.contents.evidenceOf (id, revision)).length := by
  rw [Store.evidenceRefs, List.length_insertionSort, List.length_map, Contents.evidenceOf,
    List.length_map]
  congr 2
  funext e
  rw [Bool.eq_iff_iff, Bool.and_eq_true, decide_eq_true_eq, decide_eq_true_eq, decide_eq_true_eq,
    Prod.mk.injEq]

/-- **Every revision of an orderly store has its evidence and its endpoints.** -/
theorem Orderly.presentable (h : Orderly platform s) (ha : a ∈ s.contents.assertions)
    (hr : r ∈ s.contents.revisionsOf a.id) : Presentable s a r.revision := by
  constructor
  · rw [Store.length_evidenceRefs]
    exact (h.claimsBacked.revision a ha r hr.1 hr.2).bounds
  · intro hrelation
    obtain ⟨⟨l, hl, hlid⟩, htargets⟩ := (h.intact a.id).relation a ha rfl hrelation
    obtain ⟨t, ht, hkey⟩ := htargets r hr.1 hr.2
    have hkey : key t = (a.id, r.revision) := hkey.trans (Prod.ext hr.2 rfl)
    refine Option.isSome_iff_exists.mpr ⟨⟨l.sourceId, t.targetId⟩, ?_⟩
    exact Store.endpoints?_eq_some.mpr ⟨⟨l, hl, hlid, rfl⟩, t, ht, hkey, rfl⟩

/-- **What has a text can be explained** in an orderly store. -/
theorem Orderly.stands (h : Orderly platform s) (data : Explain) {text : String}
    (htext : s.Text data.memoryId data.revision.val text) {o : ObjectRow} (ho : o ∈ s.anchor.objects)
    (hoid : o.id = data.memoryId) : s.Stands o.scopeId data o.kind := by
  have hkeys := h.reachable.sound.integrity.foreign
  cases htext with
  | @episode e he hid hone =>
    obtain ⟨o', ho', hkey⟩ := hkeys.content.episode_object.exists_parent he rfl
    obtain ⟨hid', hscope, hkind⟩ : _ ∧ _ ∧ _ := by simpa only [Prod.mk.injEq] using hkey
    obtain rfl : o' = o := Table.eq_of_key_eq ho' ho (hid'.trans (hid.trans hoid.symm))
    rw [hkind]
    exact .episode he hid hscope.symm hone
  | @assertion a r ha hid hr hnumber =>
    obtain ⟨o', ho', hkey⟩ := hkeys.content.assertion_object.exists_parent ha rfl
    obtain ⟨hid', hscope, hkind⟩ : _ ∧ _ ∧ _ := by simpa only [Prod.mk.injEq] using hkey
    obtain rfl : o' = o := Table.eq_of_key_eq ho' ho (hid'.trans (hid.trans hoid.symm))
    rw [hkind]
    exact .assertion ha hid hscope.symm hr hnumber (h.presentable ha hr).endpoints

/-- A store names one text for an id and a number. -/
theorem Reachable.text_eq (hs : Reachable platform s) {id : UUID} {revision : Nat}
    {text text' : String} (htext : s.Text id revision text) (htext' : s.Text id revision text') :
    text' = text :=
  (Worded.refl s).text_eq hs.sound.integrity.foreign hs.sound.integrity.foreign
    (fun _ ha => hs.historied ha) htext htext'

/-- **A full explanation of a recalled revision agrees with its item.** -/
theorem Reachable.explained_agrees (hs : Reachable platform s) (ha : a ∈ s.contents.assertions)
    (hr : r ∈ s.contents.revisionsOf a.id) {item : MemoryItem} (htells : s.Says a r item)
    (hsource : item.source = s.evidenceRefs a.id r.revision) {data : Explain}
    (hid : data.memoryId = item.memoryId) (hnumber : data.revision.val = item.revision)
    {x : Explanation} (hx : s.Explained data x) : x.Agrees item := by
  cases hx with
  | @episode e he heid _ =>
    exact absurd (heid.trans (hid.trans htells.identity.1))
      (View.episode_ne_assertion hs.sound.integrity.foreign he ha)
  | @assertion a' r' evidence ha' haid hr' hrnumber hevidence =>
    obtain rfl : a' = a := Table.eq_of_key_eq ha' ha (haid.trans (hid.trans htells.identity.1))
    have hrevision : r'.revision = r.revision :=
      hrnumber.trans (hnumber.trans htells.identity.2)
    obtain rfl : r' = r :=
      Table.eq_of_key_eq hr'.1 hr.1 (Prod.ext (hr'.2.trans hr.2.symm) hrevision)
    refine .assertion htells.identity.1.symm ⟨hr.2.trans htells.identity.1.symm,
      htells.identity.2.symm⟩ htells.content.symm ⟨htells.validFrom.symm, htells.validTo.symm⟩
      htells.recordedAt.symm (hevidence.trans hsource.symm) ?_
    rw [hs.endpoints?_eq ha, htells.relation]

/-- **An item of an episode.** -/
structure EpisodeRow.Shown (e : EpisodeRow) (item : MemoryItem) : Prop where
  identity : e.id = item.memoryId ∧ item.revision = 1
  content : item.content = e.content.str
  occurredAt : item.occurredAt = some e.occurredAt
  valid : item.validFrom = none ∧ item.validTo = none
  source : item.source = []
  relation : item.relation = none

/-- A full explanation of a recalled episode agrees with its item. -/
theorem Reachable.episode_agrees (hs : Reachable platform s) {e : EpisodeRow}
    (he : e ∈ s.contents.episodes) {item : MemoryItem} (hshown : e.Shown item) {data : Explain}
    (hid : data.memoryId = item.memoryId) {x : Explanation} (hx : s.Explained data x) :
    x.Agrees item := by
  obtain ⟨⟨heid, hone⟩, hcontent, hoccurred, ⟨hfrom, hto⟩, hsource, hrelation⟩ := hshown
  cases hx with
  | @episode e' he' heid' _ =>
    obtain rfl : e' = e := Table.eq_of_key_eq he' he (heid'.trans (hid.trans heid.symm))
    exact .episode heid hone hcontent.symm hoccurred.symm ⟨hfrom.symm, hto.symm⟩ hsource.symm
      hrelation.symm
  | @assertion a r evidence ha haid _ _ _ =>
    exact absurd (heid.trans (hid.symm.trans haid.symm))
      (View.episode_ne_assertion hs.sound.integrity.foreign he ha)

/-- **The explanation and the input of what has a text.** -/
theorem Orderly.asks (h : Orderly platform s) {principal scope : UUID} {timeline : Timeline}
    (data : Explain) {text : String} (htext : s.Text data.memoryId data.revision.val text)
    (hlegible : s.Legible data.memoryId data.revision.val)
    (hobject : ∃ o ∈ s.anchor.objects, o.id = data.memoryId ∧ o.scopeId = scope)
    (hknown : (s.access.principals.find? principal).isSome = true)
    (hread : Holds timeline (.start principal s) scope .read) :
    (∃ x, ask platform principal timeline (explain data) s = .ok x ∧ s.Explained data x)
      ∧ ∃ x, ask platform principal timeline (Embeddings.input platform data) s = .ok x
        ∧ (x.memoryId = data.memoryId ∧ x.revision = data.revision.val) ∧ x.text = text
        ∧ x.inputDigest = platform.sha256 text := by
  have hs := h.reachable.sound
  obtain ⟨o, ho, hoid, rfl⟩ := hobject
  have hstands := h.stands data htext ho hoid
  constructor
  · rcases ask_cases (readOnly_explain data) hs.integrity.deferred hknown
      ((outcome_explain_holds (n := 1) hs.grounded hstands hlegible hread).mono (fun _ _ _ _ h => h.2)
        fun _ h => h) with ⟨x, hx, hexplained⟩ | ⟨fault, -, hfalse⟩
    · exact ⟨x, hx, hexplained⟩
    · exact hfalse.elim
  · rcases ask_cases (readOnly_input platform data) hs.integrity.deferred hknown
      (outcome_input_holds (n := 1) hs.grounded hstands hlegible hread) with
      ⟨x, hx, hid, hrevision, -, hinput, hdigest⟩ | ⟨fault, -, hfalse⟩
    · obtain rfl := h.reachable.text_eq htext hinput
      exact ⟨x, hx, ⟨hid, hrevision⟩, rfl, hdigest⟩
    · exact hfalse.elim

/-- **The history of an assertion** of an orderly store succeeds. -/
theorem Orderly.asks_history (h : Orderly platform s)
    (hreadable : ∀ r ∈ s.contents.revisions, r.readable = true) (ha : a ∈ s.contents.assertions)
    {principal : UUID} {timeline : Timeline} (data : AssertionHistory) (hid : data.memoryId = a.id)
    (hknown : (s.access.principals.find? principal).isSome = true)
    (hread : Holds timeline (.start principal s) a.scopeId .read) :
    ∃ page, ask platform principal timeline (assertionHistory data) s = .ok page
      ∧ HistoryPage s a data page := by
  have hhistory := h.reachable.historied ha
  have hanswers : HistoryAnswers platform s a principal timeline data :=
    hhistory.answers h.reachable.sound ha hid hknown hread
  obtain ⟨page, hpage⟩ := hanswers.page_iff.mpr ⟨fun r hr _ => hreadable r hr.1, fun k hk => by
    obtain ⟨hpositive, hle⟩ := mem_countdown.mp hk
    obtain ⟨r, hr, rfl⟩ := (hhistory.chain.numbered k).mpr
      ⟨Nat.one_le_of_lt hpositive, hle.trans (data.highest_le _)⟩
    exact h.presentable ha hr⟩
  exact ⟨page, hpage, (hanswers.page page hpage).1⟩

/-- The entry of a page for a revision that it shows. -/
theorem HistoryPage.entry (hhistory : s.contents.Historied a) (hr : r ∈ s.contents.revisionsOf a.id)
    {data : AssertionHistory} {page : AssertionHistoryPage} (hpage : HistoryPage s a data page)
    (hshown : r.revision ∈ data.shown (data.highest a.currentRevision)) :
    s.metadata a r ∈ page.revisions := by
  obtain ⟨i, hi, hget⟩ := List.getElem_of_mem hshown
  obtain ⟨r', hr', hnumber, hm⟩ := (List.forall₂_iff_get.mp hpage.revisions).2 i hi
    (hpage.revisions.length_eq ▸ hi)
  have hsame : r'.revision = r.revision := by
    rw [hnumber]
    exact hget
  obtain rfl := hhistory.chain.unique r' hr' r hr hsame
  rw [← hm]
  exact List.get_mem _ _

end Orderly

/-! ## Digests -/

section Digests

variable {platform : Platform} {s : Store} {c : Call} {data : PutEmbedding} {key : String}

/-- **Putting a vector compares its digest** with that of the text that the store has. -/
theorem Call.compares (hrequest : c.request = .putEmbedding data key) :
    Outcome platform c.timeline (c.request.program platform)
      (fun _ _ _ => ∃ text, s.Text data.memoryId data.revision.val text
        ∧ platform.sha256 text = data.inputDigest)
      (fun fault => fault = .memory .embeddingInputMismatch →
        ∃ text, s.Text data.memoryId data.revision.val text
          ∧ platform.sha256 text ≠ data.inputDigest) 0 (.start c.principal s) := by
  have hbody : c.request.program platform = (MemoryService.bindIdentity >>= fun _ =>
      respond .receipt (Embeddings.put platform data key)) := by
    rw [hrequest]
    rfl
  have hidentity : Raises (Fault.among [.unauthenticated]) MemoryService.bindIdentity :=
    raises_read.bind fun _ => raises_demand (by decide)
  rw [hbody]
  refine outcome_bind ((outcome_bindIdentity.faults (outcome_raises hidentity c.timeline 0 _)).mono
    (fun _ _ _ _ h => h) ?_) ?_
  · rintro fault hamong rfl
    exact absurd (List.mem_singleton.mp hamong) (by decide)
  rintro - m σ - ⟨rfl, rfl⟩
  refine outcome_bind ((outcome_put data key).mono (fun _ _ _ _ h => h) fun _ h => h) ?_
  rintro receipt m σ - hcompared
  exact outcome_pure hcompared

/-- **A known writer is told of a wrong digest.** -/
theorem Call.told (h : Orderly platform s) (hrequest : c.request = .putEmbedding data key)
    {text : String} (htext : s.Text data.memoryId data.revision.val text)
    (hlegible : s.Legible data.memoryId data.revision.val) {scope : UUID}
    (hobject : ∃ o ∈ s.anchor.objects, o.id = data.memoryId ∧ o.scopeId = scope)
    (hknown : (s.access.principals.find? c.principal).isSome = true)
    (hread : Holds c.timeline (.start c.principal s) scope .read)
    (hwrite : Holds c.timeline (.start c.principal s) scope .write)
    (hdifferent : data.inputDigest ≠ platform.sha256 text) :
    (c.exec platform s).1 = .error (.memory .embeddingInputMismatch) := by
  obtain ⟨o, ho, hoid, rfl⟩ := hobject
  have hstands := h.stands ⟨data.memoryId, data.revision⟩ htext ho hoid
  have hbody : c.request.program platform = (MemoryService.bindIdentity >>= fun _ =>
      respond .receipt (Embeddings.put platform data key)) := by
    rw [hrequest]
    rfl
  refine Call.exec_eq_error ?_
  rw [hbody]
  refine outcome_bind ((outcome_bindIdentity_known hknown).mono (fun _ _ _ _ h => h)
    fun _ h => h.elim) ?_
  rintro - m σ - ⟨rfl, rfl⟩
  refine outcome_bind (P := fun _ _ _ => False) (outcome_put_mismatch
    h.reachable.sound.grounded hstands hlegible hread hwrite (fun text' htext' heq => hdifferent ?_) key) ?_
  · rw [← heq, h.reachable.text_eq htext htext']
  · exact fun _ _ _ _ hfalse => hfalse.elim

/-- **The digest of a text stays**, as the text does. -/
theorem Orderly.digestStays (h : Orderly platform s) {item : MemoryItem}
    (htext : s.Text item.memoryId item.revision item.content) : DigestStays platform s item := by
  have hs := h.reachable.sound
  have hlater : ∀ events text,
      (runEvents platform events s).Text item.memoryId item.revision text → text = item.content :=
    fun events _ htext' => (hs.worded_run events).text_eq hs.integrity.foreign
      (hs.run events).integrity.foreign (fun _ ha => h.reachable.historied ha) htext htext'
  constructor
  · intro events c data key r hrequest hid hrevision hanswer
    obtain ⟨_, _, ⟨text, htext', hdigest⟩, -⟩ := Call.exec_returns hanswer (Call.compares hrequest)
    rw [hid, hrevision] at htext'
    rw [← hdigest, hlater events text htext']
  · intro events c data key hrequest hid hrevision hanswer heq
    obtain ⟨text, htext', hdigest⟩ := Call.exec_fails hanswer (Call.compares hrequest) rfl
    rw [hid, hrevision] at htext'
    rw [hlater events text htext'] at hdigest
    exact hdigest heq.symm
  · intro events hlasting c data key scope hrequest hid hrevision hlives hlegible hobject hknown
      hread hwrite hdifferent
    obtain ⟨o, ho, hoid, hscope⟩ := hobject
    exact Call.told (h.run hlasting) hrequest (hid ▸ hrevision ▸ hlives)
      (hid ▸ hrevision ▸ hlegible)
      ⟨o, (hs.steady_run events).objects o ho, hoid.trans hid.symm, hscope⟩ hknown hread hwrite
      hdifferent
  · rintro events hlasting c data key scope kind hrequest hid hrevision hlives hlegible
      ⟨o, ho, hoid, rfl, rfl⟩ hknown hread hwrite hkey hfits hdigest
    have hlater' := h.run hlasting
    have hstands := hlater'.stands ⟨data.memoryId, data.revision⟩ (hid ▸ hrevision ▸ hlives)
      ((hs.steady_run events).objects o ho) (hoid.trans hid.symm)
    obtain ⟨s', hok⟩ := attempt_put hlater'.reachable.sound hstands (hid ▸ hrevision ▸ hlegible)
      hknown hread hwrite (fun text htext => by
        rw [hid, hrevision] at htext
        rw [hlater events text htext, hdigest]) hfits hkey
    rw [Call.exec, hrequest, transact, hok]

end Digests

/-! ## The guarantee -/

/-- **Instants that the client can decode**: the valid times of revisions and when episodes occurred. -/
structure Store.Decodable (s : Store) : Prop where
  valid : ∀ r ∈ s.contents.revisions, r.readable = true
  occurred : ∀ e ∈ s.contents.episodes, readableTime e.occurredAt

/-- What an explanation shows can then be decoded. -/
theorem Store.Decodable.legible {s : Store} (h : s.Decodable) (id : UUID) (revision : Nat) :
    s.Legible id revision where
  episode e he _ := h.occurred e he
  valid r hr _ _ := h.valid r hr
  evidence _ _ _ _ e he _ := h.occurred e he

/-- The other readings of a recalled item. -/
theorem Orderly.itemAgrees {platform : Platform} {s : Store} (h : Orderly platform s)
    (hdecodable : s.Decodable) {c : Call} {data : Recall}
    {result : RecallResult} (hrequest : c.request = .«recall» data)
    (hanswer : (c.exec platform s).1 = .ok (.recalled result)) {item : MemoryItem}
    (hitem : item ∈ result.items) : ∃ o ∈ s.anchor.objects, o.id = item.memoryId
      ∧ (Holds c.timeline (.start c.principal s) o.scopeId .read →
        ItemAgrees platform s c.principal o.scopeId item)
      ∧ s.Text item.memoryId item.revision item.content := by
  have hs := h.reachable
  have hknown := Call.known hanswer
  -- An item is an episode at its one revision, or a revision of an assertion.
  rcases (Call.reports hrequest hanswer item hitem).cases hs.sound.grounded with
    ⟨hkind, hrelation, e, he, hid, hone, hcontent, hoccurred, hfrom, hto, hsource⟩ | ⟨a, ha, r, hr, -, htells, -, -, -, hsources⟩
  · obtain ⟨o, ho, hkey⟩ := hs.sound.integrity.foreign.content.episode_object.exists_parent he rfl
    have hoid : o.id = item.memoryId := (Prod.mk.inj hkey).1.trans hid
    have htext : s.Text item.memoryId item.revision item.content := hcontent ▸ .episode he hid hone
    refine ⟨o, ho, hoid, fun _ => ?_, htext⟩
    constructor
    · intro timeline data hdata hrevision hread
      obtain ⟨⟨x, hx, hexplained⟩, -⟩ := h.asks data (hdata ▸ hrevision ▸ htext)
        (hdecodable.legible _ _) ⟨o, ho, hoid.trans hdata.symm, rfl⟩ hknown hread
      exact ⟨x, hx, hs.episode_agrees he ⟨⟨hid, hone⟩, hcontent, hoccurred, ⟨hfrom, hto⟩, hsource,
        hrelation⟩ hdata hexplained⟩
    · intro hassertion
      rw [hkind] at hassertion
      cases hassertion
    · intro timeline data hdata hrevision hread
      obtain ⟨-, x, hx, ⟨hxid, hxrevision⟩, hinput, hdigest⟩ := h.asks data
        (hdata ▸ hrevision ▸ htext) (hdecodable.legible _ _) ⟨o, ho, hoid.trans hdata.symm, rfl⟩ hknown hread
      exact ⟨x, hx, ⟨hxid.trans hdata, hxrevision.trans hrevision⟩, hinput, hdigest⟩
  · obtain ⟨o, ho, hkey⟩ := hs.sound.integrity.foreign.content.assertion_object.exists_parent ha rfl
    have hoid : o.id = item.memoryId := (Prod.mk.inj hkey).1.trans htells.identity.1.symm
    have hscope : o.scopeId = a.scopeId := (Prod.mk.inj (Prod.mk.inj hkey).2).1
    have htext : s.Text item.memoryId item.revision item.content := by
      rw [htells.content]
      exact .assertion ha htells.identity.1.symm hr htells.identity.2.symm
    refine ⟨o, ho, hoid, fun hholds => ?_, htext⟩
    have hsource := hsources (hscope ▸ hholds)
    constructor
    · intro timeline data hdata hrevision hread
      obtain ⟨⟨x, hx, hexplained⟩, -⟩ := h.asks data (hdata ▸ hrevision ▸ htext)
        (hdecodable.legible _ _) ⟨o, ho, hoid.trans hdata.symm, rfl⟩ hknown hread
      exact ⟨x, hx, hs.explained_agrees ha hr htells hsource hdata hrevision hexplained⟩
    · intro _ timeline data hdata hread
      obtain ⟨page, hanswered, hpage⟩ := h.asks_history hdecodable.valid ha data
        (hdata.trans htells.identity.1) hknown (hscope ▸ hread)
      obtain ⟨-, -, hsubject, hpredicate, hcurrent⟩ := hpage.identity
      refine ⟨page, hanswered, ⟨r.value.str, ?_⟩, fun hshown => ?_⟩
      · rw [htells.content, hsubject, hpredicate]
        rfl
      · rw [hcurrent, htells.identity.2] at hshown
        refine ⟨_, hpage.entry (hs.historied ha) hr hshown, htells.identity.2.symm,
          ⟨htells.validFrom.symm, htells.validTo.symm⟩, htells.recordedAt.symm, hsource.symm, ?_⟩
        exact (hs.endpoints?_eq ha _).trans htells.relation.symm
    · intro timeline data hdata hrevision hread
      obtain ⟨-, x, hx, ⟨hxid, hxrevision⟩, hinput, hdigest⟩ := h.asks data
        (hdata ▸ hrevision ▸ htext) (hdecodable.legible _ _) ⟨o, ho, hoid.trans hdata.symm, rfl⟩ hknown hread
      exact ⟨x, hx, ⟨hxid.trans hdata, hxrevision.trans hrevision⟩, hinput, hdigest⟩

/-- **Reading operations agree** in an orderly run, where the client can decode the stored instants. -/
theorem Orderly.readsAgree {platform : Platform} {s : Store} (h : Orderly platform s)
    (hdecodable : s.Decodable) : ReadsAgree platform s := by
  have hs := h.reachable
  constructor
  · intro c data result hrequest hanswer item hitem
    obtain ⟨o, ho, hid, hagrees, htext⟩ := h.itemAgrees hdecodable hrequest hanswer hitem
    exact ⟨o, ho, hid, hagrees, htext, h.digestStays htext⟩
  · intro a ha principal timeline data page hid hread hpage m hm
    have hhistory := hs.historied ha
    -- an answered page of a reader shows revisions of the store
    have hshown : ∀ timeline (data : AssertionHistory) page, data.memoryId = a.id →
        Holds timeline (.start principal s) a.scopeId .read →
        ask platform principal timeline (assertionHistory data) s = .ok page →
          page.currentRevision = a.currentRevision ∧ ∀ m ∈ page.revisions,
            ∃ r ∈ s.contents.revisionsOf a.id, m = s.metadata a r := by
      intro timeline data page hid hread hpage
      obtain ⟨hpage, -, -⟩ := ask_returns hpage
        (outcome_assertionHistory hs.sound.grounded ha hhistory hread hid)
      refine ⟨hpage.identity.2.2.2.2, fun m hm => ?_⟩
      obtain ⟨k, -, r, hr, -, hmr⟩ := exists_of_forall₂ hpage.revisions hm
      exact ⟨r, hr, hmr⟩
    obtain ⟨hcurrent, hrevisions⟩ := hshown timeline data page hid hread hpage
    obtain ⟨r, hr, rfl⟩ := hrevisions m hm
    refine ⟨?_, ?_⟩
    · rw [hcurrent]
      exact hhistory.chain.last r hr
    · intro timeline' data' page' hid' hread' hpage' m' hm' hnext
      obtain ⟨r', hr', rfl⟩ := (hshown timeline' data' page' hid' hread' hpage').2 m' hm'
      exact hhistory.chain.next r hr r' hr' hnext

/-! ## A small tenant -/

/-- The readings of the assertion of the small tenant agree. -/
theorem readsAgree_remembered : ReadsAgree .plain .remembered
    ∧ (Store.remembered.contents.revisions.rows.map fun r => (r.assertionId, r.revision))
      = [(309, 1)] := by
  have hvalid : Store.remembered.contents.revisions.rows.all AssertionRevisionRow.readable = true := by
    decide +kernel
  have hoccurred : Store.remembered.contents.episodes.rows.all
      (fun e => decide (readableTime e.occurredAt)) = true := by
    decide +kernel
  exact ⟨orderly_remembered.readsAgree ⟨List.all_eq_true.mp hvalid, fun e he =>
    of_decide_eq_true (List.all_eq_true.mp hoccurred e he)⟩, by decide +kernel⟩

/-- A recall of the assertions of a scope with a text. -/
def Recall.assertions : Recall where
  query := { str := "x x" }
  scopeIds := [2]
  purpose := .brief
  tokenBudget := 500
  filters := some { kind := some .assertion }
  vectors := by
    refine ⟨by decide, ?_, ?_⟩ <;> exact fun h => by cases h

/-- It requires nothing. -/
theorem requiredCandidates_assertions (q : CandidateQuery) :
    requiredCandidates .assertions q = pure [] := rfl

/-- What a recall shows, if it is answered. -/
def recalledItems : Except Fault Response → List (UUID × Nat × ItemKind)
  | .ok (.recalled r) => r.items.map fun item => (item.memoryId, item.revision, item.kind)
  | _ => []

/-- The assertion of the small tenant is recalled after its edges were erased. -/
theorem recalledItems_stripped :
    recalledItems (Call.exec .plain ⟨1, .ticking 800 900, .«recall» .assertions⟩ .stripped).1
      = [(309, 1, .assertion)] := by
  unfold Call.exec Request.program Request.body MemoryService.«recall»
  -- packing is replaced by the greedy selection, which is evaluated faster
  simp only [requiredCandidates_assertions, Interactive.Program.pure_bind, List.length_nil,
    buildContext_unrequired]
  decide +kernel

/-- **A recalled assertion without a history.** -/
theorem not_readsAgree_stripped : ¬ ∀ s, Reachable .plain s → ReadsAgree .plain s := by
  intro hall
  have hreach : Reachable .plain .stripped := (Reachable.provisioned _).run _
  have hrecalled := recalledItems_stripped
  cases hanswer : (Call.exec .plain ⟨1, .ticking 800 900, .«recall» .assertions⟩ .stripped).1 with
  | error fault =>
    rw [hanswer] at hrecalled
    cases hrecalled
  | ok response =>
    rw [hanswer] at hrecalled
    cases response with
    | recalled result =>
      obtain ⟨item, hitem, heq⟩ := List.mem_map.mp
        (hrecalled ▸ List.mem_singleton_self ((309 : UUID), 1, ItemKind.assertion))
      obtain ⟨hid, -, hkind⟩ : _ ∧ _ ∧ _ := by simpa only [Prod.mk.injEq] using heq
      obtain ⟨o, ho, hoid, hagrees, -⟩ := (hall _ hreach).items _ _ result rfl hanswer item hitem
      have hobjects : (Store.stripped.anchor.objects.rows.filter fun o => o.id = 309).map
          ObjectRow.scopeId = [2] := by
        decide +kernel
      have hmem : o.scopeId ∈ (Store.stripped.anchor.objects.rows.filter fun o => o.id = 309).map
          ObjectRow.scopeId := List.mem_map_of_mem
        (List.mem_filter.mpr ⟨ho, decide_eq_true (hoid.trans hid)⟩)
      rw [hobjects, List.mem_singleton] at hmem
      have hread : Holds (.ticking 800 900) (.start 1 .stripped) 2 .read :=
        holds_of_lasting (by decide +kernel)
      obtain ⟨page, hpage, -⟩ := (hagrees (hmem ▸ hread)).history hkind (.ticking 800 900) .brief
        hid.symm (hmem ▸ hread)
      have hfails : ask .plain 1 (.ticking 800 900) (assertionHistory .brief) .stripped
          = .error (.memory .assertionInvalidated) := faultOf?_eq_some.mp (by decide +kernel)
      exact absurd (hpage.symm.trans hfails) (by simp)
    | _ => cases hrecalled

end PgAgmemory

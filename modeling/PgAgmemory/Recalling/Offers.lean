import PgAgmemory.History.Loads
import PgAgmemory.History.Revisions
import PgAgmemory.Recalling.Candidates

/-! # The rows that a recall asks for

Which candidates a query has, in the terms of the store: the live episodes and revisions of searched
scopes that the principal reads, that pass the filters, and that were known, and happened or held, at the
instants of the query (`View.mem_candidates_iff`). -/

namespace PgAgmemory

open Keyed (HasKey Table key)

/-! ## Rows -/

/-- The text of a revision, which is recalled and embedded. -/
def AssertionRow.text (a : AssertionRow) (r : AssertionRevisionRow) : String :=
  a.subject.str ++ " / " ++ a.predicate.str ++ ": " ++ r.value.str

namespace Store

variable (s : Store)

/-- The text of an episode that a profile searches. -/
def episodeText (profile : SearchProfile) (e : EpisodeRow) : Option TsVector :=
  match profile with
  | .simple => some e.searchText
  | .japanese => (s.contents.episodeLexical.find? e.id).map EpisodeLexicalRow.searchText

/-- The text of a revision that a profile searches. -/
def revisionText (profile : SearchProfile) (a : AssertionRow) (r : AssertionRevisionRow) :
    Option TsVector :=
  match profile with
  | .simple => some (a.searchText ++ r.searchText)
  | .japanese => (s.contents.assertionLexical.find? (a.id, r.revision)).map
      AssertionLexicalRow.searchText

/-- The stored vector of an episode by a model. -/
def episodeVector (model : Option EmbeddingModel) (id : UUID) : Option Embedding :=
  (s.contents.episodeEmbeddings.rows.find? fun r => r.episodeId = id && model = some r.model).map
    EpisodeEmbeddingRow.embedding

/-- The stored vector of a revision by a model. -/
def revisionVector (model : Option EmbeddingModel) (id : UUID) (revision : Nat) : Option Embedding :=
  (s.contents.assertionEmbeddings.rows.find? fun r => r.assertionId = id && r.revision = revision
    && model = some r.model).map AssertionEmbeddingRow.embedding

/-- What a query shows of an episode. -/
def episodeOffer (q : CandidateQuery) (o : ObjectRow) (e : EpisodeRow) : Candidate where
  id := e.id
  kind := .episode
  createdAt := o.createdAt
  revision := 1
  content := e.content.str
  occurredAt := some e.occurredAt
  validFrom := none
  validTo := none
  sourceEntity := none
  targetEntity := none
  searchText := s.episodeText q.profile e
  embedding := s.episodeVector q.model e.id

/-- What a query shows of a revision. -/
def revisionOffer (q : CandidateQuery) (a : AssertionRow) (r : AssertionRevisionRow) : Candidate where
  id := a.id
  kind := .assertion
  createdAt := r.systemFrom
  revision := r.revision
  content := a.text r
  occurredAt := none
  validFrom := r.validTime.lower
  validTo := r.validTime.upper
  sourceEntity := (s.graph.relations.find? a.id).map RelationRow.sourceId
  targetEntity := (s.graph.targets.find? (a.id, r.revision)).map RelationRevisionRow.targetId
  searchText := s.revisionText q.profile a r
  embedding := s.revisionVector q.model a.id r.revision

/-- **What a query asks for**: live episodes and revisions of the searched scopes that are read, that
pass the filters, and that are in force at the instants of the query. -/
inductive Offers (s : Store) (reads : UUID → Prop) (q : CandidateQuery) : Candidate → Prop where
  /-- An episode that was recorded and had happened; a subject or a predicate leaves it out. -/
  | episode {o : ObjectRow} {e : EpisodeRow} (ho : o ∈ s.anchor.objects)
    (he : e ∈ s.contents.episodes) (hid : o.id = e.id) (hlive : Untombstoned s o.id)
    (hscope : o.scopeId ∈ q.scopes) (hread : reads o.scopeId) (hkind : q.kind ≠ some .assertion)
    (hsubject : q.subject = none) (hpredicate : q.predicate = none)
    (hknown : o.createdAt ≤ q.known) (hasOf : e.occurredAt ≤ q.asOf) :
    s.Offers reads q (s.episodeOffer q o e)
  /-- A revision that was in force and held; one of a relation has a target. -/
  | revision {o : ObjectRow} {a : AssertionRow} {r : AssertionRevisionRow} (ho : o ∈ s.anchor.objects)
    (ha : a ∈ s.contents.assertions) (hid : o.id = a.id) (hlive : Untombstoned s o.id)
    (hr : r ∈ s.contents.revisionsOf a.id) (hscope : o.scopeId ∈ q.scopes)
    (hread : reads o.scopeId) (hkind : q.kind ≠ some .episode)
    (hsubject : ∀ subject, q.subject = some subject → a.subject = subject)
    (hpredicate : ∀ predicate, q.predicate = some predicate → a.predicate = predicate)
    (hends : a.isRelation = true → (s.graph.targets.find? (a.id, r.revision)).isSome = true)
    (hasOf : r.validTime.contains q.asOf = true) (hknown : r.systemTime.contains q.known = true) :
    s.Offers reads q (s.revisionOffer q a r)

end Store

/-! ## Candidates -/

section Views

variable {v : View} {q : CandidateQuery} {a : AssertionRow}

/-- The reader of a scope sees the relations of its assertions. -/
theorem View.relation?_eq (hgrounded : Grounded v.store) (ha : a ∈ v.store.contents.assertions)
    (hread : v.permitted a.scopeId .read = true) :
    v.relation? a.id = v.store.graph.relations.find? a.id := by
  rw [View.relation?]
  cases hfind : v.store.graph.relations.find? a.id with
  | none => rfl
  | some l =>
    obtain ⟨hl, hid⟩ := Table.find?_eq_some_iff.mp hfind
    have hid : l.id = a.id := hid
    have hscope : l.scopeId = a.scopeId :=
      (hgrounded.relation hl).anchored.unique (hid ▸ (hgrounded.assertion ha).anchored)
    have hmarked := hgrounded.foreign.marked
    refine Option.filter_eq_some_iff.mpr ⟨rfl, Bool.and_eq_true_iff.mpr
      ⟨((hgrounded.relation hl).visible hmarked rfl).mpr (hscope ▸ hread),
        ((hgrounded.relationSource hl).visible hmarked rfl).mpr (hscope ▸ hread)⟩⟩

/-- The reader of a scope sees the targets of its assertions. -/
theorem View.target?_eq (hgrounded : Grounded v.store) (ha : a ∈ v.store.contents.assertions)
    (hread : v.permitted a.scopeId .read = true) (revision : Nat) :
    v.target? a.id revision = v.store.graph.targets.find? (a.id, revision) := by
  rw [View.target?]
  cases hfind : v.store.graph.targets.find? (a.id, revision) with
  | none => rfl
  | some t =>
    obtain ⟨ht, hkey⟩ := Table.find?_eq_some_iff.mp hfind
    have hid : t.assertionId = a.id := (Prod.mk.inj hkey).1
    have hscope : t.scopeId = a.scopeId :=
      (hgrounded.target ht).anchored.unique (hid ▸ (hgrounded.assertion ha).anchored)
    obtain ⟨l, hl, hlid, -⟩ := hgrounded.targetRelation ht
    have hmarked := hgrounded.foreign.marked
    have hrelation : (v.relation? t.assertionId).isSome = true := by
      rw [hid, View.relation?_eq hgrounded ha hread, ← hid, ← hlid]
      exact Option.isSome_iff_exists.mpr ⟨l, Table.find?_key hl⟩
    refine Option.filter_eq_some_iff.mpr ⟨rfl, ?_⟩
    rw [View.targetReadable, Bool.and_eq_true, Bool.and_eq_true]
    exact ⟨⟨((hgrounded.target ht).visible hmarked rfl).mpr (hscope ▸ hread),
      ((hgrounded.targetEntity ht).visible hmarked rfl).mpr (hscope ▸ hread)⟩, hrelation⟩

/-- A lookup among rows that are filtered by what it asks for anyway. -/
theorem find?_filter_of_imp {α : Type} {xs : List α} {p f : α → Bool}
    (h : ∀ x, f x = true → p x = true) : (xs.filter p).find? f = xs.find? f := by
  rw [List.find?_filter]
  congr 1
  funext x
  rw [Bool.eq_iff_iff]
  simpa using h x

/-- The vector of a visible episode. -/
theorem View.episodeVector_eq {id : UUID} (hvisible : v.visible id = true)
    (model : Option EmbeddingModel) : v.episodeVector model id = v.store.episodeVector model id := by
  rw [View.episodeVector, Store.episodeVector, View.episodeEmbeddings, find?_filter_of_imp]
  intro r hr
  rw [of_decide_eq_true (Bool.and_eq_true_iff.mp hr).1]
  exact hvisible

/-- The vector of a revision of a visible assertion. -/
theorem View.revisionVector_eq {id : UUID} (hvisible : v.visible id = true)
    (model : Option EmbeddingModel) (revision : Nat) :
    v.revisionVector model id revision = v.store.revisionVector model id revision := by
  rw [View.revisionVector, Store.revisionVector, View.assertionEmbeddings, find?_filter_of_imp]
  intro r hr
  rw [of_decide_eq_true (Bool.and_eq_true_iff.mp (Bool.and_eq_true_iff.mp hr).1).1]
  exact hvisible

/-- The Japanese projection of a visible episode. -/
theorem View.episodeLexical?_eq {id : UUID} (hvisible : v.visible id = true) :
    v.episodeLexical? id = v.store.contents.episodeLexical.find? id := by
  rw [View.episodeLexical?]
  cases hfind : v.store.contents.episodeLexical.find? id with
  | none => rfl
  | some r =>
    obtain ⟨-, hid⟩ := Table.find?_eq_some_iff.mp hfind
    have hid : r.episodeId = id := hid
    exact Option.filter_eq_some_iff.mpr ⟨rfl, hid ▸ hvisible⟩

/-- The Japanese projection of a revision of a visible assertion. -/
theorem View.assertionLexical?_eq {id : UUID} (hvisible : v.visible id = true) (revision : Nat) :
    v.assertionLexical? id revision = v.store.contents.assertionLexical.find? (id, revision) := by
  rw [View.assertionLexical?]
  cases hfind : v.store.contents.assertionLexical.find? (id, revision) with
  | none => rfl
  | some r =>
    obtain ⟨-, hkey⟩ := Table.find?_eq_some_iff.mp hfind
    have hid : r.assertionId = id := (Prod.mk.inj hkey).1
    exact Option.filter_eq_some_iff.mpr ⟨rfl, hid ▸ hvisible⟩

/-- **The candidate of an episode** in a readable scope. -/
theorem View.episodeCandidate?_eq {o : ObjectRow} {e : EpisodeRow} (ho : v.object? e.id = some o) :
    v.episodeCandidate? q e
      = if q.scopes.contains o.scopeId && decide (q.kind ≠ some .assertion)
          && q.subject.isNone && q.predicate.isNone
          && decide (o.createdAt ≤ q.known) && decide (e.occurredAt ≤ q.asOf)
        then some (v.store.episodeOffer q o e) else none := by
  have hvisible : v.visible e.id = true := by
    rw [View.visible, ho]
    rfl
  obtain ⟨-, hid, -⟩ := View.object?_eq_some.mp ho
  rw [View.episodeCandidate?, ho, Option.bind_some]
  refine if_congr Iff.rfl (congrArg some ?_) rfl
  unfold Store.episodeOffer Store.episodeText
  rewrite [hid, View.episodeVector_eq hvisible, View.episodeLexical?_eq hvisible]
  rfl

/-- **The candidate of a revision** of an assertion in a readable scope. -/
theorem View.assertionCandidate?_eq (hgrounded : Grounded v.store) {o : ObjectRow}
    {a : AssertionRow} {r : AssertionRevisionRow} (ho : v.object? a.id = some o)
    (ha : a ∈ v.store.contents.assertions) (hr : r ∈ v.store.contents.revisionsOf a.id) :
    v.assertionCandidate? q r
      = if q.scopes.contains o.scopeId && decide (q.kind ≠ some .episode)
          && (q.subject.all fun s => decide (a.subject = s))
          && (q.predicate.all fun p => decide (a.predicate = p))
          && (!a.isRelation || (v.store.graph.targets.find? (a.id, r.revision)).isSome)
          && r.validTime.contains q.asOf && r.systemTime.contains q.known
        then some (v.store.revisionOffer q a r) else none := by
  have hvisible : v.visible a.id = true := by
    rw [View.visible, ho]
    rfl
  have hread : v.permitted a.scopeId .read = true :=
    ((hgrounded.assertion ha).visible hgrounded.foreign.marked rfl).mp hvisible
  have hassertion : v.assertion? a.id = some a :=
    Option.filter_eq_some_iff.mpr ⟨Table.find?_eq_some_iff.mpr ⟨ha, rfl⟩, hvisible⟩
  obtain ⟨-, hid, -⟩ := View.object?_eq_some.mp ho
  rw [View.assertionCandidate?, hr.2, ho, Option.bind_some, hassertion, Option.bind_some,
    View.target?_eq hgrounded ha hread]
  refine if_congr Iff.rfl (congrArg some ?_) rfl
  unfold Store.revisionOffer Store.revisionText
  rw [hid, View.relation?_eq hgrounded ha hread, View.revisionVector_eq hvisible,
    View.assertionLexical?_eq hvisible]
  rfl

/-- What a statement's query returns is offered by the store. -/
theorem View.offers_of_mem (hgrounded : Grounded v.store) {c : Candidate} (h : c ∈ v.candidates q) :
    v.store.Offers (fun scope => v.permitted scope .read = true) q c := by
  have hmarked := hgrounded.foreign.marked
  rw [View.candidates, List.mem_append, List.mem_filterMap, List.mem_filterMap] at h
  rcases h with ⟨e, he, hc⟩ | ⟨r, hr, hc⟩
  -- the candidate of an episode
  · obtain ⟨o, ho, -⟩ := Option.bind_eq_some_iff.mp hc
    rw [View.episodeCandidate?_eq ho] at hc
    obtain ⟨hmem, hid, hreadable⟩ := View.object?_eq_some.mp ho
    obtain ⟨hread, hlive⟩ := (View.readable_iff hmarked hmem).mp hreadable
    split at hc
    next hpasses =>
      cases hc
      simp only [Bool.and_eq_true, decide_eq_true_eq, Option.isNone_iff_eq_none,
        List.contains_iff_mem] at hpasses
      obtain ⟨⟨⟨⟨⟨hscope, hkind⟩, hsubject⟩, hpredicate⟩, hknown⟩, hasOf⟩ := hpasses
      exact .episode hmem (List.mem_filter.mp he).1 hid hlive hscope hread hkind hsubject
        hpredicate hknown hasOf
    next => cases hc
  -- the candidate of a revision: its assertion is there, as the joins found it
  · obtain ⟨hrow, -⟩ := List.mem_filter.mp hr
    obtain ⟨o, ho, hrest⟩ := Option.bind_eq_some_iff.mp hc
    obtain ⟨a, hassertion, -⟩ := Option.bind_eq_some_iff.mp hrest
    obtain ⟨hfound, -⟩ := Option.filter_eq_some_iff.mp hassertion
    obtain ⟨ha, haid⟩ := Table.find?_eq_some_iff.mp hfound
    have haid : a.id = r.assertionId := haid
    rw [← haid] at ho
    rw [View.assertionCandidate?_eq hgrounded ho ha ⟨hrow, haid.symm⟩] at hc
    obtain ⟨hmem, hid, hreadable⟩ := View.object?_eq_some.mp ho
    obtain ⟨hread, hlive⟩ := (View.readable_iff hmarked hmem).mp hreadable
    split at hc
    next hpasses =>
      cases hc
      simp only [Bool.and_eq_true, decide_eq_true_eq, List.contains_iff_mem,
        Option.all_eq_true] at hpasses
      obtain ⟨⟨⟨⟨⟨⟨hscope, hkind⟩, hsubject⟩, hpredicate⟩, hends⟩, hasOf⟩, hknown⟩ := hpasses
      refine .revision hmem ha hid hlive ⟨hrow, haid.symm⟩ hscope hread hkind hsubject hpredicate
        (fun hrelation => ?_) hasOf hknown
      rwa [hrelation, Bool.not_true, Bool.false_or] at hends
    next => cases hc

/-- What the store offers is returned by the query. -/
theorem Store.Offers.mem_candidates (hgrounded : Grounded v.store) {c : Candidate}
    (h : v.store.Offers (fun scope => v.permitted scope .read = true) q c) : c ∈ v.candidates q := by
  have hmarked := hgrounded.foreign.marked
  rw [View.candidates, List.mem_append, List.mem_filterMap, List.mem_filterMap]
  cases h with
  | @episode o e hmem he hid hlive hscope hread hkind hsubject hpredicate hknown hasOf =>
    have ho : v.object? e.id = some o :=
      View.object?_eq_some.mpr ⟨hmem, hid, (View.readable_iff hmarked hmem).mpr ⟨hread, hlive⟩⟩
    refine Or.inl ⟨e, List.mem_filter.mpr ⟨he, by rw [View.visible, ho]; rfl⟩, ?_⟩
    rw [View.episodeCandidate?_eq ho, if_pos]
    simp only [Bool.and_eq_true, decide_eq_true_eq, Option.isNone_iff_eq_none,
      List.contains_iff_mem]
    exact ⟨⟨⟨⟨⟨hscope, hkind⟩, hsubject⟩, hpredicate⟩, hknown⟩, hasOf⟩
  | @revision o a r hmem ha hid hlive hr hscope hread hkind hsubject hpredicate hends hasOf hknown =>
    have ho : v.object? a.id = some o :=
      View.object?_eq_some.mpr ⟨hmem, hid, (View.readable_iff hmarked hmem).mpr ⟨hread, hlive⟩⟩
    refine Or.inr ⟨r, List.mem_filter.mpr ⟨hr.1, ?_⟩, ?_⟩
    · rw [hr.2, View.visible, ho]
      rfl
    rw [View.assertionCandidate?_eq hgrounded ho ha hr, if_pos]
    simp only [Bool.and_eq_true, decide_eq_true_eq, List.contains_iff_mem, Option.all_eq_true]
    refine ⟨⟨⟨⟨⟨⟨hscope, hkind⟩, hsubject⟩, hpredicate⟩, ?_⟩, hasOf⟩, hknown⟩
    cases hrelation : a.isRelation with
    | false => rfl
    | true => rw [hends hrelation, Bool.not_true, Bool.false_or]

/-- **The candidates of a statement** are what its query asks for. -/
theorem View.mem_candidates_iff (hgrounded : Grounded v.store) {c : Candidate} :
    c ∈ v.candidates q ↔ v.store.Offers (fun scope => v.permitted scope .read = true) q c :=
  ⟨View.offers_of_mem hgrounded, Store.Offers.mem_candidates hgrounded⟩

end Views

end PgAgmemory

import PgAgmemory.History.Sound
import PgAgmemory.Recalling.Results

/-! # Candidates

A statement sees at most one candidate for each id: an episode has one, and of an assertion at most
one revision is in force at any instant known at another. -/

namespace PgAgmemory

open Keyed (HasKey Table)
open Keyed.HasKey (key)

namespace View

variable {v : View} {q : CandidateQuery}

/-- The candidate of an episode has its id. -/
theorem episodeCandidate?_eq_some {e : EpisodeRow} {c : Candidate}
    (h : v.episodeCandidate? q e = some c) :
    c.id = e.id ∧ c.sourceEntity = none ∧ ∃ o, v.object? e.id = some o := by
  obtain ⟨o, ho, hcandidate⟩ := Option.bind_eq_some_iff.mp h
  split at hcandidate
  · cases hcandidate
    exact ⟨(View.object?_eq_some.mp ho).2.1, rfl, o, ho⟩
  · cases hcandidate

/-- The candidate of a revision has the id of its assertion, and the revision is known at the
instant of the query. -/
theorem assertionCandidate?_eq_some {r : AssertionRevisionRow} {c : Candidate}
    (h : v.assertionCandidate? q r = some c) :
    c.id = r.assertionId ∧ r.systemTime.contains q.known = true
      ∧ ∃ a, v.assertion? r.assertionId = some a ∧ c.sourceEntity = (v.relation? a.id).map
        RelationRow.sourceId ∧ c.targetEntity = (v.target? r.assertionId r.revision).map
          RelationRevisionRow.targetId ∧ (a.isRelation = true → c.targetEntity ≠ none) := by
  obtain ⟨o, ho, hrest⟩ := Option.bind_eq_some_iff.mp h
  obtain ⟨a, ha, hcandidate⟩ := Option.bind_eq_some_iff.mp hrest
  split at hcandidate
  next hpasses =>
    cases hcandidate
    simp only [Bool.and_eq_true] at hpasses
    refine ⟨(View.object?_eq_some.mp ho).2.1, hpasses.2, a, ha, rfl, rfl, fun hrelation => ?_⟩
    have htarget := hpasses.1.1.2
    rw [hrelation, Bool.not_true, Bool.false_or] at htarget
    exact Option.isSome_iff_ne_none.mp (by rw [Option.isSome_map]; exact htarget)
  next => cases hcandidate

/-- **One revision of an assertion is known at an instant.** -/
theorem known_unique {s : Store} (hunique : UniqueKeys s) {t : Time} {a b : AssertionRevisionRow}
    (ha : a ∈ s.contents.revisions) (hb : b ∈ s.contents.revisions)
    (hknown : a.systemTime.contains t = true) (hknown' : b.systemTime.contains t = true)
    (heq : a.assertionId = b.assertionId) : a = b := by
  have hpairs : s.contents.revisions.rows.Pairwise fun a b =>
      a.systemTime.contains t = true → b.systemTime.contains t = true →
        a.assertionId = b.assertionId → a = b := by
    refine hunique.revision_exclusion.imp ?_
    intro a b hexclusion ha hb heq
    have hoverlaps : a.overlaps b = true := by
      obtain ⟨halow, hahigh⟩ := Bool.and_eq_true_iff.mp ha
      obtain ⟨hblow, hbhigh⟩ := Bool.and_eq_true_iff.mp hb
      have hafrom : a.systemFrom ≤ t := of_decide_eq_true halow
      have hbfrom : b.systemFrom ≤ t := of_decide_eq_true hblow
      have hbefore : ∀ {u : Option Time} {from' : Time}, from' ≤ t →
          (u.all fun b => decide (t < b)) = true → (u.all fun t => decide (from' < t)) = true := by
        intro u from' hle hall
        cases u with
        | none => rfl
        | some u => exact decide_eq_true (Int.lt_of_le_of_lt hle (of_decide_eq_true hall))
      exact Bool.and_eq_true_iff.mpr ⟨hbefore hafrom hbhigh, hbefore hbfrom hahigh⟩
    rw [hexclusion heq] at hoverlaps
    exact absurd hoverlaps Bool.false_ne_true
  have hflip := hpairs.imp fun {a b} h (hb : b.systemTime.contains t = true)
    (ha : a.systemTime.contains t = true) (heq : b.assertionId = a.assertionId) =>
      (h ha hb heq.symm).symm
  exact hpairs.forall_of_forall_of_flip (fun _ _ _ _ _ => rfl) hflip ha hb hknown hknown' heq

/-- An episode is not an assertion. -/
theorem episode_ne_assertion {s : Store} (hforeign : ForeignKeys s) {e : EpisodeRow}
    {a : AssertionRow} (he : e ∈ s.contents.episodes) (ha : a ∈ s.contents.assertions) :
    e.id ≠ a.id := by
  intro heq
  obtain ⟨o₁, ho₁, hkey₁⟩ := hforeign.content.episode_object.exists_parent he rfl
  obtain ⟨o₂, ho₂, hkey₂⟩ := hforeign.content.assertion_object.exists_parent ha rfl
  obtain ⟨hid₁, -, hkind₁⟩ : _ ∧ _ ∧ _ := by simpa only [Prod.mk.injEq] using hkey₁
  obtain ⟨hid₂, -, hkind₂⟩ : _ ∧ _ ∧ _ := by simpa only [Prod.mk.injEq] using hkey₂
  have hsame : o₁ = o₂ := Table.eq_of_key_eq ho₁ ho₂ (hid₁.trans (heq.trans hid₂.symm))
  rw [hsame, hkind₂] at hkind₁
  cases hkind₁

/-- **What makes a candidate**: an episode, or a revision that is known at the instant of the query.
-/
theorem mem_candidates {c : Candidate} (h : c ∈ v.candidates q) :
    (∃ e ∈ v.episodes, v.episodeCandidate? q e = some c ∧ c.id = e.id ∧ c.revision = 1)
      ∨ ∃ r ∈ v.revisions, ∃ a ∈ v.store.contents.assertions,
        v.assertionCandidate? q r = some c ∧ c.id = r.assertionId ∧ a.id = r.assertionId
          ∧ c.revision = r.revision ∧ r.systemTime.contains q.known = true := by
  rcases List.mem_append.mp h with hepisode | hassertion
  · obtain ⟨e, he, hc⟩ := List.mem_filterMap.mp hepisode
    obtain ⟨hid, -, -⟩ := episodeCandidate?_eq_some hc
    refine Or.inl ⟨e, he, hc, hid, ?_⟩
    obtain ⟨o, -, hcandidate⟩ := Option.bind_eq_some_iff.mp hc
    split at hcandidate <;> cases hcandidate
    rfl
  · obtain ⟨r, hr, hc⟩ := List.mem_filterMap.mp hassertion
    obtain ⟨hid, hknown, a, ha, -⟩ := assertionCandidate?_eq_some hc
    obtain ⟨haRow, -⟩ := Option.filter_eq_some_iff.mp ha
    obtain ⟨haMem, haKey⟩ := Table.find?_eq_some_iff.mp haRow
    refine Or.inr ⟨r, hr, a, haMem, hc, hid, haKey, ?_, hknown⟩
    obtain ⟨o, -, hrest⟩ := Option.bind_eq_some_iff.mp hc
    obtain ⟨a', -, hcandidate⟩ := Option.bind_eq_some_iff.mp hrest
    split at hcandidate <;> cases hcandidate
    rfl

/-- Everything is projected for the simple profile. -/
theorem candidate_simple (hprofile : q.profile = .simple) {c : Candidate} (h : c ∈ v.candidates q) :
    c.searchText ≠ none := by
  rcases List.mem_append.mp h with hepisode | hassertion
  · obtain ⟨e, -, hc⟩ := List.mem_filterMap.mp hepisode
    obtain ⟨o, -, hcandidate⟩ := Option.bind_eq_some_iff.mp hc
    split at hcandidate <;> cases hcandidate
    rw [hprofile]
    exact Option.some_ne_none _
  · obtain ⟨r, -, hc⟩ := List.mem_filterMap.mp hassertion
    obtain ⟨o, -, hrest⟩ := Option.bind_eq_some_iff.mp hc
    obtain ⟨a', -, hcandidate⟩ := Option.bind_eq_some_iff.mp hrest
    split at hcandidate <;> cases hcandidate
    rw [hprofile]
    exact Option.some_ne_none _

/-- **The revision of a candidate is that of its id**, whatever else a statement sees. -/
theorem revision_unique {w : View} (hstore : w.store = v.store) (hforeign : ForeignKeys v.store)
    (hunique : UniqueKeys v.store) {c d : Candidate} (hc : c ∈ v.candidates q)
    (hd : d ∈ w.candidates q) (hid : c.id = d.id) : c.revision = d.revision := by
  rcases mem_candidates hc with ⟨e, he, -, hce, hone⟩ | ⟨r, hr, a, ha, -, hcr, har, hrev, hknown⟩
    <;>
    rcases mem_candidates hd with
      ⟨e', he', -, hde, hone'⟩ | ⟨r', hr', a', ha', -, hdr, har', hrev', hknown'⟩
  · exact hone.trans hone'.symm
  · refine absurd ?_ (episode_ne_assertion hforeign (List.mem_filter.mp he).1 (hstore ▸ ha'))
    exact hce.symm.trans (hid.trans (hdr.trans har'.symm))
  · refine absurd ?_ (episode_ne_assertion hforeign (hstore ▸ (List.mem_filter.mp he').1) ha)
    exact hde.symm.trans (hid.symm.trans (hcr.trans har.symm))
  · have hsame : r = r' := known_unique hunique (List.mem_filter.mp hr).1
      (hstore ▸ (List.mem_filter.mp hr').1) hknown hknown' (hcr.symm.trans (hid.trans hdr))
    rw [hrev, hrev', hsame]

/-- **Candidates have distinct ids.** -/
theorem nodup_candidates (hforeign : ForeignKeys v.store) (hunique : UniqueKeys v.store) :
    ((v.candidates q).map Candidate.id).Nodup := by
  rw [candidates, List.map_append]
  refine List.nodup_append.mpr ⟨?_, ?_, ?_⟩
  · have hrows : v.episodes.Pairwise fun a b => a.id ≠ b.id :=
      (List.pairwise_map.mp v.store.contents.episodes.nodup).sublist List.filter_sublist
    refine List.pairwise_map.mpr (List.pairwise_filterMap.mpr (hrows.imp ?_))
    intro a b hne c hc d hd heq
    rw [(episodeCandidate?_eq_some hc).1, (episodeCandidate?_eq_some hd).1] at heq
    exact hne heq
  · have hrows : v.revisions.Pairwise fun a b => a ≠ b :=
      ((List.pairwise_map.mp v.store.contents.revisions.nodup).sublist List.filter_sublist).imp
        fun hne heq => hne (congrArg key heq)
    refine List.pairwise_map.mpr (List.pairwise_filterMap.mpr (hrows.imp_of_mem ?_))
    intro a b ha hb hne c hc d hd heq
    obtain ⟨hid, hknown, -⟩ := assertionCandidate?_eq_some hc
    obtain ⟨hid', hknown', -⟩ := assertionCandidate?_eq_some hd
    exact hne (known_unique hunique (List.mem_filter.mp ha).1 (List.mem_filter.mp hb).1 hknown
      hknown' (hid.symm.trans (heq.trans hid')))
  · intro a ha b hb heq
    obtain ⟨c, hc, rfl⟩ := List.mem_map.mp ha
    obtain ⟨d, hd, rfl⟩ := List.mem_map.mp hb
    obtain ⟨e, he, hepisode⟩ := List.mem_filterMap.mp hc
    obtain ⟨r, hr, hassertion⟩ := List.mem_filterMap.mp hd
    obtain ⟨hid, -, -⟩ := episodeCandidate?_eq_some hepisode
    obtain ⟨hid', -, a, ha, -⟩ := assertionCandidate?_eq_some hassertion
    obtain ⟨haRow, -⟩ := Option.filter_eq_some_iff.mp ha
    obtain ⟨haMem, haKey⟩ := Table.find?_eq_some_iff.mp haRow
    refine episode_ne_assertion hforeign (List.mem_filter.mp he).1 haMem ?_
    exact hid.symm.trans (heq.trans (hid'.trans haKey.symm))

/-- **Candidates depend on what is readable only.** -/
theorem candidates_congr {w : View} (hstore : w.store = v.store)
    (hread : ∀ scope, w.permitted scope .read = v.permitted scope .read) :
    w.candidates q = v.candidates q := by
  have hreadable : w.readable = v.readable := by
    funext o
    simp only [readable, tombstoned, hstore, hread]
  have hobject : w.object? = v.object? := by
    funext id
    rw [object?, object?, hstore, hreadable]
  have hvisible : w.visible = v.visible := by
    funext id
    rw [visible, visible, hobject]
  have hassertion : w.assertion? = v.assertion? := by
    funext id
    rw [assertion?, assertion?, hstore, hvisible]
  have hrelation : w.relation? = v.relation? := by
    funext id
    rw [relation?, relation?, hstore, hvisible]
  have htarget : w.target? = v.target? := by
    funext id revision
    have hreads : w.targetReadable = v.targetReadable := by
      funext r
      rw [targetReadable, targetReadable, hvisible, hrelation]
    rw [target?, target?, hstore, hreads]
  have hepisodes : w.episodeCandidate? q = v.episodeCandidate? q := by
    funext e
    simp only [episodeCandidate?, hobject, episodeVector, episodeEmbeddings, episodeLexical?,
      hstore,
      hvisible]
  have hrevisions : w.assertionCandidate? q = v.assertionCandidate? q := by
    funext r
    simp only [assertionCandidate?, hobject, hassertion, hrelation, htarget, revisionVector,
      assertionEmbeddings, assertionLexical?, hstore, hvisible]
  rw [candidates, candidates, episodes, episodes, revisions, revisions, hepisodes, hrevisions,
    hstore,
    hvisible]

end View

/-! ## Relations

A row of a relation belongs to an assertion that is marked as one, so a candidate with a source has
a target. -/

/-- The rows of relations belong to assertions that are marked as relations. -/
def Store.Typed (s : Store) : Prop := ∀ l ∈ s.graph.relations, s.contents.Typed l.id

section Statements

variable {v : View} {m : Moment}

/-- Statements on contents keep assertions as they are typed. -/
theorem ContentStatement.Accepted.typed {st : ContentStatement} {c : Contents}
    (h : st.Accepted v m c) {id : UUID} (htyped : v.store.contents.Typed id) : c.Typed id := by
  obtain ⟨a, ha, hid, hrelation⟩ := htyped
  cases st with
  | insertAssertion new scope subject predicate isRelation =>
    obtain ⟨-, t, ht, rfl⟩ := h
    exact ⟨a, (Table.mem_insert? ht).mpr (Or.inr ha), hid, hrelation⟩
  | insertRevision n =>
    obtain ⟨-, t, c', ⟨hadopts, -⟩, rfl⟩ := h
    cases hadopts with
    | first _ _ _ => exact ⟨a, ha, hid, hrelation⟩
    | next _ _ _ _ _ _ =>
      change ∃ a' ∈ moveHead v.store.contents.assertions n.assertionId n.revision, _
      refine ⟨_, Table.mem_update.mpr ⟨a, ha, rfl⟩, ?_⟩
      split <;> exact ⟨hid, hrelation⟩
  | _ =>
    obtain ⟨-, t, -, rfl⟩ := h
    exact ⟨a, ha, hid, hrelation⟩

/-- A statement on the graph adds no relation but of a typed assertion. -/
theorem GraphStatement.Accepted.relations {st : GraphStatement} {g : Graph} (h : st.Accepted v g)
    {l : RelationRow} (hl : l ∈ g.relations) :
    l ∈ v.store.graph.relations ∨ st = .insertRelation l := by
  cases st with
  | insertRelation r =>
    obtain ⟨-, t, ht, rfl⟩ := h
    rcases (Table.mem_insert? ht).mp hl with rfl | hold
    · exact Or.inr rfl
    · exact Or.inl hold
  | _ =>
    obtain ⟨-, t, -, rfl⟩ := h
    exact Or.inl hl

end Statements

/-- **Relations are typed** in every reachable store. -/
theorem Reachable.typed {platform : Platform} {s : Store} (h : Reachable platform s) : s.Typed := by
  refine h.invariant (I := Store.Typed) (fun access l hl => absurd hl (Table.not_mem_empty l)) ?_ ?_
    fun _ _ htyped => htyped
  · intro c st m σ r σ' _ _ _ _ htyped hallow hstep l hl
    have haccepted := st.accepted (step_eq_ok.mp hstep).2.1
    have hkept : ∀ id, σ.store.contents.Typed id → σ'.store.contents.Typed id := by
      intro id hid
      rcases haccepted.contents_cases hallow.quiet with hsame | ⟨st', -, hcontent⟩
      · rw [hsame]
        exact hid
      · exact hcontent.typed hid
    rcases haccepted.graph_cases hallow.quiet with hsame | ⟨st', rfl, hgraph⟩
    · exact hkept _ (htyped l (hsame ▸ hl))
    · rcases hgraph.relations hl with hold | rfl
      · exact hkept _ (htyped l hold)
      · exact hkept _ hallow.2
  · intro s s' gone _ hpurged htyped l hl
    rw [hpurged.graph] at hl
    obtain ⟨hold, hkept⟩ := Table.mem_delete.mp hl
    obtain ⟨a, ha, hid, hrelation⟩ := htyped l hold
    refine ⟨a, ?_, hid, hrelation⟩
    rw [hpurged.contents]
    refine Table.mem_delete.mpr ⟨ha, ?_⟩
    rw [hid]
    exact eq_false_of_ne_true fun hgone =>
      Bool.eq_false_iff.mp hkept (hpurged.coherent.earlier _ _ _ (by decide) hgone)

/-- **A candidate with a source has a target.** -/
theorem View.candidate_target {v : View} (htyped : v.store.Typed) {q : CandidateQuery}
    {c : Candidate} (hc : c ∈ v.candidates q) (hsource : c.sourceEntity ≠ none) :
    c.targetEntity ≠ none := by
  rcases mem_candidates hc with ⟨e, -, he, -⟩ | ⟨r, -, -, -, hr, -⟩
  · exact absurd (episodeCandidate?_eq_some he).2.1 hsource
  · obtain ⟨-, -, a, ha, hsourceEq, -, htarget⟩ := assertionCandidate?_eq_some hr
    apply htarget
    obtain ⟨haRow, -⟩ := Option.filter_eq_some_iff.mp ha
    obtain ⟨haMem, -⟩ := Table.find?_eq_some_iff.mp haRow
    rw [hsourceEq] at hsource
    obtain ⟨l, hl⟩ := Option.ne_none_iff_exists'.mp (mt Option.map_eq_none_iff.mpr hsource)
    obtain ⟨hlRow, -⟩ := Option.filter_eq_some_iff.mp hl
    obtain ⟨hlMem, hlKey⟩ := Table.find?_eq_some_iff.mp hlRow
    obtain ⟨a', ha', hid, hrelation⟩ := htyped l hlMem
    have hsame : a' = a := Table.eq_of_key_eq ha' haMem (hid.trans hlKey)
    exact hsame ▸ hrelation

/-- What a recall call sees has a target when it has a source. -/
theorem Call.seen_target {platform : Platform} {s : Store} (hs : Reachable platform s) {call : Call}
    {data : Recall} {n : Nat} {c : Candidate} (hc : c ∈ call.seen s data n)
    (hsource : c.sourceEntity ≠ none) : c.targetEntity ≠ none :=
  View.candidate_target hs.typed hc hsource

end PgAgmemory

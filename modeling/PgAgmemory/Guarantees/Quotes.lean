import PgAgmemory.Guarantees.Histories
import PgAgmemory.History.Quotes

/-! # Every claim is backed by a literal quote

In an orderly run every revision, every entity and every active job rests on one to 32 distinct live
episodes of its scope, each of which contains the quote that is stored with it (`Orderly.claimsBacked`).
A purge whose caller's membership expires between two of its statements breaks this: it deletes the
evidence of an assertion and leaves the assertion. -/

namespace PgAgmemory

open Keyed (HasKey Table key)

/-! ## Backed claims -/

/-- **Evidence that backs a claim**: one to 32 distinct live episodes of a scope, and a quote from the
content of each. -/
structure Store.Backs (s : Store) (scope : UUID) (evidence : List (UUID × LongText)) : Prop where
  bounds : 1 ≤ evidence.length ∧ evidence.length ≤ 32
  distinct : (evidence.map Prod.fst).Nodup
  quoted : ∀ x ∈ evidence, Live s x.1 scope ∧ ∃ e ∈ s.contents.episodes,
    e.id = x.1 ∧ e.scopeId = scope ∧ x.2.str.toList <:+: e.content.str.toList

/-- **Every claim is backed**: every revision of every assertion, every entity, and the request of every
pending or running job, whose inputs are the episodes of its evidence. -/
structure ClaimsBacked (s : Store) : Prop where
  revision : ∀ a ∈ s.contents.assertions, ∀ r ∈ s.contents.revisions, r.assertionId = a.id →
    s.Backs a.scopeId (s.contents.evidenceOf (a.id, r.revision))
  entity : ∀ e ∈ s.graph.entities, s.Backs e.scopeId (s.graph.evidenceOf e.id)
  job : ∀ j ∈ s.queue.jobs, j.state = .pending ∨ j.state = .running →
    ∃ r : Remember, j.payload = some r.dump ∧ r.scopeId = j.scopeId
      ∧ s.Backs j.scopeId (r.evidence.map fun x => (x.memoryId, x.quote))
      ∧ ∀ id, (∃ i ∈ s.queue.inputs, i.jobId = j.id ∧ i.sourceId = id)
        ↔ id ∈ r.evidence.map Evidence.memoryId

section Backed

variable {platform : Platform} {s s' : Store}

/-- A quote of an episode of a scope. -/
theorem Store.Cites.backs (hs : Grounded s) {id scope : UUID} {quote : LongText}
    (h : s.Cites id quote) (hscope : ∃ e ∈ s.contents.episodes, e.id = id ∧ e.scopeId = scope) :
    Live s id scope ∧ ∃ e ∈ s.contents.episodes,
      e.id = id ∧ e.scopeId = scope ∧ quote.str.toList <:+: e.content.str.toList := by
  obtain ⟨e, he, hid, hquote⟩ := h
  obtain ⟨e', he', hid', rfl⟩ := hscope
  obtain rfl : e' = e := Table.eq_of_key_eq he' he (hid'.trans hid.symm)
  exact ⟨hid ▸ hs.episode he, e', he, hid, rfl, of_decide_eq_true hquote⟩

/-- **The inputs of a job are the episodes of its request**: there are as many of them. -/
theorem Store.Requested.sources {j : JobRow} {request : Remember} (h : s.Requested j request)
    (hj : j ∈ s.queue.jobs) (hcomplete : s.queue.Complete j.id) (id : UUID) :
    (∃ i ∈ s.queue.inputs, i.jobId = j.id ∧ i.sourceId = id)
      ↔ id ∈ request.evidence.map Evidence.memoryId := by
  have hmem : ∀ id, id ∈ (s.queue.inputs.rows.filter (·.jobId = j.id)).map JobInputRow.sourceId
      ↔ ∃ i ∈ s.queue.inputs, i.jobId = j.id ∧ i.sourceId = id := by
    intro id
    rw [List.mem_map]
    constructor
    · rintro ⟨i, hi, heq⟩
      obtain ⟨hmem, hof⟩ := List.mem_filter.mp hi
      exact ⟨i, hmem, of_decide_eq_true hof, heq⟩
    · rintro ⟨i, hi, hof, heq⟩
      exact ⟨i, List.mem_filter.mpr ⟨hi, decide_eq_true hof⟩, heq⟩
  have hnodup : ((s.queue.inputs.rows.filter (·.jobId = j.id)).map JobInputRow.sourceId).Nodup := by
    have hrows := List.pairwise_map.mp s.queue.inputs.nodup
    refine List.pairwise_map.mpr ((hrows.filter _).imp_of_mem fun {i i'} hi hi' hne heq => hne ?_)
    have hof := of_decide_eq_true (List.mem_filter.mp hi).2
    have hof' := of_decide_eq_true (List.mem_filter.mp hi').2
    exact Prod.ext (hof.trans hof'.symm) heq
  have hsubset : (s.queue.inputs.rows.filter (·.jobId = j.id)).map JobInputRow.sourceId
      ⊆ request.evidence.map Evidence.memoryId := by
    intro id hid
    obtain ⟨i, hi, hof, rfl⟩ := (hmem id).mp hid
    exact h.inputs i hi hof
  have hlength : (request.evidence.map Evidence.memoryId).length
      ≤ ((s.queue.inputs.rows.filter (·.jobId = j.id)).map JobInputRow.sourceId).length := by
    rw [List.length_map, List.length_map, ← List.countP_eq_length_filter, hcomplete j hj rfl, h.count]
  rw [← hmem]
  exact ((hnodup.subperm hsubset).perm_of_length_le hlength).mem_iff

/-- **A wholesale purge leaves evidence quoted**: it erases whatever rests on an episode it erases. -/
theorem QuotesBut.wholesale {erased : UUID → Bool} (hintact : Intact platform s) (hs' : Sound s')
    (h : Quotes s) (hpurge : Wholesale s s' erased) : Quotes s' := by
  have hp := hpurge.purged
  have hkeys := hs'.integrity.foreign
  -- the episodes that are left are old ones
  have hcites : ∀ {id scope quote}, s.Cites id quote →
      (∃ e ∈ s'.contents.episodes, (e.id, e.scopeId) = (id, scope)) → s'.Cites id quote := by
    rintro id scope quote ⟨e, he, hid, hquote⟩ ⟨e', he', hkey⟩
    have hold : e' ∈ s.contents.episodes := (Table.mem_delete.mp (hp.contents ▸ he')).1
    obtain rfl : e' = e := Table.eq_of_key_eq hold he ((Prod.mk.inj hkey).1.trans hid.symm)
    exact ⟨e', he', hid, hquote⟩
  constructor
  · intro x hx
    have hold : x ∈ s.contents.edges := (Table.mem_delete.mp (hp.contents ▸ hx)).1
    exact hcites (h.edges x hold) (hkeys.content.edge_parent.exists_parent hx rfl)
  · intro x hx
    have hold : x ∈ s.graph.evidence := (Table.mem_delete.mp (hp.graph ▸ hx)).1
    exact hcites (h.evidence x hold) (hkeys.graph.evidence_source.exists_parent hx rfl)
  · intro x hx hother
    have hmem : x ∈ (s.erase fun _ => erased).contents.revisions := hp.contents ▸ hx
    obtain ⟨hold, hgone⟩ := Table.mem_delete.mp hmem
    have hkept : erased x.assertionId = false := hgone
    have hsame : s'.contents.evidenceOf (key x) = s.contents.evidenceOf (key x) := by
      rw [hp.contents, Contents.evidenceOf, Contents.evidenceOf]
      change List.map _ (List.filter _ (List.filter _ _)) = _
      rw [List.filter_filter]
      refine congrArg _ (List.filter_congr fun edge _ => ?_)
      by_cases hchild : (edge.childId, edge.childRevision) = key x
      · have hid : edge.childId = x.assertionId := (Prod.mk.inj hchild).1
        rw [decide_eq_true hchild, Bool.true_and]
        change (!erased edge.childId) = true
        rw [hid, hkept]
        rfl
      · rw [decide_eq_false hchild]
        rfl
    rw [hsame]
    exact h.counted x hold hother
  · intro e he
    exact h.entities e (Table.mem_delete.mp (hp.graph ▸ he)).1
  · intro j hj hactive
    have hmem : j ∈ (s.erase fun _ => erased).queue.jobs := hp.queue ▸ hj
    obtain ⟨hold, hkept⟩ := Table.mem_delete.mp hmem
    obtain ⟨request, hrequested⟩ := h.jobs j hold hactive
    have hinputs : ∀ i, i ∈ s'.queue.inputs ↔ i ∈ s.queue.inputs ∧ erased i.jobId = false := by
      intro i
      rw [hp.queue]
      exact Table.mem_delete
    refine ⟨request, { hrequested with
      quoted := fun x hx => ?_, inputs := fun i hi => hrequested.inputs i ((hinputs i).mp hi).1 }⟩
    obtain ⟨i, hi, hof, hsource⟩ := (hrequested.sources hold (hintact j.id).job x.memoryId).mpr
      (List.mem_map_of_mem hx)
    have hi' : i ∈ s'.queue.inputs := (hinputs i).mpr ⟨hi, hof ▸ hkept⟩
    have hparent := hkeys.queue.input_source.exists_parent hi' rfl
    exact hcites (hrequested.quoted x hx) (hsource ▸ hparent)

/-- **All evidence of an orderly store is quoted.** -/
theorem Orderly.quotes (h : Orderly platform s) : Quotes s :=
  (maintained_quotes platform).orderly
    (fun _ _ _ horderly hs' hJ hpurge => hJ.wholesale horderly.intact hs' hpurge) h

/-- **Every claim of an orderly store is backed by literal quotes.** -/
theorem Orderly.claimsBacked (h : Orderly platform s) : ClaimsBacked s := by
  have hs := h.reachable.sound
  have hgrounded := hs.grounded
  have hkeys := hs.integrity.foreign
  have hquotes := h.quotes
  constructor
  -- Live revisions: as many sources as are counted, each once, each an episode of the same scope.
  · intro a ha r hr hof
    have hkey : key r = (a.id, r.revision) := Prod.ext hof rfl
    refine ⟨?_, ?_, ?_⟩
    · have hcounted := hquotes.counted r hr (Option.some_ne_none _)
      rwa [hkey] at hcounted
    · rw [Contents.evidenceOf, List.map_map, List.Nodup, List.pairwise_map]
      have hrows := List.pairwise_map.mp s.contents.edges.nodup
      refine (hrows.filter _).imp_of_mem fun {x x'} hx hx' hne heq => hne ?_
      have hchild := of_decide_eq_true (List.mem_filter.mp hx).2
      have hchild' := of_decide_eq_true (List.mem_filter.mp hx').2
      obtain ⟨hid, hrevision⟩ := Prod.mk.inj (hchild.trans hchild'.symm)
      exact Prod.ext hid (Prod.ext hrevision heq)
    · intro x hx
      obtain ⟨edge, hedge, rfl⟩ := List.mem_map.mp hx
      obtain ⟨hmem, hchild⟩ := List.mem_filter.mp hedge
      obtain ⟨e, he, hparent⟩ := hkeys.content.edge_parent.exists_parent (Table.mem_rows.mp hmem) rfl
      obtain ⟨b, hb, hbkey⟩ := hkeys.content.edge_child.exists_parent (Table.mem_rows.mp hmem) rfl
      have hid : edge.childId = a.id := (Prod.mk.inj (of_decide_eq_true hchild)).1
      obtain rfl : b = a := Table.eq_of_key_eq hb ha ((Prod.mk.inj hbkey).1.trans hid)
      exact (hquotes.edges edge hmem).backs hgrounded
        ⟨e, he, (Prod.mk.inj hparent).1, (Prod.mk.inj hparent).2.trans (Prod.mk.inj hbkey).2.symm⟩
  -- Entities, whose evidence is counted when the purge leaves it whole.
  · intro e he
    have hcount : (s.graph.evidenceOf e.id).length = e.referenceCount := by
      rw [Graph.evidenceOf, List.length_map, ← List.countP_eq_length_filter]
      exact (h.intact e.id).entity e he rfl
    refine ⟨hcount ▸ hquotes.entities e he, ?_, ?_⟩
    · rw [Graph.evidenceOf, List.map_map, List.Nodup, List.pairwise_map]
      have hrows := List.pairwise_map.mp s.graph.evidence.nodup
      refine (hrows.filter _).imp_of_mem fun {x x'} hx hx' hne heq => hne ?_
      have hof := of_decide_eq_true (List.mem_filter.mp hx).2
      have hof' := of_decide_eq_true (List.mem_filter.mp hx').2
      exact Prod.ext (hof.trans hof'.symm) heq
    · intro x hx
      obtain ⟨row, hrow, rfl⟩ := List.mem_map.mp hx
      obtain ⟨hmem, hof⟩ := List.mem_filter.mp hrow
      obtain ⟨source, hsource, hkey⟩ :=
        hkeys.graph.evidence_source.exists_parent (Table.mem_rows.mp hmem) rfl
      obtain ⟨e', he', hkey'⟩ :=
        hkeys.graph.evidence_entity.exists_parent (Table.mem_rows.mp hmem) rfl
      obtain rfl : e' = e :=
        Table.eq_of_key_eq he' he ((Prod.mk.inj hkey').1.trans (of_decide_eq_true hof))
      exact (hquotes.evidence row hmem).backs hgrounded
        ⟨source, hsource, (Prod.mk.inj hkey).1, (Prod.mk.inj hkey).2.trans (Prod.mk.inj hkey').2.symm⟩
  -- Open jobs, whose inputs are those of the request that they carry.
  · intro j hj hstate
    have hactive : j.state.active = true := by
      rcases hstate with h | h <;> rw [h] <;> rfl
    obtain ⟨request, hrequested⟩ := hquotes.jobs j hj hactive
    have hsources := hrequested.sources hj (h.intact j.id).job
    refine ⟨request, hrequested.payload, hrequested.scope, ⟨?_, ?_, ?_⟩, hsources⟩
    · rw [List.length_map]
      exact request.bounds
    · rw [List.map_map]
      exact request.valid.2
    · intro x hx
      obtain ⟨evidence, hevidence, rfl⟩ := List.mem_map.mp hx
      obtain ⟨i, hi, hof, hsource⟩ := (hsources evidence.memoryId).mpr (List.mem_map_of_mem hevidence)
      obtain ⟨e, he, hkey⟩ := hkeys.queue.input_source.exists_parent hi rfl
      obtain ⟨j', hj', hkey'⟩ := hkeys.queue.input_job.exists_parent hi rfl
      obtain rfl : j' = j := Table.eq_of_key_eq hj' hj ((Prod.mk.inj hkey').1.trans hof)
      exact (hrequested.quoted evidence hevidence).backs hgrounded
        ⟨e, he, (Prod.mk.inj hkey).1.trans hsource,
          (Prod.mk.inj hkey).2.trans (Prod.mk.inj hkey').2.symm⟩

end Backed

/-! ## A small tenant -/

/-- The run of the small tenant in which its assertion is published is orderly. -/
theorem orderly_remembered : Orderly .plain .remembered :=
  .event _ (.event _ (.provisioned _) trivial) trivial

/-- The assertion of the small tenant is backed. -/
theorem claimsBacked_remembered :
    (∀ a ∈ Store.remembered.contents.assertions, ∀ r ∈ Store.remembered.contents.revisions,
      r.assertionId = a.id →
        Store.remembered.Backs a.scopeId (Store.remembered.contents.evidenceOf (a.id, r.revision)))
      ∧ (Store.remembered.contents.revisions.rows.map fun r => (r.assertionId, r.revision))
        = [(309, 1)]
      ∧ (Store.remembered.contents.evidenceOf (309, 1)).map Prod.fst = [107] :=
  ⟨orderly_remembered.claimsBacked.revision, by decide +kernel, by decide +kernel⟩

/-- **A claim without evidence**: after a purge whose caller's membership expired in between, the
assertion of the small tenant is there, with its revision, and nothing backs it. -/
theorem not_claimsBacked_stripped : ¬ ∀ s, Reachable .plain s → ClaimsBacked s := by
  intro hall
  have hreach : Reachable .plain .stripped := (Reachable.provisioned _).run _
  have hassertions : Store.stripped.contents.assertions.rows.map AssertionRow.id = [309] := by
    decide +kernel
  have hrevisions : (Store.stripped.contents.revisions.rows.map fun r =>
      (r.assertionId, r.revision)) = [(309, 1)] := by
    decide +kernel
  have hnone : Store.stripped.contents.evidenceOf (309, 1) = [] := by
    exact List.length_eq_zero_iff.mp (by decide +kernel)
  obtain ⟨a, ha, hid⟩ := List.mem_map.mp (hassertions ▸ List.mem_singleton_self 309)
  obtain ⟨r, hr, hkey⟩ := List.mem_map.mp (hrevisions ▸ List.mem_singleton_self (309, 1))
  obtain ⟨hof, hrevision⟩ := Prod.mk.inj hkey
  have hbacks := ((hall _ hreach).revision a ha r hr (hof.trans hid.symm)).bounds.1
  rw [hid, hrevision, hnone] at hbacks
  exact absurd hbacks (by decide)

end PgAgmemory

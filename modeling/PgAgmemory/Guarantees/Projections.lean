import PgAgmemory.History.Projections

/-! # The lexical index is exact

In every reachable store the projections are those of the live episodes and of the revisions of the live
assertions, one each (`Indexed`). So `rebuild` makes the same projections anew, whatever has become of
them before: it reads no projection, and what it reads determines them. -/

namespace PgAgmemory

open Keyed (HasKey Table key)

/-! ## An exact index -/

/-- **An exact lexical index**: one projection of every live episode and of every revision of every
live assertion, and no other. -/
structure Indexed (platform : Platform) (s : Store) : Prop where
  episodes : ∀ row, row ∈ s.contents.episodeLexical ↔
    ∃ e ∈ s.liveEpisodes, e.projection? platform = some row
  revisions : ∀ row, row ∈ s.contents.assertionLexical ↔
    ∃ x ∈ s.liveRevisions, x.1.projection? platform x.2 = some row
  episode : ∀ e ∈ s.liveEpisodes, ∃! row, row ∈ s.contents.episodeLexical ∧ row.episodeId = e.id
  revision : ∀ x ∈ s.liveRevisions, ∃! row, row ∈ s.contents.assertionLexical
    ∧ row.assertionId = x.1.id ∧ row.revision = x.2.revision

section Index

variable {platform : Platform} {s : Store}

/-- A projection is that of its episode. -/
theorem EpisodeRow.projection?_episodeId {e : EpisodeRow} {row : EpisodeLexicalRow}
    (h : e.projection? platform = some row) : row.episodeId = e.id := by
  obtain ⟨text, -, rfl⟩ := Option.map_eq_some_iff.mp h
  rfl

/-- A projection is that of its revision. -/
theorem AssertionRow.projection?_key {a : AssertionRow} {r : AssertionRevisionRow}
    {row : AssertionLexicalRow} (h : a.projection? platform r = some row) :
    key row = (a.id, r.revision) ∧ row.scopeId = a.scopeId := by
  obtain ⟨text, -, rfl⟩ := Option.map_eq_some_iff.mp h
  exact ⟨rfl, rfl⟩

theorem Live.live {id scope : UUID} (h : Live s id scope) : s.live id = true := by
  obtain ⟨⟨o, ho, hid, -⟩, hfree⟩ := h
  rw [Store.live, Bool.and_eq_true, List.any_eq_true, List.all_eq_true]
  exact ⟨⟨o, ho, decide_eq_true hid⟩, fun t ht => decide_eq_true fun heq => hfree t ht heq⟩

/-- Every stored episode is live. -/
theorem Grounded.mem_liveEpisodes (h : Grounded s) {e : EpisodeRow} :
    e ∈ s.liveEpisodes ↔ e ∈ s.contents.episodes :=
  ⟨fun he => (List.mem_filter.mp he).1, fun he => List.mem_filter.mpr ⟨he, (h.episode he).live⟩⟩

/-- Every stored revision of a stored assertion is one of a live assertion. -/
theorem Grounded.mem_liveRevisions (h : Grounded s) {a : AssertionRow} {r : AssertionRevisionRow} :
    (a, r) ∈ s.liveRevisions ↔
      a ∈ s.contents.assertions ∧ r ∈ s.contents.revisions ∧ r.assertionId = a.id := by
  rw [Store.liveRevisions, List.mem_flatMap]
  constructor
  · rintro ⟨b, hb, hmem⟩
    obtain ⟨q, hq, heq⟩ := List.mem_map.mp hmem
    obtain ⟨rfl, rfl⟩ := Prod.mk.inj heq
    obtain ⟨hq, hid⟩ := List.mem_filter.mp hq
    exact ⟨(List.mem_filter.mp hb).1, hq, of_decide_eq_true hid⟩
  · rintro ⟨ha, hr, hid⟩
    exact ⟨a, List.mem_filter.mpr ⟨ha, (h.assertion ha).live⟩,
      List.mem_map_of_mem (List.mem_filter.mpr ⟨hr, decide_eq_true hid⟩)⟩

/-- **A store with all projections has an exact index**: foreign keys leave no others. -/
theorem Projected.indexed (hprojected : Projected platform s) (h : Grounded s) :
    Indexed platform s := by
  have hepisode : ∀ e ∈ s.liveEpisodes, ∃ row ∈ s.contents.episodeLexical,
      e.projection? platform = some row := fun e he =>
    hprojected.episodes e (h.mem_liveEpisodes.mp he) (Option.some_ne_none _)
  have hrevision : ∀ x ∈ s.liveRevisions, ∃ row ∈ s.contents.assertionLexical,
      x.1.projection? platform x.2 = some row := by
    rintro ⟨a, r⟩ hx
    obtain ⟨ha, hr, hid⟩ := h.mem_liveRevisions.mp hx
    exact hprojected.revisions r hr (Option.some_ne_none _) a ha hid.symm
  refine ⟨fun row => ⟨fun hrow => ?_, ?_⟩, fun row => ⟨fun hrow => ?_, ?_⟩, fun e he => ?_, fun x hx => ?_⟩
  · obtain ⟨e, he, hkey⟩ := h.foreign.content.episodeLexical_episode.exists_parent hrow rfl
    have hlive := h.mem_liveEpisodes.mpr he
    obtain ⟨row', hrow', heq⟩ := hepisode e hlive
    obtain rfl : row' = row := Table.eq_of_key_eq hrow' hrow
      ((EpisodeRow.projection?_episodeId heq).trans (Prod.mk.inj hkey).1)
    exact ⟨e, hlive, heq⟩
  · rintro ⟨e, he, heq⟩
    obtain ⟨row', hrow', heq'⟩ := hepisode e he
    exact Option.some.inj (heq'.symm.trans heq) ▸ hrow'
  · obtain ⟨r, hr, hkey⟩ := h.foreign.content.assertionLexical_revision.exists_parent hrow rfl
    obtain ⟨a, ha, hakey⟩ := h.foreign.content.revision_assertion.exists_parent hr rfl
    obtain ⟨hid, hrest⟩ := Prod.mk.inj hkey
    have hof : r.assertionId = a.id := (Prod.mk.inj hakey).1.symm
    have hlive := h.mem_liveRevisions.mpr ⟨ha, hr, hof⟩
    obtain ⟨row', hrow', heq⟩ := hrevision (a, r) hlive
    obtain rfl : row' = row := Table.eq_of_key_eq hrow' hrow
      ((AssertionRow.projection?_key heq).1.trans
        (Prod.ext (hof.symm.trans hid) (Prod.mk.inj hrest).1))
    exact ⟨(a, r), hlive, heq⟩
  · rintro ⟨x, hx, heq⟩
    obtain ⟨row', hrow', heq'⟩ := hrevision x hx
    exact Option.some.inj (heq'.symm.trans heq) ▸ hrow'
  · obtain ⟨row, hrow, heq⟩ := hepisode e he
    have hid := EpisodeRow.projection?_episodeId heq
    exact ⟨row, ⟨hrow, hid⟩, fun row' h' => Table.eq_of_key_eq h'.1 hrow (h'.2.trans hid.symm)⟩
  · obtain ⟨row, hrow, heq⟩ := hrevision x hx
    obtain ⟨hid, hn⟩ := Prod.mk.inj (AssertionRow.projection?_key heq).1
    exact ⟨row, ⟨hrow, hid, hn⟩, fun row' h' => Table.eq_of_key_eq h'.1 hrow
      (Prod.ext (h'.2.1.trans hid.symm) (h'.2.2.trans hn.symm))⟩

end Index

/-! ## Making the index anew -/

section Rebuild

variable {platform : Platform} {s : Store}

/-- Projections that are all there are collected. -/
theorem mapM_eq_filterMap {α β : Type} {f : α → Option β} {xs : List α}
    (h : ∀ x ∈ xs, ∃ y, f x = some y) : xs.mapM f = some (xs.filterMap f) := by
  induction xs with
  | nil => rfl
  | cons x xs ih =>
    obtain ⟨y, hy⟩ := h x List.mem_cons_self
    have hrest := ih fun x hx => h x (List.mem_cons_of_mem _ hx)
    rw [List.mapM_cons, hy, hrest, List.filterMap_cons_some hy]
    rfl

/-- Rows made of elements with different keys have different keys. -/
theorem nodup_keys {α β κ : Type} [HasKey β κ] {f : α → Option β} {k : α → κ} {xs : List α}
    (hkey : ∀ x y, f x = some y → key y = k x) (hdistinct : (xs.map k).Nodup) :
    ((xs.filterMap f).map key).Nodup := by
  rw [List.Nodup, List.pairwise_map, List.pairwise_filterMap]
  refine (List.pairwise_map.mp hdistinct).imp fun {x x'} hne y hy y' hy' heq => hne ?_
  rw [← hkey x y hy, ← hkey x' y' hy']
  exact heq

theorem nodup_liveEpisodes : (s.liveEpisodes.map EpisodeRow.id).Nodup :=
  s.contents.episodes.nodup.sublist (List.filter_sublist.map _)

theorem nodup_liveRevisions : (s.liveRevisions.map fun x => (x.1.id, x.2.revision)).Nodup := by
  rw [List.Nodup, List.pairwise_map, Store.liveRevisions, List.pairwise_flatMap]
  constructor
  · intro a _
    rw [List.pairwise_map]
    have hrows := List.pairwise_map.mp s.contents.revisions.nodup
    refine ((hrows.filter _).imp_of_mem fun {r r'} hr hr' hne heq => hne ?_)
    have hid := of_decide_eq_true (List.mem_filter.mp hr).2
    have hid' := of_decide_eq_true (List.mem_filter.mp hr').2
    exact Prod.ext (hid.trans hid'.symm) (Prod.mk.inj heq).2
  · have hrows := List.pairwise_map.mp s.contents.assertions.nodup
    refine (hrows.filter _).imp fun {a a'} hne x hx y hy heq => hne ?_
    obtain ⟨r, -, rfl⟩ := List.mem_map.mp hx
    obtain ⟨r', -, rfl⟩ := List.mem_map.mp hy
    exact (Prod.mk.inj heq).1

/-- `rebuild` reads no projection. -/
theorem rebuild_withProjections (episodes : Table EpisodeLexicalRow)
    (revisions : Table AssertionLexicalRow) :
    (s.withProjections episodes revisions).rebuild platform = s.rebuild platform := rfl

/-- `rebuild` changes projections only, so a second `rebuild` changes nothing. -/
theorem rebuild_rebuild {s' : Store} (h : s.rebuild platform = some s') :
    s'.rebuild platform = some s' ∧ s'.liveEpisodes = s.liveEpisodes
      ∧ s'.liveRevisions = s.liveRevisions := by
  obtain ⟨episodes, hepisodes, h'⟩ := Option.bind_eq_some_iff.mp h
  obtain ⟨revisions, hrevisions, heq⟩ := Option.bind_eq_some_iff.mp h'
  obtain rfl := Option.some.inj heq
  exact ⟨(rebuild_withProjections episodes revisions).trans h, rfl, rfl⟩

/-- **Two stores with the same projections**, that agree in everything else. -/
def SameIndex (s s' : Store) : Prop :=
  ∃ episodes revisions, s' = s.withProjections episodes revisions
    ∧ (∀ row, row ∈ episodes ↔ row ∈ s.contents.episodeLexical)
    ∧ ∀ row, row ∈ revisions ↔ row ∈ s.contents.assertionLexical

/-- **An exact index is made anew.** -/
theorem Indexed.rebuild (hindexed : Indexed platform s) (h : Grounded s) :
    ∃ s', s.rebuild platform = some s' ∧ SameIndex s s' := by
  have hepisodes : s.liveEpisodes.mapM (EpisodeRow.projection? platform)
      = some (s.liveEpisodes.filterMap (EpisodeRow.projection? platform)) := by
    refine mapM_eq_filterMap fun e he => ?_
    obtain ⟨row, ⟨hrow, hid⟩, -⟩ := hindexed.episode e he
    obtain ⟨e', he', heq⟩ := (hindexed.episodes row).mp hrow
    obtain rfl : e' = e := Table.eq_of_key_eq (h.mem_liveEpisodes.mp he') (h.mem_liveEpisodes.mp he)
      ((EpisodeRow.projection?_episodeId heq).symm.trans hid)
    exact ⟨row, heq⟩
  have hrevisions : s.liveRevisions.mapM (fun x => x.1.projection? platform x.2)
      = some (s.liveRevisions.filterMap fun x => x.1.projection? platform x.2) := by
    refine mapM_eq_filterMap ?_
    rintro ⟨a, r⟩ hx
    obtain ⟨row, ⟨hrow, hid, hn⟩, -⟩ := hindexed.revision (a, r) hx
    obtain ⟨⟨a', r'⟩, hx', heq⟩ := (hindexed.revisions row).mp hrow
    obtain ⟨ha, hr, hof⟩ := h.mem_liveRevisions.mp hx
    obtain ⟨ha', hr', hof'⟩ := h.mem_liveRevisions.mp hx'
    obtain ⟨hid', hn'⟩ := Prod.mk.inj (AssertionRow.projection?_key heq).1
    obtain rfl : a' = a := Table.eq_of_key_eq ha' ha (hid'.symm.trans hid)
    obtain rfl : r' = r := Table.eq_of_key_eq hr' hr
      (Prod.ext (hof'.trans hof.symm) (hn'.symm.trans hn))
    exact ⟨row, heq⟩
  have hprojectable : (s.liveRevisions.filterMap fun x => x.1.projection? platform x.2).all
      s.projectable = true := by
    refine List.all_eq_true.mpr fun row hrow => ?_
    obtain ⟨⟨a, r⟩, hx, heq⟩ := List.mem_filterMap.mp hrow
    obtain ⟨ha, hr, hof⟩ := h.mem_liveRevisions.mp hx
    obtain ⟨b, hb, hkey⟩ := h.foreign.content.revision_assertion.exists_parent hr rfl
    obtain rfl : b = a := Table.eq_of_key_eq hb ha ((Prod.mk.inj hkey).1.trans hof)
    obtain ⟨hrowkey, hscope⟩ := AssertionRow.projection?_key heq
    refine List.any_eq_true.mpr ⟨r, hr, decide_eq_true ?_⟩
    rw [hof, hscope, ← (Prod.mk.inj hkey).2, (Prod.mk.inj hrowkey).1, (Prod.mk.inj hrowkey).2]
  have hepisodeKeys : ((s.liveEpisodes.filterMap (EpisodeRow.projection? platform)).map key).Nodup :=
    nodup_keys (fun _ _ => EpisodeRow.projection?_episodeId) nodup_liveEpisodes
  have hrevisionKeys : ((s.liveRevisions.filterMap fun x => x.1.projection? platform x.2).map
      key).Nodup :=
    nodup_keys (fun x _ heq => (AssertionRow.projection?_key heq).1) nodup_liveRevisions
  obtain ⟨episodes, hinsert, hmem⟩ := Table.exists_insertAll? (t := (∅ : Table EpisodeLexicalRow))
    hepisodeKeys fun _ _ q hq => absurd hq (Table.not_mem_empty q)
  obtain ⟨revisions, hinsert', hmem'⟩ := Table.exists_insertAll?
    (t := (∅ : Table AssertionLexicalRow)) hrevisionKeys fun _ _ q hq =>
      absurd hq (Table.not_mem_empty q)
  refine ⟨s.withProjections episodes revisions, ?_, episodes, revisions, rfl, fun row => ?_, fun row => ?_⟩
  · simp only [Store.rebuild, Store.rebuildEpisodes, Store.rebuildRevisions, hepisodes, hrevisions,
      Option.bind_eq_bind, Option.bind_some, hinsert, hprojectable, if_true, hinsert', Option.pure_def]
  · rw [hmem, or_iff_left (Table.not_mem_empty row), List.mem_filterMap, hindexed.episodes]
  · rw [hmem', or_iff_left (Table.not_mem_empty row), List.mem_filterMap, hindexed.revisions]

end Rebuild

/-! ## All tenants -/

/-- Two installations that agree in everything but the projections of their tenants. -/
def SameButIndex (i i' : Installation) : Prop :=
  List.Forall₂ (fun t t' => t'.id = t.id ∧
    ∃ episodes revisions, t'.store = t.store.withProjections episodes revisions) i.rows i'.rows

section Installation

variable {platform : Platform} {i i' : Installation}

/-- The stores of the tenants of a reachable installation are reachable. -/
theorem Installation.Reachable.store (h : i.Reachable platform) {t : Tenant} (ht : t ∈ i) :
    PgAgmemory.Reachable platform t.store := by
  induction h generalizing t with
  | empty => exact absurd ht (Table.not_mem_empty t)
  | provisioned _ tenant access hnew ih =>
    rcases (Table.mem_insert? hnew).mp ht with rfl | hold
    · exact .provisioned access
    · exact ih hold
  | event _ tenant e ih =>
    obtain ⟨t', ht', heq⟩ := Table.mem_update.mp ht
    split at heq
    · exact heq ▸ .event e (ih ht')
    · exact heq ▸ ih ht'

/-- **When every tenant can be rebuilt**, the installation is. -/
theorem Installation.exists_rebuild
    (h : ∀ t ∈ i, ∃ s, t.store.rebuild platform = some s) :
    ∃ report restored, i.rebuild platform = some (report, restored)
      ∧ restored.rows = i.rows.map (Tenant.rebuilt platform) := by
  refine ⟨_, _, if_pos (List.all_eq_true.mpr fun t ht => ?_), rfl⟩
  obtain ⟨s, hs⟩ := h t ht
  rw [hs]
  rfl

/-- **`rebuild` is idempotent.** -/
theorem Installation.rebuild_idempotent {report : Rebuilt} {restored : Installation}
    (h : i.rebuild platform = some (report, restored)) :
    restored.rebuild platform = some (report, restored) := by
  obtain ⟨hall, heq⟩ := Option.ite_none_right_eq_some.mp h
  obtain ⟨rfl, rfl⟩ := Prod.mk.inj (Option.some.inj heq)
  have hrebuilt : ∀ t ∈ i.rows, (t.rebuilt platform).store.rebuild platform
        = some (t.rebuilt platform).store
      ∧ (t.rebuilt platform).store.liveEpisodes = t.store.liveEpisodes
      ∧ (t.rebuilt platform).store.liveRevisions = t.store.liveRevisions := by
    intro t ht
    obtain ⟨s, hs⟩ := Option.isSome_iff_exists.mp (List.all_eq_true.mp hall t ht)
    rw [Tenant.rebuilt, hs]
    exact rebuild_rebuild hs
  have hall' : (i.rows.map (Tenant.rebuilt platform)).all
      (fun t => (t.store.rebuild platform).isSome) = true := by
    rw [List.all_map, List.all_eq_true]
    intro t ht
    exact Option.isSome_iff_exists.mpr ⟨_, (hrebuilt t ht).1⟩
  refine (if_pos hall').trans (congrArg some (Prod.ext ?_ (Table.ext_rows ?_)))
  · change Rebuilt.mk _ ((i.rows.map (Tenant.rebuilt platform)).map _).sum
      ((i.rows.map (Tenant.rebuilt platform)).map _).sum = _
    rw [List.map_map, List.map_map]
    congr 2
    · exact List.map_congr_left fun t ht => congrArg List.length (hrebuilt t ht).2.1
    · exact List.map_congr_left fun t ht => congrArg List.length (hrebuilt t ht).2.2
  · change (i.rows.map (Tenant.rebuilt platform)).map (Tenant.rebuilt platform)
      = i.rows.map (Tenant.rebuilt platform)
    rw [List.map_map]
    refine List.map_congr_left fun t ht => ?_
    rw [Function.comp_apply, Tenant.rebuilt, (hrebuilt t ht).1]
    rfl

/-- **The index of every tenant is exact, and `rebuild` makes it anew from any loss.** -/
theorem Installation.Reachable.rebuild_restores (h : i.Reachable platform) (hsame : SameButIndex i i') :
    (∀ t ∈ i, Indexed platform t.store) ∧
      ∃ report restored, i'.rebuild platform = some (report, restored)
        ∧ List.Forall₂ (fun t t' => t'.id = t.id ∧ SameIndex t.store t'.store) i.rows restored.rows
        ∧ restored.rebuild platform = some (report, restored) := by
  have hindexed : ∀ t ∈ i, Indexed platform t.store := fun t ht =>
    (h.store ht).projected.indexed (h.store ht).sound.grounded
  have hrebuilt : ∀ t ∈ i, ∃ s, t.store.rebuild platform = some s ∧ SameIndex t.store s :=
    fun t ht => (hindexed t ht).rebuild (h.store ht).sound.grounded
  -- a tenant is rebuilt as if nothing had been lost
  have hrestored : List.Forall₂ (fun t t' => ∃ s, t'.store.rebuild platform = some s
      ∧ t'.id = t.id ∧ SameIndex t.store s) i.rows i'.rows := by
    refine ((List.forall₂_and_left _ _).mpr ⟨fun t ht => hrebuilt t ht, hsame⟩).imp ?_
    rintro t t' ⟨⟨s, hs, hindex⟩, hid, episodes, revisions, heq⟩
    exact ⟨s, by rw [heq, rebuild_withProjections, hs], hid, hindex⟩
  have hall : ∀ t' ∈ i', ∃ s, t'.store.rebuild platform = some s := by
    have hpairs : List.Forall₂ (fun t' _ => (∃ s, t'.store.rebuild platform = some s) ∧ True) i'.rows
        i.rows := hrestored.flip.imp fun t' t h => ⟨h.imp fun s hs => hs.1, trivial⟩
    exact ((List.forall₂_and_left _ _).mp hpairs).1
  obtain ⟨report, restored, hok, hrows⟩ := Installation.exists_rebuild hall
  refine ⟨hindexed, report, restored, hok, ?_, Installation.rebuild_idempotent hok⟩
  rw [hrows, List.forall₂_map_right_iff]
  refine hrestored.imp ?_
  rintro t t' ⟨s, hs, hid, hindex⟩
  refine ⟨hid, ?_⟩
  rw [Tenant.rebuilt, hs]
  exact hindex

end Installation

/-! ## A small installation -/

/-- The event by which the small tenant observes. -/
def Event.observation : Event := .call ⟨1, .ticking 0 100, .observe (.brief 2) "key"⟩

/-- An installation with one tenant, which has observed an episode. -/
def Installation.small : Installation :=
  Installation.exec .plain 1 .observation ⟨[⟨1, .provisioned (.sole 1 2 none)⟩], List.nodup_singleton _⟩

/-- The small installation without its projections. -/
def Installation.bare : Installation :=
  Installation.small.update (fun _ => true) (fun t => ⟨t.id, t.store.withProjections ∅ ∅⟩) fun _ => rfl

/-- **The small installation is rebuilt**: the lost projection is there again. -/
theorem rebuild_restores_small :
    (Installation.small.rows.map fun t => t.store.contents.episodeLexical.rows.length) = [1]
      ∧ (Installation.bare.rows.map fun t => t.store.contents.episodeLexical.rows.length) = [0]
      ∧ ∃ report restored, Installation.bare.rebuild .plain = some (report, restored)
        ∧ List.Forall₂ (fun t t' => t'.id = t.id ∧ SameIndex t.store t'.store)
            Installation.small.rows restored.rows := by
  have hreachable : Installation.small.Reachable .plain :=
    .event (.provisioned .empty 1 (.sole 1 2 none) rfl) 1 .observation
  have hsame : SameButIndex .small .bare := .cons ⟨rfl, ∅, ∅, rfl⟩ .nil
  obtain ⟨-, report, restored, hok, hrows, -⟩ := hreachable.rebuild_restores hsame
  exact ⟨by decide +kernel, by decide +kernel, report, restored, hok, hrows⟩

end PgAgmemory

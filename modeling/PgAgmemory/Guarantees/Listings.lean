import PgAgmemory.History.Loads
import PgAgmemory.History.Steady
import PgAgmemory.Library.Paging
import PgAgmemory.Service.Listings
import PgAgmemory.System.Calls

/-! # Paging through listings

The three listings are one kind of thing: rows that match a filter, ordered by time and id, of which
a page shows the greatest below its cursor (`Paging.page`). So following the cursors loses nothing
and repeats nothing, while rows come and go between the pages (`Browse`). -/

namespace PgAgmemory

open Keyed (HasKey Table key)
open Interactive.Program (ReadOnly)
open MemoryService

/-! ## Pages of rows -/

section Rows

variable {ρ : Type} {cursorOf : ρ → Cursor}

theorem belowCursor_iff {before : Option Cursor} {row : Cursor} :
    belowCursor before row = true ↔ Paging.Below (before.map Cursor.key) row.key := by
  cases before with
  | none => exact iff_of_true rfl (Paging.below_none _)
  | some c => exact decide_eq_true_iff.trans Paging.below_some.symm

/-- **The keys of the fetched rows** are the first of what remains below the cursor. -/
theorem map_fetchPage (cursorOf : ρ → Cursor) (before : Option Cursor) (limit : Nat)
    (rows : List ρ) :
    (fetchPage cursorOf before limit rows).map (fun r => (cursorOf r).key)
      = (Paging.remaining (before.map Cursor.key) (rows.map fun r =>
        (cursorOf r).key)).take limit := by
  rw [fetchPage, List.map_take, Paging.remaining, List.filter_map]
  congr 1
  rw [List.map_insertionSort _ (· ≥ ·) _ _ fun a _ b _ => Iff.rfl]
  congr 2
  refine List.filter_congr fun r _ => ?_
  rw [Bool.eq_iff_iff, belowCursor_iff, Function.comp_apply, decide_eq_true_eq]

/-- **A fetched page** is a page of the keys. -/
theorem page_fetchPage (cursorOf : ρ → Cursor) (before : Option Cursor) (maxItems : Nat)
    (rows : List ρ) :
    (((fetchPage cursorOf before (maxItems + 1) rows).take maxItems).map fun r => (cursorOf r).key,
        (nextCursor cursorOf maxItems (fetchPage cursorOf before (maxItems + 1) rows)).map
          Cursor.key)
      = Paging.page maxItems (before.map Cursor.key) (rows.map fun r => (cursorOf r).key) := by
  rw [Paging.page, ← map_fetchPage, nextCursor, List.length_map, List.map_take]
  congr 1
  split
  next => rw [← List.map_take, List.getLast?_map, Option.map_map]; rfl
  next => rfl

/-- Fetched rows are among the rows. -/
theorem mem_of_mem_fetchPage {before : Option Cursor} {limit : Nat} {rows : List ρ} {r : ρ}
    (h : r ∈ fetchPage cursorOf before limit rows) : r ∈ rows :=
  List.mem_of_mem_filter ((List.mem_insertionSort _).mp (List.mem_of_mem_take h))

/-- Filtered and mapped rows keep the order of their keys. -/
theorem sublist_filterMap {α β γ : Type} {f : α → Option β} {g : β → γ} {h : α → γ}
    (hf : ∀ a b, f a = some b → g b = h a) (l : List α) :
    ((l.filterMap f).map g).Sublist (l.map h) := by
  induction l with
  | nil => exact .slnil
  | cons a l ih =>
    rw [List.filterMap_cons, List.map_cons]
    cases hfa : f a with
    | none => exact .cons _ ih
    | some b =>
      rw [List.map_cons, hf a b hfa]
      exact .cons_cons _ ih

end Rows

/-! ## The three listings -/

/-- The listings that a client can page through. -/
inductive Listing where
  | episodes (data : QueryEpisodes)
  | entities (data : QueryEntities)
  | jobs (data : QueryJobs)

/-- An item of a page. -/
inductive Listed where
  | episode (summary : EpisodeSummary)
  | entity (summary : EntitySummary)
  | job (j : ListedJob)

/-- The cursor that an item is as the last of its page. -/
def Listed.cursor : Listed → Cursor
  | .episode summary => summary.cursor
  | .entity summary => summary.cursor
  | .job j => j.job.row.cursor

/-- What a listing is ordered by. -/
def Listed.key (item : Listed) : ListingKey := item.cursor.key

/-- A page with its items wrapped. -/
def Page.map {α β : Type} (wrap : α → β) (page : Page α) : Page β :=
  ⟨page.items.map wrap, page.nextCursor, page.consistency⟩

/-- What a listing asks for, apart from the place and the size of the page. -/
inductive ListingFilter where
  | episodes (scopeIds : List UUID) (occurredFrom occurredTo : Option AwareDatetime)
  | entities (scopeIds : List UUID) (entityType : Option EntityType)
      (canonicalLabel : Option ShortText)
  | jobs (scopeIds : List UUID) (states : List JobState)

namespace Listing

/-- The filter of a listing. -/
def filter : Listing → ListingFilter
  | .episodes data => .episodes data.scopeIds data.occurredFrom data.occurredTo
  | .entities data => .entities data.scopeIds data.entityType data.canonicalLabel
  | .jobs data => .jobs data.scopeIds data.states

/-- The size of the page. -/
def maxItems : Listing → Nat
  | .episodes data => data.maxItems
  | .entities data => data.maxItems
  | .jobs data => data.maxItems

/-- The cursor that the page is below. -/
def before : Listing → Option Cursor
  | .episodes data => data.before
  | .entities data => data.before
  | .jobs data => data.before

/-- The program of a listing. -/
def page : Listing → Tx (Page Listed)
  | .episodes data => do
    let page ← queryEpisodes data
    pure (page.map .episode)
  | .entities data => do
    let page ← SqlGraph.queryEntities data
    pure (page.map .entity)
  | .jobs data => do
    let page ← Jobs.query data
    pure (page.map .job)

/-- **The keys of all matching rows**, as one statement sees them. -/
def keys (v : View) : Listing → List ListingKey
  | .episodes data => (v.matchingEpisodes data).map fun e => e.cursor.key
  | .entities data => (v.matchingEntities data).map fun e => e.summary.cursor.key
  | .jobs data => (v.matchingJobs data).map fun j => j.cursor.key

/-- **An item shows a matching row.** -/
def Shows (v : View) : Listing → Listed → Prop
  | .episodes data, .episode summary => summary ∈ v.matchingEpisodes data
  | .entities data, .entity summary => ∃ e ∈ v.matchingEntities data, e.summary = summary
  | .jobs data, .job j => j.job.row ∈ v.matchingJobs data ∧ j.scopeId = j.job.row.scopeId
  | _, _ => False

variable {l : Listing} {v : View}

theorem maxItems_pos (l : Listing) : 0 < l.maxItems := by
  cases l with
  | episodes data => exact data.limits.2.1
  | entities data => exact data.limits.2.1
  | jobs data => exact data.limits.2.1.1

/-- **No two matching rows have one key.** -/
theorem nodup_keys (l : Listing) (v : View) : (l.keys v).Nodup := by
  -- the ids in the keys are ids of rows of one table
  refine List.Nodup.of_map (fun k => (ofLex k).2) ?_
  cases l with
  | episodes data =>
    rw [keys, List.map_map]
    refine (v.store.contents.episodes.nodup.sublist (List.filter_sublist.map _)).sublist
      (sublist_filterMap (fun e summary h => ?_) _)
    obtain ⟨o, -, h⟩ := Option.bind_eq_some_iff.mp h
    split at h
    · cases h
      rfl
    · cases h
  | entities data =>
    rw [keys, List.map_map]
    refine (v.store.graph.entities.nodup.sublist (List.filter_sublist.map _)).sublist
      (sublist_filterMap (fun e summary h => ?_) _)
    obtain ⟨o, -, h⟩ := Option.bind_eq_some_iff.mp h
    split at h
    · cases h
      rfl
    · cases h
  | jobs data =>
    rw [keys, List.map_map]
    exact v.store.queue.jobs.nodup.sublist ((List.filter_sublist.trans List.filter_sublist).map _)

end Listing

/-! ## What a listing asks for -/

/-- **The rows that a listing asks for**, as its items: what is stored in the listed scopes that are
read and passes the filter, with the time of its object; of the jobs the principal's own. -/
inductive Store.Lists (s : Store) (reads : UUID → Prop) (principal : UUID) :
    ListingFilter → Listed → Prop where
  | episode {scopeIds : List UUID} {occurredFrom occurredTo : Option AwareDatetime} {o : ObjectRow}
    {e : EpisodeRow} (ho : o ∈ s.anchor.objects) (he : e ∈ s.contents.episodes) (hid : o.id = e.id)
    (hscope : e.scopeId ∈ scopeIds) (hread : reads e.scopeId)
    (hfrom : ∀ t, occurredFrom = some t → t.instant ≤ e.occurredAt)
    (hto : ∀ t, occurredTo = some t → e.occurredAt < t.instant) :
    s.Lists reads principal (.episodes scopeIds occurredFrom occurredTo)
      (.episode ⟨e.id, e.scopeId, e.occurredAt, o.createdAt⟩)
  | entity {scopeIds : List UUID} {entityType : Option EntityType} {canonicalLabel : Option ShortText}
    {o : ObjectRow} {e : EntityRow} (ho : o ∈ s.anchor.objects) (he : e ∈ s.graph.entities)
    (hid : o.id = e.id) (hscope : e.scopeId ∈ scopeIds) (hread : reads e.scopeId)
    (htype : ∀ type, entityType = some type → e.entityType = type)
    (hlabel : ∀ label, canonicalLabel = some label → e.canonicalLabel = label) :
    s.Lists reads principal (.entities scopeIds entityType canonicalLabel)
      (.entity ⟨e.id, e.scopeId, e.entityType, e.canonicalLabel, o.createdAt⟩)
  | job {scopeIds : List UUID} {states : List JobState} {j : LoadedJob} (hj : j.row ∈ s.queue.jobs)
    (howner : j.row.principalId = principal) (hscope : j.row.scopeId ∈ scopeIds)
    (hread : reads j.row.scopeId) (hstate : states = [] ∨ j.row.state ∈ states) :
    s.Lists reads principal (.jobs scopeIds states) (.job ⟨j, j.row.scopeId⟩)

section Matching

variable {v : View}

/-- A stored row is seen with its object by whoever reads its scope. -/
theorem View.object?_of_live (hmarked : Marked v.store) {o : ObjectRow} {id scope : UUID}
    (hlive : Live v.store id scope) (ho : o ∈ v.store.anchor.objects) (hid : o.id = id)
    (hread : v.permitted scope .read = true) : v.object? id = some o := by
  refine View.object?_eq_some.mpr ⟨ho, hid, (View.readable_iff hmarked ho).mpr ⟨?_, hid ▸ hlive.free⟩⟩
  rw [Anchored.unique ⟨o, ho, hid, rfl⟩ hlive.anchored]
  exact hread

/-- **The episodes that match** are those that are asked for. -/
theorem View.mem_matchingEpisodes_iff (hgrounded : Grounded v.store) {data : QueryEpisodes}
    {summary : EpisodeSummary} :
    summary ∈ v.matchingEpisodes data
      ↔ v.store.Lists (fun scope => v.permitted scope .read = true) v.principal
        (.episodes data.scopeIds data.occurredFrom data.occurredTo) (.episode summary) := by
  have hmarked := hgrounded.foreign.marked
  rw [View.matchingEpisodes, List.mem_filterMap]
  constructor
  · rintro ⟨e, he, hrow⟩
    obtain ⟨hmem, hvisible⟩ := List.mem_filter.mp he
    have hread := ((hgrounded.episode hmem).visible hmarked rfl).mp hvisible
    obtain ⟨o, hobject, hrow⟩ := Option.bind_eq_some_iff.mp hrow
    obtain ⟨ho, hid, -⟩ := View.object?_eq_some.mp hobject
    split at hrow
    next hpasses =>
      cases hrow
      simp only [Bool.and_eq_true, List.contains_iff_mem, Option.all_eq_true, decide_eq_true_eq] at hpasses
      obtain ⟨⟨hscope, hfrom⟩, hto⟩ := hpasses
      exact .episode ho hmem hid hscope hread hfrom hto
    next => cases hrow
  · intro hlists
    cases hlists with
    | @episode _ _ _ o e ho he hid hscope hread hfrom hto =>
      refine ⟨e, List.mem_filter.mpr ⟨he, ((hgrounded.episode he).visible hmarked rfl).mpr hread⟩, ?_⟩
      rw [View.object?_of_live hmarked (hgrounded.episode he) ho hid hread, Option.bind_some, if_pos]
      simp only [Bool.and_eq_true, List.contains_iff_mem, Option.all_eq_true, decide_eq_true_eq]
      exact ⟨⟨hscope, hfrom⟩, hto⟩

/-- **The entities that match** are those that are asked for. -/
theorem View.mem_matchingEntities_iff (hgrounded : Grounded v.store) {data : QueryEntities}
    {summary : EntitySummary} :
    (∃ row ∈ v.matchingEntities data, row.summary = summary)
      ↔ v.store.Lists (fun scope => v.permitted scope .read = true) v.principal
        (.entities data.scopeIds data.entityType data.canonicalLabel) (.entity summary) := by
  have hmarked := hgrounded.foreign.marked
  simp only [View.matchingEntities, List.mem_filterMap]
  constructor
  · rintro ⟨row, ⟨e, he, hrow⟩, rfl⟩
    obtain ⟨hmem, hvisible⟩ := List.mem_filter.mp he
    have hread := ((hgrounded.entity hmem).visible hmarked rfl).mp hvisible
    obtain ⟨o, hobject, hrow⟩ := Option.bind_eq_some_iff.mp hrow
    obtain ⟨ho, hid, -⟩ := View.object?_eq_some.mp hobject
    split at hrow
    next hpasses =>
      cases hrow
      simp only [Bool.and_eq_true, List.contains_iff_mem, Option.all_eq_true, decide_eq_true_eq] at hpasses
      obtain ⟨⟨hscope, htype⟩, hlabel⟩ := hpasses
      exact .entity ho hmem hid hscope hread htype hlabel
    next => cases hrow
  · intro hlists
    cases hlists with
    | @entity _ _ _ o e ho he hid hscope hread htype hlabel =>
      refine ⟨⟨⟨e.id, e.scopeId, e.entityType, e.canonicalLabel, o.createdAt⟩, e.referenceCount,
          ((v.evidenceOf e.id).filter fun x => (v.episode? x.sourceId).isSome).length⟩,
        ⟨e, List.mem_filter.mpr ⟨he, ((hgrounded.entity he).visible hmarked rfl).mpr hread⟩, ?_⟩, rfl⟩
      rw [View.object?_of_live hmarked (hgrounded.entity he) ho hid hread, Option.bind_some, if_pos]
      simp only [Bool.and_eq_true, List.contains_iff_mem, Option.all_eq_true, decide_eq_true_eq]
      exact ⟨⟨hscope, htype⟩, hlabel⟩

/-- **The jobs that match** are those that are asked for. -/
theorem View.mem_matchingJobs_iff (hgrounded : Grounded v.store) {data : QueryJobs} {j : ListedJob} :
    j.job.row ∈ v.matchingJobs data ∧ j.scopeId = j.job.row.scopeId
      ↔ v.store.Lists (fun scope => v.permitted scope .read = true) v.principal
        (.jobs data.scopeIds data.states) (.job j) := by
  have hmarked := hgrounded.foreign.marked
  rw [View.matchingJobs, List.mem_filter]
  simp only [Bool.and_eq_true, Bool.or_eq_true, List.contains_iff_mem, decide_eq_true_eq,
    List.isEmpty_iff]
  constructor
  · rintro ⟨⟨hj, ⟨howner, hscope⟩, hstate⟩, hsame⟩
    obtain ⟨hmem, hvisible⟩ := List.mem_filter.mp hj
    obtain ⟨job, scope⟩ := j
    obtain rfl : scope = job.row.scopeId := hsame
    exact .job hmem howner hscope (((hgrounded.job hmem).visible hmarked rfl).mp hvisible) hstate
  · intro hlists
    cases hlists with
    | @job _ _ j hj howner hscope hread hstate =>
      have hvisible := ((hgrounded.job hj).visible hmarked rfl).mpr hread
      exact ⟨⟨List.mem_filter.mpr ⟨hj, hvisible⟩, ⟨howner, hscope⟩, hstate⟩, rfl⟩

/-- **An item of a listing** is one of the rows that are asked for. -/
theorem Listing.shows_iff (hgrounded : Grounded v.store) (l : Listing) (item : Listed) :
    l.Shows v item ↔ v.store.Lists (fun scope => v.permitted scope .read = true) v.principal
      l.filter item := by
  cases l with
  | episodes data =>
    cases item with
    | episode summary => exact View.mem_matchingEpisodes_iff hgrounded
    | entity summary => exact iff_of_false id fun h => by cases h
    | job j => exact iff_of_false id fun h => by cases h
  | entities data =>
    cases item with
    | entity summary => exact View.mem_matchingEntities_iff hgrounded
    | episode summary => exact iff_of_false id fun h => by cases h
    | job j => exact iff_of_false id fun h => by cases h
  | jobs data =>
    cases item with
    | job j => exact View.mem_matchingJobs_iff hgrounded
    | episode summary => exact iff_of_false id fun h => by cases h
    | entity summary => exact iff_of_false id fun h => by cases h

/-- **The keys of a listing** are those of its items. -/
theorem Listing.mem_keys_iff {l : Listing} {k : ListingKey} :
    k ∈ l.keys v ↔ ∃ item, l.Shows v item ∧ item.key = k := by
  cases l with
  | episodes data =>
    refine List.mem_map.trans ⟨fun ⟨e, he, hkey⟩ => ⟨.episode e, he, hkey⟩, ?_⟩
    rintro ⟨item, hshows, hkey⟩
    cases item with
    | episode summary => exact ⟨summary, hshows, hkey⟩
    | entity summary => exact hshows.elim
    | job j => exact hshows.elim
  | entities data =>
    refine List.mem_map.trans ⟨fun ⟨e, he, hkey⟩ => ⟨.entity e.summary, ⟨e, he, rfl⟩, hkey⟩, ?_⟩
    rintro ⟨item, hshows, hkey⟩
    cases item with
    | entity summary =>
      obtain ⟨e, he, rfl⟩ := hshows
      exact ⟨e, he, hkey⟩
    | episode summary => exact hshows.elim
    | job j => exact hshows.elim
  | jobs data =>
    refine List.mem_map.trans
      ⟨fun ⟨j, hj, hkey⟩ => ⟨.job ⟨⟨j, []⟩, j.scopeId⟩, ⟨hj, rfl⟩, hkey⟩, ?_⟩
    rintro ⟨item, hshows, hkey⟩
    cases item with
    | job j => exact ⟨j.job.row, hshows.1, hkey⟩
    | episode summary => exact hshows.elim
    | entity summary => exact hshows.elim

end Matching

/-! ## One page -/

/-- **A page of a listing** shows matching rows: the first of those below its cursor. -/
structure ListingPage (l : Listing) (v : View) (page : Page Listed) : Prop where
  keys : (page.items.map Listed.key, page.nextCursor.map Cursor.key)
    = Paging.page l.maxItems (l.before.map Cursor.key) (l.keys v)
  shows : ∀ item ∈ page.items, l.Shows v item

section Page

variable {platform : Platform} {timeline : Timeline} {n : Nat} {σ : Session}

/-- A selected entity is what was fetched. -/
theorem outcome_listedEntity (row : CountedEntity) :
    Outcome platform timeline (SqlGraph.listedEntity row)
      (fun summary _ σ' => σ' = σ ∧ summary = row.summary ∧ row.evidenceCount = row.referenceCount)
      (fun fault => fault = .memory .entityInvalidated ∧ row.evidenceCount ≠ row.referenceCount)
      n σ :=
  outcome_demand (fun h => outcome_pure ⟨rfl, rfl, of_decide_eq_true h⟩)
    fun h => ⟨rfl, of_decide_eq_false h⟩

/-- A selected job is the row that was fetched. -/
theorem outcome_listedJob {row : JobRow} (hrow : row ∈ σ.store.queue.jobs) :
    Outcome platform timeline (Jobs.listedJob row)
      (fun listed _ σ' => σ' = σ ∧ listed.job.row = row ∧ listed.scopeId = row.scopeId)
      (fun _ => True) n σ := by
  have hload : Outcome platform timeline (Jobs.load row.id)
      (fun loaded _ σ' => σ' = σ ∧ loaded.row = row) (fun _ => True) n σ := by
    refine outcome_bind ((outcome_object _ _).mono (fun _ _ _ _ h => h) fun _ _ => trivial) ?_
    rintro o m σ' - ⟨rfl, -⟩
    refine outcome_demand (fun _ => outcome_read (outcome_found (fun loaded hfound => ?_) fun _ =>
      trivial)) fun _ => trivial
    obtain ⟨hjob, -⟩ := Option.filter_eq_some_iff.mp hfound
    obtain ⟨hfind, -⟩ := Option.filter_eq_some_iff.mp hjob
    obtain rfl : row = loaded := Option.some.inj ((Table.find?_key hrow).symm.trans hfind)
    exact outcome_read (outcome_demand (fun _ => outcome_pure ⟨rfl, rfl⟩) fun _ => trivial)
  have hget : Outcome platform timeline (Jobs.get row.id)
      (fun loaded _ σ' => σ' = σ ∧ loaded.row = row) (fun _ => True) n σ := by
    refine outcome_bind hload ?_
    rintro loaded m σ' - ⟨rfl, hloaded⟩
    cases hresult : loaded.row.resultId with
    | none => exact outcome_pure ⟨rfl, hloaded⟩
    | some resultId =>
      refine outcome_bind ((outcome_object _ _).mono (fun _ _ _ _ h => h) fun _ _ => trivial) ?_
      rintro o k σ'' - ⟨rfl, -⟩
      exact outcome_pure ⟨rfl, hloaded⟩
  refine outcome_bind hget ?_
  rintro loaded m σ' - ⟨rfl, hloaded⟩
  exact outcome_pure ⟨rfl, hloaded, rfl⟩

/-- **What every page is**, whatever the store. -/
theorem Listing.outcome_page (l : Listing) :
    Outcome platform timeline l.page
      (fun page _ _ => ListingPage l (σ.view (timeline.moment n)) page) (fun _ => True) n σ := by
  cases l with
  -- Episodes are read by one query and decoded; entities and jobs are loaded row by row.
  | episodes data =>
    have hquery : Outcome platform timeline (queryEpisodes data) (fun page _ _ =>
        ListingPage (.episodes data) (σ.view (timeline.moment n)) (page.map .episode))
        (fun _ => True) n σ := by
      refine outcome_read (outcome_decode (fun _ => outcome_read (outcome_pure ⟨?_, ?_⟩)) fun _ =>
        trivial)
      · rw [Page.map, List.map_map]
        exact page_fetchPage EpisodeSummary.cursor data.before data.maxItems _
      · intro item hitem
        obtain ⟨e, he, rfl⟩ := List.mem_map.mp hitem
        exact mem_of_mem_fetchPage (List.mem_of_mem_take he)
    refine outcome_bind hquery ?_
    rintro page m σ' - hpage
    exact outcome_pure hpage
  | entities data =>
    have hquery : Outcome platform timeline (SqlGraph.queryEntities data) (fun page _ _ =>
        ListingPage (.entities data) (σ.view (timeline.moment n)) (page.map .entity))
        (fun _ => True) n σ := by
      unfold SqlGraph.queryEntities
      split
      next => exact trivial
      refine outcome_read (outcome_bind (outcome_forCollect (P := fun row summary =>
        summary = row.summary) fun row _ k _ => (outcome_listedEntity row).mono
          (fun _ _ _ _ h => ⟨h.1, h.2.1⟩) fun _ _ => trivial) ?_)
      rintro entities m σ' - ⟨rfl, hentities⟩
      obtain rfl := eq_map_of_forall₂ hentities
      refine outcome_read (outcome_pure ⟨?_, ?_⟩)
      · rw [Page.map, List.map_map, List.map_map]
        exact page_fetchPage (fun e : CountedEntity => e.summary.cursor) data.before data.maxItems _
      · intro item hitem
        obtain ⟨summary, hsummary, rfl⟩ := List.mem_map.mp hitem
        obtain ⟨e, he, rfl⟩ := List.mem_map.mp hsummary
        exact ⟨e, mem_of_mem_fetchPage (List.mem_of_mem_take he), rfl⟩
    refine outcome_bind hquery ?_
    rintro page m σ' - hpage
    exact outcome_pure hpage
  | jobs data =>
    have hquery : Outcome platform timeline (Jobs.query data) (fun page _ _ =>
        ListingPage (.jobs data) (σ.view (timeline.moment n)) (page.map .job)) (fun _ =>
          True) n σ := by
      refine outcome_read (outcome_bind (outcome_forCollect (P := fun row listed =>
        listed.job.row = row ∧ listed.scopeId = row.scopeId) fun row hrow k _ =>
          outcome_listedJob ?_) ?_)
      · have hlisted := mem_of_mem_fetchPage (List.mem_of_mem_take hrow)
        exact List.mem_of_mem_filter (List.mem_of_mem_filter hlisted)
      rintro jobs m σ' - ⟨rfl, hjobs⟩
      have hrows := eq_map_of_forall₂ (List.Forall₂.flip (hjobs.imp fun _ _ h => h.1.symm))
      refine outcome_read (outcome_pure ⟨?_, ?_⟩)
      · have hkeys : (jobs.map Listed.job).map Listed.key
            = (jobs.map fun listed => listed.job.row).map fun j => j.cursor.key := by
          rw [List.map_map, List.map_map]
          rfl
        rw [Page.map, hkeys, ← hrows]
        exact page_fetchPage JobRow.cursor data.before data.maxItems _
      · intro item hitem
        obtain ⟨listed, hlisted, rfl⟩ := List.mem_map.mp hitem
        obtain ⟨row, hrow, rfl, hscope⟩ := exists_of_forall₂ hjobs hlisted
        exact ⟨mem_of_mem_fetchPage (List.mem_of_mem_take hrow), hscope⟩
    refine outcome_bind hquery ?_
    rintro page m σ' - hpage
    exact outcome_pure hpage

end Page

/-! ## Refusals -/

/-- **Why a page is refused** to a reader whose memberships last. -/
inductive Listing.Refuses (v : View) : Listing → Fault → Prop where
  /-- A fetched episode occurred out of the client's range of time. -/
  | unreadable {data : QueryEpisodes} {e : EpisodeSummary}
    (h : e ∈ fetchPage EpisodeSummary.cursor data.before (data.maxItems + 1)
      (v.matchingEpisodes data))
    (hunreadable : ¬readableTime e.occurredAt) : Refuses v (.episodes data) .database
  /-- The label cannot be a parameter of a query. -/
  | unstorable {data : QueryEntities} {label : ShortText} (h : data.canonicalLabel = some label)
    (hunstorable : storable label.str = false) : Refuses v (.entities data) .database
  /-- A selected entity has lost some of the evidence that it counts. -/
  | evidence {data : QueryEntities} {e : CountedEntity}
    (h : e ∈ (fetchPage (fun e : CountedEntity => e.summary.cursor) data.before (data.maxItems + 1)
      (v.matchingEntities data)).take data.maxItems)
    (hlost : e.evidenceCount ≠ e.referenceCount) :
    Refuses v (.entities data) (.memory .entityInvalidated)
  /-- A selected job has lost some of the inputs that it counts. -/
  | inputs {data : QueryJobs} {j : JobRow}
    (h : j ∈ (fetchPage JobRow.cursor data.before (data.maxItems + 1) (v.matchingJobs data)).take
      data.maxItems)
    (hlost : v.store.queue.inputs.rows.countP (·.jobId = j.id) ≠ j.referenceCount) :
    Refuses v (.jobs data) (.memory .jobInvalidated)

section Refusals

variable {platform : Platform} {timeline : Timeline} {n : Nat} {σ : Session}

/-- The inputs of a job in a readable scope: all of them. -/
theorem View.length_inputsOf {v : View} (hgrounded : Grounded v.store) {j : JobRow}
    (hj : j ∈ v.store.queue.jobs) (hread : v.permitted j.scopeId .read = true) :
    (v.inputsOf j.id).length = v.store.queue.inputs.rows.countP (·.jobId = j.id) := by
  have hrows : v.inputsOf j.id = v.store.queue.inputs.rows.filter (·.jobId = j.id) := by
    rw [View.inputsOf, View.jobInputs, List.filter_filter]
    refine List.filter_congr fun r hr => ?_
    rw [Bool.eq_iff_iff, Bool.and_eq_true, Bool.and_eq_true, decide_eq_true_eq,
      and_iff_left_iff_imp]
    intro hid
    -- an input lies in the scope of its job, as does the episode it names
    have hscope : r.scopeId = j.scopeId :=
      (hgrounded.inputJob hr).anchored.unique (hid ▸ (hgrounded.job hj).anchored)
    have hmarked := hgrounded.foreign.marked
    exact ⟨((hgrounded.inputJob hr).visible hmarked rfl).mpr (hscope ▸ hread),
      ((hgrounded.inputSource hr).visible hmarked rfl).mpr (hscope ▸ hread)⟩
  rw [hrows, ← List.countP_eq_length_filter]

/-- **Reading a job** in a held scope: it has its inputs, or is invalidated. -/
theorem outcome_jobGet_holds (hgrounded : Grounded σ.store) {j : JobRow} (hj : j ∈
  σ.store.queue.jobs)
    (hread : Holds timeline σ j.scopeId .read) :
    Outcome platform timeline (Jobs.get j.id)
      (fun _ _ σ' => σ' = σ ∧ σ.store.queue.inputs.rows.countP (·.jobId = j.id) = j.referenceCount)
      (fun fault => fault = .memory .jobInvalidated
        ∧ σ.store.queue.inputs.rows.countP (·.jobId = j.id) ≠ j.referenceCount) n σ := by
  have hload : Outcome platform timeline (Jobs.load j.id)
      (fun loaded _ σ' => σ' = σ ∧ loaded.row = j
        ∧ σ.store.queue.inputs.rows.countP (·.jobId = j.id) = j.referenceCount)
      (fun fault => fault = .memory .jobInvalidated
        ∧ σ.store.queue.inputs.rows.countP (·.jobId = j.id) ≠ j.referenceCount) n σ := by
    refine outcome_bind ((outcome_object_holds hgrounded
      (hgrounded.foreign.queue.job_object.exists_parent hj rfl) (hgrounded.job hj).free hread
      hread).mono (fun _ _ _ _ h => h) fun _ h => h.elim) ?_
    rintro o m σ' - ⟨rfl, -, hkind⟩
    refine outcome_demand (fun _ => outcome_read ?_) fun hfail => by simp [hkind] at hfail
    have hvisible : (σ'.view (timeline.moment m)).visible j.id = true :=
      ((hgrounded.job hj).visible hgrounded.foreign.marked rfl).mpr (hread m)
    have hrow : ((σ'.view (timeline.moment m)).job? j.id).filter
        (fun k => !false || (σ'.view (timeline.moment m)).jobUpdatable k) = some j :=
      Option.filter_eq_some_iff.mpr ⟨Option.filter_eq_some_iff.mpr
        ⟨Table.find?_eq_some_iff.mpr ⟨hj, rfl⟩, hvisible⟩, rfl⟩
    refine outcome_found (fun row hfound => ?_) fun hnone => by rw [hrow] at hnone; cases hnone
    obtain rfl : j = row := Option.some.inj (hrow.symm.trans hfound)
    have hcount : ((((σ'.view (timeline.moment (m + 1))).inputsOf j.id).map
        JobInputRow.sourceId).insertionSort (· ≤ ·)).length
        = σ'.store.queue.inputs.rows.countP (·.jobId = j.id) := by
      rw [List.length_insertionSort, List.length_map]
      exact View.length_inputsOf (v := σ'.view (timeline.moment (m + 1))) hgrounded hj (hread
        (m + 1))
    refine outcome_read (outcome_demand (fun h => outcome_pure ⟨rfl, rfl, ?_⟩) fun h => ⟨rfl, ?_⟩)
    · exact hcount.symm.trans (of_decide_eq_true h)
    · exact fun heq => of_decide_eq_false h (hcount.trans heq)
  refine outcome_bind hload ?_
  rintro loaded m σ' - ⟨rfl, rfl, hinputs⟩
  cases hresult : loaded.row.resultId with
  | none => exact outcome_pure ⟨rfl, hinputs⟩
  | some resultId =>
    -- the result is an assertion of the same scope
    obtain ⟨a, ha, hkey⟩ := hgrounded.foreign.queue.job_result.exists_parent hj
      (by rw [hresult, Option.map_some])
    obtain ⟨rfl, hscope⟩ := Prod.mk.inj hkey
    refine outcome_bind ((outcome_object_holds hgrounded
      (hgrounded.foreign.content.assertion_object.exists_parent ha rfl) (hgrounded.assertion
        ha).free
      (hscope ▸ hread) (hscope ▸ hread)).mono (fun _ _ _ _ h => h) fun _ h => h.elim) ?_
    rintro o k σ'' - ⟨rfl, -⟩
    exact outcome_pure ⟨rfl, hinputs⟩

/-- **A page comes unless something refuses it**, to a reader whose memberships last. -/
theorem Listing.outcome_refuses (l : Listing) (hgrounded : Grounded σ.store)
    (hsteady : ∀ k scope, (σ.view (timeline.moment k)).permitted scope .read
      = (σ.view (timeline.moment n)).permitted scope .read) :
    Outcome platform timeline l.page
      (fun _ _ _ => ∀ fault, ¬l.Refuses (σ.view (timeline.moment n)) fault)
      (l.Refuses (σ.view (timeline.moment n))) n σ := by
  cases l with
  | episodes data =>
    have hquery : Outcome platform timeline (queryEpisodes data)
        (fun _ _ _ => ∀ fault, ¬Listing.Refuses (σ.view (timeline.moment n)) (.episodes data) fault)
        (Listing.Refuses (σ.view (timeline.moment n)) (.episodes data)) n σ := by
      refine outcome_read (outcome_decode (fun h => outcome_read (outcome_pure ?_)) fun h => ?_)
      · rintro fault (⟨he, hunreadable⟩ | _ | _ | _)
        rw [List.all_eq_true] at h
        exact hunreadable (of_decide_eq_true (h _ he))
      · rw [List.all_eq_false] at h
        obtain ⟨e, he, hunreadable⟩ := h
        exact .unreadable he fun hreadable => hunreadable (decide_eq_true hreadable)
    refine outcome_bind hquery ?_
    rintro page m σ' - h
    exact outcome_pure h
  -- A label that cannot be stored is refused by the driver, before any row is looked at.
  | entities data =>
    have hquery : Outcome platform timeline (SqlGraph.queryEntities data)
        (fun _ _ _ => ∀ fault, ¬Listing.Refuses (σ.view (timeline.moment n)) (.entities data) fault)
        (Listing.Refuses (σ.view (timeline.moment n)) (.entities data)) n σ := by
      unfold SqlGraph.queryEntities
      cases hlabel : data.canonicalLabel.all fun label => storable label.str with
      | false =>
        obtain ⟨label, hsome, hunstorable⟩ := Option.all_eq_false _ _ |>.mp hlabel
        exact Listing.Refuses.unstorable hsome hunstorable
      | true =>
        rw [Bool.not_true, if_neg Bool.false_ne_true]
        refine outcome_read (outcome_bind (outcome_forCollect (P := fun row _ =>
          row.evidenceCount = row.referenceCount) fun row hrow k _ =>
            (outcome_listedEntity row).mono
            (fun _ _ _ _ h => ⟨h.1, h.2.2⟩) fun fault h => h.1 ▸ .evidence hrow h.2) ?_)
        rintro entities m σ' - ⟨rfl, hentities⟩
        refine outcome_read (outcome_pure ?_)
        rintro fault (_ | ⟨hsome, hunstorable⟩ | ⟨he, hlost⟩ | _)
        · rw [hsome, Option.all_some, hunstorable] at hlabel
          cases hlabel
        · obtain ⟨_, -, hkept⟩ := exists_of_forall₂ hentities.flip he
          exact hlost hkept
    refine outcome_bind hquery ?_
    rintro page m σ' - h
    exact outcome_pure h
  -- Each listed job is loaded with its inputs, and refused where their number is not the stored one.
  | jobs data =>
    have hquery : Outcome platform timeline (Jobs.query data)
        (fun _ _ _ => ∀ fault, ¬Listing.Refuses (σ.view (timeline.moment n)) (.jobs data) fault)
        (Listing.Refuses (σ.view (timeline.moment n)) (.jobs data)) n σ := by
      refine outcome_read (outcome_bind (outcome_forCollect (P := fun row _ =>
        σ.store.queue.inputs.rows.countP (·.jobId = row.id) = row.referenceCount)
          fun row hrow k _ => ?_) ?_)
      · have hlisted := List.mem_of_mem_filter (mem_of_mem_fetchPage (List.mem_of_mem_take hrow))
        have hjob : row ∈ σ.store.queue.jobs := List.mem_of_mem_filter hlisted
        have hvisible : (σ.view (timeline.moment n)).visible row.id = true :=
          (List.mem_filter.mp hlisted).2
        have hread : Holds timeline σ row.scopeId .read := fun i => (hsteady i row.scopeId).trans
          (((hgrounded.job hjob).visible hgrounded.foreign.marked rfl).mp hvisible)
        refine outcome_bind ((outcome_jobGet_holds hgrounded hjob hread).mono (fun _ _ _ _ h => h)
          fun fault h => h.1 ▸ .inputs hrow h.2) ?_
        rintro loaded m σ' - ⟨rfl, hinputs⟩
        exact outcome_pure ⟨rfl, hinputs⟩
      rintro jobs m σ' - ⟨rfl, hjobs⟩
      refine outcome_read (outcome_pure ?_)
      rintro fault (_ | _ | _ | ⟨hj, hlost⟩)
      obtain ⟨_, -, hkept⟩ := exists_of_forall₂ hjobs.flip hj
      exact hlost hkept
    refine outcome_bind hquery ?_
    rintro page m σ' - h
    exact outcome_pure h

end Refusals

/-- A listing only reads. -/
theorem Listing.readOnly_page (l : Listing) : ReadOnly l.page := by
  cases l with
  | episodes data => exact (readOnly_queryEpisodes data).bind fun _ => readOnly_pure _
  | entities data => exact (readOnly_queryEntities data).bind fun _ => readOnly_pure _
  | jobs data => exact (readOnly_jobQuery data).bind fun _ => readOnly_pure _

/-! ## Following the cursors -/

/-- What a listing of a principal selects its page from. -/
def asking (principal : UUID) (timeline : Timeline) (s : Store) : View :=
  (Session.start principal s).view (timeline.moment 1)

/-- A visit of a listing: the size of its page and the keys of the rows that match. -/
def Listing.visit (l : Listing) (v : View) : Paging.Visit ListingKey := ⟨l.maxItems, l.keys v⟩

/-- **Browsing**: each page asks below the last row of the page before it, with any size and
whatever happened in between; what is left is the cursor to go on from, unless there is none. -/
inductive Browse (platform : Platform) (principal : UUID) (filter : ListingFilter) :
    Option Cursor → Store → List (Paging.Visit ListingKey) → List Listed → Option (Option Cursor) →
      Prop where
  | stop (before : Option Cursor) (s : Store) :
    Browse platform principal filter before s [] [] (some before)
  | last {s : Store} {timeline : Timeline} {l : Listing} {page : Page Listed}
    (hfilter : l.filter = filter) (hpage : ask platform principal timeline l.page s = .ok page)
    (hnext : page.nextCursor = none) :
    Browse platform principal filter l.before s [l.visit (asking principal timeline s)]
      page.items none
  | next {s : Store} {timeline : Timeline} {l : Listing} {page : Page Listed} {c : Cursor}
    {visits : List (Paging.Visit ListingKey)} {items : List Listed} {left : Option (Option Cursor)}
    (hfilter : l.filter = filter) (hpage : ask platform principal timeline l.page s = .ok page)
    (hnext : page.nextCursor = some c) (events : List Event)
    (hrest : Browse platform principal filter (some c) (runEvents platform events s) visits items
      left) :
    Browse platform principal filter l.before s (l.visit (asking principal timeline s) :: visits)
      (page.items ++ items) left

/-- A page of an answer. -/
theorem listingPage_of_ask {platform : Platform} {principal : UUID} {timeline : Timeline}
    {s : Store} {l : Listing} {page : Page Listed}
    (hpage : ask platform principal timeline l.page s = .ok page) :
    ListingPage l (asking principal timeline s) page := ask_returns hpage l.outcome_page

namespace Browse

variable {platform : Platform} {principal : UUID} {filter : ListingFilter} {before : Option Cursor}
  {s : Store} {visits : List (Paging.Visit ListingKey)} {items : List Listed}
  {left : Option (Option Cursor)}

/-- **Browsing follows the cursors.** -/
theorem follow (h : Browse platform principal filter before s visits items left) :
    Paging.follow (before.map Cursor.key) visits
      = (items.map Listed.key, left.map fun c => c.map Cursor.key) := by
  induction h with
  | stop before s => rfl
  | @last s timeline l page hfilter hpage hnext =>
    rw [Paging.follow_cons]
    dsimp only [Listing.visit]
    rw [← (listingPage_of_ask hpage).keys, hnext]
    rfl
  | @next s timeline l page c visits items left hfilter hpage hnext events hrest ih =>
    rw [Option.map_some] at ih
    rw [Paging.follow_cons]
    dsimp only [Listing.visit]
    rw [← (listingPage_of_ask hpage).keys, hnext, Option.map_some, Option.elim_some, ih,
      List.map_append]

/-- Every visit has a page size, and no key twice. -/
theorem visited (h : Browse platform principal filter before s visits items left) :
    ∀ visit ∈ visits, 0 < visit.limit ∧ visit.keys.Nodup := by
  induction h with
  | stop before s => exact fun visit hvisit => absurd hvisit List.not_mem_nil
  | @last s timeline l page hfilter hpage hnext =>
    exact List.forall_mem_singleton.mpr ⟨l.maxItems_pos, l.nodup_keys _⟩
  | @next s timeline l page c visits items left hfilter hpage hnext events hrest ih =>
    exact List.forall_mem_cons.mpr ⟨⟨l.maxItems_pos, l.nodup_keys _⟩, ih⟩

end Browse

/-! ## Rows keep their keys -/

/-- The cursor of a row that the store has. -/
def ListingFilter.Dates (s : Store) : ListingFilter → Cursor → Prop
  | .jobs _ _, c => ∃ j ∈ s.queue.jobs, j.cursor = c
  | _, c => ∃ o ∈ s.anchor.objects, c = ⟨o.createdAt, o.id⟩

/-- A shown row is one that the store has. -/
theorem Listing.Shows.dates {v : View} {l : Listing} {item : Listed} (h : l.Shows v item) :
    l.filter.Dates v.store item.cursor := by
  cases l with
  | episodes data =>
    cases item with
    | episode summary =>
      obtain ⟨e, -, hsummary⟩ := List.mem_filterMap.mp h
      obtain ⟨o, hobject, hsummary⟩ := Option.bind_eq_some_iff.mp hsummary
      obtain ⟨ho, hid, -⟩ := View.object?_eq_some.mp hobject
      split at hsummary
      · cases hsummary
        exact ⟨o, ho, by rw [hid]; rfl⟩
      · cases hsummary
    | entity summary => cases h
    | job j => cases h
  | entities data =>
    cases item with
    | entity summary =>
      obtain ⟨counted, hcounted, rfl⟩ := h
      obtain ⟨e, -, hsummary⟩ := List.mem_filterMap.mp hcounted
      obtain ⟨o, hobject, hsummary⟩ := Option.bind_eq_some_iff.mp hsummary
      obtain ⟨ho, hid, -⟩ := View.object?_eq_some.mp hobject
      split at hsummary
      · cases hsummary
        exact ⟨o, ho, by rw [hid]; rfl⟩
      · cases hsummary
    | episode summary => cases h
    | job j => cases h
  | jobs data =>
    cases item with
    | job j => exact ⟨_, List.mem_of_mem_filter (List.mem_of_mem_filter h.1), rfl⟩
    | episode summary => cases h
    | entity summary => cases h

/-- **A row keeps its cursor.** -/
theorem ListingFilter.Dates.unique {s s' : Store} {filter : ListingFilter} {c c' : Cursor}
    (hsteady : Steady s s') (hkeys : ForeignKeys s) (h : filter.Dates s c) (h' : filter.Dates s' c')
    (hid : c.memoryId = c'.memoryId) : c = c' := by
  have hobject : (∃ o ∈ s.anchor.objects, c = ⟨o.createdAt, o.id⟩) →
      (∃ o ∈ s'.anchor.objects, c' = ⟨o.createdAt, o.id⟩) → c = c' := by
    rintro ⟨o, ho, rfl⟩ ⟨o', ho', rfl⟩
    obtain rfl : o' = o := hsteady.object_eq ho ho' hid.symm
    rfl
  cases filter with
  | episodes scopeIds occurredFrom occurredTo => exact hobject h h'
  | entities scopeIds entityType canonicalLabel => exact hobject h h'
  | jobs scopeIds states =>
    obtain ⟨j, hj, rfl⟩ := h
    obtain ⟨j', hj', rfl⟩ := h'
    have hsame : j'.id = j.id := hid.symm
    rw [JobRow.cursor, JobRow.cursor, hsteady.createdAt_eq hkeys hj hj' hsame, hsame]

namespace Browse

variable {platform : Platform} {principal : UUID} {filter : ListingFilter} {before : Option Cursor}
  {s : Store} {visits : List (Paging.Visit ListingKey)} {items : List Listed}
  {left : Option (Option Cursor)}

/-- Every item is a row of the store of its page. -/
theorem dates (h : Browse platform principal filter before s visits items left) (hs : Sound s) :
    ∀ item ∈ items, ∃ s', Steady s s' ∧ filter.Dates s' item.cursor := by
  induction h with
  | stop before s => exact fun item hitem => absurd hitem List.not_mem_nil
  | @last s timeline l page hfilter hpage hnext =>
    exact fun item hitem => ⟨s, .refl s,
      hfilter ▸ ((listingPage_of_ask hpage).shows item hitem).dates⟩
  | @next s timeline l page c visits items left hfilter hpage hnext events hrest ih =>
    intro item hitem
    rcases List.mem_append.mp hitem with hshown | hlater
    · exact ⟨s, .refl s, hfilter ▸ ((listingPage_of_ask hpage).shows item hshown).dates⟩
    · obtain ⟨s', hsteady, hdates⟩ := ih (hs.run events) item hlater
      exact ⟨s', (hs.steady_run events).trans hsteady, hdates⟩

/-- Items of one id have one cursor. -/
theorem consistent (h : Browse platform principal filter before s visits items left)
    (hs : Sound s) :
    items.Pairwise fun i j => i.cursor.memoryId = j.cursor.memoryId → i.cursor = j.cursor := by
  induction h with
  | stop before s => exact .nil
  | @last s timeline l page hfilter hpage hnext =>
    refine List.pairwise_of_forall_mem_list fun i hi j hj hid => ?_
    have hdates := fun k hk => ((listingPage_of_ask hpage).shows k hk).dates
    exact (hdates i hi).unique (.refl s) hs.integrity.foreign (hdates j hj) hid
  | @next s timeline l page c visits items left hfilter hpage hnext events hrest ih =>
    have hdates := fun k hk => ((listingPage_of_ask hpage).shows k hk).dates
    refine List.pairwise_append.mpr ⟨?_, ih (hs.run events), fun i hi j hj hid => ?_⟩
    · refine List.pairwise_of_forall_mem_list fun i hi j hj hid => ?_
      exact (hdates i hi).unique (.refl s) hs.integrity.foreign (hdates j hj) hid
    · obtain ⟨s', hsteady, hlater⟩ := hrest.dates (hs.run events) j hj
      exact (hfilter ▸ hdates i hi).unique ((hs.steady_run events).trans hsteady)
        hs.integrity.foreign hlater hid

end Browse

/-! ## The guarantee -/

/-- **What browsing shows**, from a cursor on. -/
structure Browsed (before : Option Cursor) (visits : List (Paging.Visit ListingKey))
    (items : List Listed) (left : Option (Option Cursor)) : Prop where
  /-- From the latest down, by time and id. -/
  descending : (items.map Listed.key).Pairwise (· > ·)
  /-- No row twice. -/
  distinct : (items.map fun item => item.cursor.memoryId).Nodup
  below : ∀ item ∈ items, Paging.Below (before.map Cursor.key) item.key
  /-- What matches at every visit is shown, or is still below the cursor that is left. -/
  complete : ∀ k, Paging.Below (before.map Cursor.key) k → (∀ visit ∈ visits, k ∈ visit.keys) →
    k ∈ items.map Listed.key ∨ ∃ c, left = some c ∧ Paging.Below (c.map Cursor.key) k
  /-- While nothing below the start comes or goes, what is shown and what remains are what there
    was,
  and more visits than rows leave no cursor. -/
  exact : ∀ keys : List ListingKey, keys.Nodup → (∀ visit ∈ visits, ∀ k,
      Paging.Below (before.map Cursor.key) k → (k ∈ visit.keys ↔ k ∈ keys)) →
    items.map Listed.key ++ (left.elim [] fun c => Paging.remaining (c.map Cursor.key) keys)
        = Paging.remaining (before.map Cursor.key) keys
      ∧ ((Paging.remaining (before.map Cursor.key) keys).length < visits.length → left = none)

/-- **Browsing loses and repeats nothing.** -/
theorem Browse.browsed {platform : Platform} {principal : UUID} {filter : ListingFilter}
    {before : Option Cursor} {s : Store} {visits : List (Paging.Visit ListingKey)}
    {items : List Listed} {left : Option (Option Cursor)} (hs : Sound s)
    (h : Browse platform principal filter before s visits items left) :
    Browsed before visits items left := by
  have hfollow := h.follow
  have hvisited := h.visited
  have hdescending : (items.map Listed.key).Pairwise (· > ·) := by
    have hpairwise : (Paging.follow (before.map Cursor.key) visits).1.Pairwise (· > ·) :=
      Paging.pairwise_follow fun visit hvisit => (hvisited visit hvisit).2
    rw [hfollow] at hpairwise
    exact hpairwise
  refine ⟨hdescending, ?_, fun item hitem => ?_, fun k hk hthere => ?_, fun keys hnodup hsame =>
    ⟨?_, ?_⟩⟩
  · -- two items of one id would have one key
    rw [List.Nodup, List.pairwise_map]
    refine ((List.pairwise_map.mp hdescending).and (h.consistent hs)).imp fun hboth hid => ?_
    exact absurd (congrArg Cursor.key (hboth.2 hid)) (ne_of_gt hboth.1)
  · have hshown : item.key ∈ (Paging.follow (before.map Cursor.key) visits).1 := by
      rw [hfollow]
      exact List.mem_map_of_mem hitem
    exact Paging.below_of_follow hshown
  · rcases Paging.shown_of_follow hvisited hk hthere with hshown | ⟨c, hleft, hbelow⟩
    · rw [hfollow] at hshown
      exact Or.inl hshown
    · rw [hfollow] at hleft
      obtain ⟨c', rfl, rfl⟩ := Option.map_eq_some_iff.mp hleft
      exact Or.inr ⟨c', rfl, hbelow⟩
  · have happend := Paging.follow_append hnodup hvisited hsame
    rw [hfollow] at happend
    refine Eq.trans ?_ happend
    cases left <;> rfl
  · intro hmany
    have hfinished := Paging.follow_finishes hnodup hvisited hsame hmany
    rw [hfollow] at hfinished
    exact Option.map_eq_none_iff.mp hfinished

/-- **Paging through listings.** What matches are the rows that the listing asks for; a page comes unless
something refuses it; it shows the matching rows that are the first below its cursor, and has no next
cursor exactly when none remains; and following the cursors, with pages of any sizes and whatever happens
in between, loses and repeats nothing. -/
theorem listing_pages {platform : Platform} {s : Store} (hs : Sound s) {principal : UUID}
    (hknown : (s.access.principals.find? principal).isSome = true) :
    (∀ (l : Listing) (timeline : Timeline),
        (∀ k scope, ((Session.start principal s).view (timeline.moment k)).permitted scope .read
          = (asking principal timeline s).permitted scope .read) →
        ((∃ page, ask platform principal timeline l.page s = .ok page)
            ↔ ∀ fault, ¬l.Refuses (asking principal timeline s) fault)
          ∧ ∀ fault, ask platform principal timeline l.page s = .error fault →
            l.Refuses (asking principal timeline s) fault)
      ∧ (∀ (l : Listing) (timeline : Timeline) (page : Page Listed),
        ask platform principal timeline l.page s = .ok page →
          ListingPage l (asking principal timeline s) page
            ∧ (page.nextCursor = none ↔ page.items.map Listed.key
              = Paging.remaining (l.before.map Cursor.key) (l.keys (asking principal timeline s))))
      ∧ (∀ filter before visits items left,
        Browse platform principal filter before s visits items left →
          Browsed before visits items left)
      ∧ ∀ (l : Listing) (timeline : Timeline),
        (∀ item, l.Shows (asking principal timeline s) item
          ↔ s.Lists (fun scope => (asking principal timeline s).permitted scope .read = true) principal
            l.filter item)
          ∧ ∀ k, k ∈ l.keys (asking principal timeline s)
            ↔ ∃ item, l.Shows (asking principal timeline s) item ∧ item.key = k := by
  refine ⟨fun l timeline hsteady => ?_, fun l timeline page hpage => ?_,
    fun filter before visits items left h => h.browsed hs,
    fun l timeline => ⟨l.shows_iff hs.grounded, fun k => Listing.mem_keys_iff⟩⟩
  · have houtcome : Outcome platform timeline l.page
        (fun _ _ _ => ∀ fault, ¬l.Refuses (asking principal timeline s) fault)
        (l.Refuses (asking principal timeline s)) 1 (.start principal s) :=
      l.outcome_refuses hs.grounded hsteady
    rcases ask_cases l.readOnly_page hs.integrity.deferred hknown houtcome with
      ⟨page, heq, hnone⟩ | ⟨fault, heq, hrefuses⟩
    · refine ⟨iff_of_true ⟨page, heq⟩ hnone, fun fault heq' => ?_⟩
      rw [heq] at heq'
      cases heq'
    · refine ⟨iff_of_false ?_ fun hnone => hnone fault hrefuses, fun fault' heq' => ?_⟩
      · rintro ⟨page, heq'⟩
        rw [heq] at heq'
        cases heq'
      · obtain rfl := Except.error.inj (heq.symm.trans heq')
        exact hrefuses
  · have hkeys := listingPage_of_ask hpage
    refine ⟨hkeys, ?_⟩
    obtain ⟨hitems, hcursor⟩ : page.items.map Listed.key = (Paging.page l.maxItems
          (l.before.map Cursor.key) (l.keys (asking principal timeline s))).1
        ∧ page.nextCursor.map Cursor.key = (Paging.page l.maxItems
          (l.before.map Cursor.key) (l.keys (asking principal timeline s))).2 := by
      rw [← hkeys.keys]
      exact ⟨rfl, rfl⟩
    rw [hitems, ← Paging.page_snd_eq_none_iff l.maxItems_pos, ← hcursor, Option.map_eq_none_iff]

/-- A page of one episode of the small tenant. -/
def QueryEpisodes.single (before : Option Cursor) : QueryEpisodes where
  scopeIds := [2]
  maxItems := 1
  before := before

/-- The episode that the first page has shown is purged. -/
def Event.thinning : List Event :=
  [.call ⟨1, .ticking 700 1000, .forget { memoryIds := [507], reason := .brief } "forget"⟩]

/-- The first and the second page of the episodes of the small tenant. -/
def Page.first : Except Fault (Page Listed) :=
  ask .plain 1 (.ticking 600 600) (Listing.page (.episodes (.single none))) .accompanied

/-- The page below the cursor of the first one. -/
def Page.second : Except Fault (Page Listed) :=
  ask .plain 1 (.ticking 900 600) (Listing.page (.episodes (.single (some ⟨408, 507⟩))))
    (runEvents .plain Event.thinning .accompanied)

/-- The small tenant browses its two episodes, a page each, and the first one is purged in between:
nothing is lost, and nothing is shown twice. -/
theorem listing_pages_browsed : ∃ page page', Page.first = .ok page ∧ Page.second = .ok page'
    ∧ page.items.map Listed.key = [toLex (408, 507)] ∧ page'.items.map Listed.key = [toLex (8, 107)]
    ∧ ListingPage (.episodes (.single none)) (asking 1 (.ticking 600 600) .accompanied) page
    ∧ Browsed none
        [Listing.visit (.episodes (.single none)) (asking 1 (.ticking 600 600) .accompanied),
          Listing.visit (.episodes (.single (some ⟨408, 507⟩)))
            (asking 1 (.ticking 900 600) (runEvents .plain Event.thinning .accompanied))]
        (page.items ++ page'.items) none := by
  have hknown : (Store.accompanied.access.principals.find? 1).isSome = true := by decide +kernel
  have hfirst : Page.first.toOption.any (fun page =>
      decide (page.nextCursor = some ⟨408, 507⟩)
        && decide (page.items.map Listed.key = [toLex (408, 507)])) = true := by decide +kernel
  have hsecond : Page.second.toOption.any (fun page => decide (page.nextCursor = none)
      && decide (page.items.map Listed.key = [toLex (8, 107)])) = true := by decide +kernel
  obtain ⟨page, hpage, hfirst⟩ := (Option.any_eq_true _ _).mp hfirst
  obtain ⟨page', hpage', hsecond⟩ := (Option.any_eq_true _ _).mp hsecond
  have hpage := toOption_eq_some.mp hpage
  have hpage' := toOption_eq_some.mp hpage'
  simp only [Bool.and_eq_true, decide_eq_true_eq] at hfirst hsecond
  have hguarantee := @listing_pages .plain _ reachable_accompanied.sound _ hknown
  obtain ⟨-, hpages, hbrowses, -⟩ := hguarantee
  have hbrowse : Browse .plain 1 (.episodes [2] none none) none .accompanied _ _ none :=
    .next rfl hpage hfirst.1 Event.thinning (.last rfl hpage' hsecond.1)
  exact ⟨page, page', hpage, hpage', hfirst.2, hsecond.2, (hpages _ _ page hpage).1,
    hbrowses _ _ _ _ _ hbrowse⟩

/-- A page of the entities of the small tenant. -/
def QueryEntities.brief : QueryEntities where
  scopeIds := [2]

/-- The small tenant after the purge of an entity: the membership expired when its evidence was
erased, and was granted again. -/
def Store.hollow : Store :=
  runEvents .plain [
    .call ⟨1, .ticking 0 100, .observe (.brief 2) "key"⟩,
    .call ⟨1, .ticking 200 300, .createEntity .brief "key"⟩,
    .call ⟨1, .ticking 600 1000, .forget { memoryIds := [308], reason := .brief } "forget"⟩,
    .renewal] (.provisioned (.sole 1 2 (some 622)))

/-- **A listing that fails**: an entity matches and can be read, but has no evidence. -/
theorem listing_fails :
    Reachable .plain .hollow
      ∧ Listing.keys (asking 1 (.ticking 800 900) .hollow) (.entities .brief) = [toLex (209, 308)]
      ∧ Holds (.ticking 800 900) (.start 1 .hollow) 2 .read
      ∧ ask .plain 1 (.ticking 800 900) (Listing.page (.entities .brief)) .hollow
        = .error (.memory .entityInvalidated) :=
  ⟨(Reachable.provisioned _).run _, by decide +kernel, holds_of_lasting (by decide +kernel),
    faultOf?_eq_some.mp (by decide +kernel)⟩

end PgAgmemory

import PgAgmemory.System.Runs

/-! # The lexical index

Writers keep a Japanese projection of every episode and revision beside it. The maintenance command
`rebuild` deletes all projections and makes them anew from what is stored, for the live objects of every
tenant, in one transaction that row security does not filter. -/

namespace PgAgmemory

open Keyed (HasKey Table key)

/-! ## Projections -/

section Projections

variable (platform : Platform)

/-- The projection of an episode. -/
def EpisodeRow.projection? (e : EpisodeRow) : Option EpisodeLexicalRow :=
  (platform.segment e.content.str).map fun text => ⟨e.id, e.scopeId, [text]⟩

/-- The projection of a revision of an assertion. -/
def AssertionRow.projection? (a : AssertionRow) (r : AssertionRevisionRow) :
    Option AssertionLexicalRow :=
  (platform.segment (a.subject.str ++ " " ++ a.predicate.str ++ " " ++ r.value.str)).map fun text =>
    ⟨a.id, r.revision, a.scopeId, [text]⟩

end Projections

/-- `JAPANESE_PROFILE`. -/
def japaneseProfile : String := "ja-janome-0.5.0-v1"

/-! ## One tenant -/

/-- Whether an object is there and not deleted. -/
def Store.live (s : Store) (id : UUID) : Bool :=
  s.anchor.objects.rows.any (fun o => decide (o.id = id))
    && s.anchor.tombstones.rows.all fun t => decide (t.objectId ≠ id)

/-- The live episodes. -/
def Store.liveEpisodes (s : Store) : List EpisodeRow :=
  s.contents.episodes.rows.filter fun e => s.live e.id

/-- The revisions of the live assertions. -/
def Store.liveRevisions (s : Store) : List (AssertionRow × AssertionRevisionRow) :=
  (s.contents.assertions.rows.filter fun a => s.live a.id).flatMap fun a =>
    (s.contents.revisions.rows.filter fun r => decide (r.assertionId = a.id)).map fun r => (a, r)

/-- Whether the row that a projection of a revision refers to is there. -/
def Store.projectable (s : Store) (row : AssertionLexicalRow) : Bool :=
  s.contents.revisions.rows.any fun r =>
    decide ((r.assertionId, r.revision, r.scopeId) = (row.assertionId, row.revision, row.scopeId))

/-- The new projections of episodes; an insertion that violates a key aborts. -/
def Store.rebuildEpisodes (platform : Platform) (s : Store) : Option (Table EpisodeLexicalRow) := do
  let rows ← s.liveEpisodes.mapM (EpisodeRow.projection? platform)
  (∅ : Table EpisodeLexicalRow).insertAll? rows

/-- The new projections of revisions. -/
def Store.rebuildRevisions (platform : Platform) (s : Store) : Option (Table AssertionLexicalRow) := do
  let rows ← s.liveRevisions.mapM fun ar => ar.1.projection? platform ar.2
  if rows.all s.projectable then (∅ : Table AssertionLexicalRow).insertAll? rows else none

/-- The store with other projections. -/
def Store.withProjections (s : Store) (episodeLexical : Table EpisodeLexicalRow)
    (assertionLexical : Table AssertionLexicalRow) : Store :=
  { s with contents := { s.contents with
      episodeLexical := episodeLexical, assertionLexical := assertionLexical } }

/-- The store of one tenant after `rebuild`. -/
def Store.rebuild (platform : Platform) (s : Store) : Option Store := do
  let episodes ← s.rebuildEpisodes platform
  let revisions ← s.rebuildRevisions platform
  pure (s.withProjections episodes revisions)

/-! ## All tenants -/

/-- A tenant and what it stores. -/
structure Tenant where
  id : UUID
  store : Store

instance : HasKey Tenant UUID := ⟨Tenant.id⟩

/-- An installation: its tenants. -/
abbrev Installation := Table Tenant

/-- What `rebuild` reports. -/
structure Rebuilt where
  profile : String
  episodes : Nat
  assertionRevisions : Nat
  deriving DecidableEq

/-- A tenant after `rebuild`; one whose projections cannot be made anew aborts the command. -/
def Tenant.rebuilt (platform : Platform) (t : Tenant) : Tenant :=
  ⟨t.id, (t.store.rebuild platform).getD t.store⟩

/-- **`rebuild`**: the projections of all tenants are made anew, or the transaction aborts. -/
def Installation.rebuild (platform : Platform) (i : Installation) : Option (Rebuilt × Installation) :=
  if i.rows.all fun t => (t.store.rebuild platform).isSome then
    some (⟨japaneseProfile, (i.rows.map fun t => t.store.liveEpisodes.length).sum,
        (i.rows.map fun t => t.store.liveRevisions.length).sum⟩,
      i.update (fun _ => true) (Tenant.rebuilt platform) fun _ => rfl)
  else none

/-- An installation after an event of one of its tenants. -/
def Installation.exec (platform : Platform) (tenant : UUID) (e : Event) (i : Installation) :
    Installation :=
  i.update (fun t => decide (t.id = tenant)) (fun t => ⟨t.id, e.exec platform t.store⟩) fun _ => rfl

/-- **The reachable installations**: tenants are provisioned and take events, in any order. -/
inductive Installation.Reachable (platform : Platform) : Installation → Prop where
  | empty : Installation.Reachable platform ∅
  | provisioned {i i' : Installation} (h : Installation.Reachable platform i) (tenant : UUID)
    (access : Access) (hnew : i.insert? ⟨tenant, .provisioned access⟩ = some i') :
    Installation.Reachable platform i'
  | event {i : Installation} (h : Installation.Reachable platform i) (tenant : UUID) (e : Event) :
    Installation.Reachable platform (i.exec platform tenant e)

end PgAgmemory

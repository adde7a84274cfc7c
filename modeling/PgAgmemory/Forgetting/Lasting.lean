import PgAgmemory.Forgetting.Purged
import Mathlib.Data.Set.Card

/-! # Purges whose membership lasts

When an admitted purge fails (`Fails`), and when its caller can still read the requested scopes at the
statement that marks the targets (`Lasts`). A purge that commits and lasts erases and marks all of its
targets, and nothing else (`PurgeLeaves.wholesale`). -/

namespace PgAgmemory

open Keyed (HasKey Table key)

/-- **An erased object**: a tombstone marks it, and none of its content is left. -/
def Erased (s : Store) (id : UUID) : Prop :=
  (∃ t ∈ s.anchor.tombstones, t.objectId = id) ∧ ¬ HasContent s id

section Condition

variable (timeline : Timeline) (principal : UUID) (s : Store) (data : Forget)

/-- One statement of the purge can read a scope. -/
def ReadableBy (purgeStep : PurgeStep) (scope : UUID) : Prop :=
  (viewAt timeline principal s (closureMoment data + 1 + purgeStep.rank)).permitted scope .read = true

/-- **An admitted purge fails** when too much is derived from its objects, when its deletion id is
taken, or when a scope becomes unreadable just between the deletion of revisions and of their heads. -/
def Fails : Prop :=
  closureLimit data < {id | Selected timeline principal s data id}.ncard
  ∨ (∃ r ∈ s.operations.deletions, r.id = (timeline.moment (closureMoment data + 20)).uuid)
  ∨ (∃ a ∈ s.contents.assertions, Selected timeline principal s data a.id
      ∧ ReadableBy timeline principal s data .revisions a.scopeId
      ∧ ¬ ReadableBy timeline principal s data .assertions a.scopeId)
  ∨ ∃ e ∈ s.ledger.effects, Selected timeline principal s data e.id
      ∧ ReadableBy timeline principal s data .effectRevisions e.scopeId
      ∧ ¬ ReadableBy timeline principal s data .effects e.scopeId

/-- **The membership lasts**: when the purge marks its targets, every requested scope is still
readable. -/
def Lasts : Prop :=
  ∀ r ∈ data.memoryIds, ∀ scope, Anchored s r scope →
    (viewAt timeline principal s (closureMoment data + 18)).permitted scope .read = true

end Condition

section Lasting

variable {platform : Platform} {timeline : Timeline} {principal : UUID} {s : Store} {data : Forget}
  {key : String}

/-- As many targets as are selected. -/
theorem length_targetsOf (hs : Grounded s) :
    (targetsOf timeline principal s data).length
      = {id | Selected timeline principal s data id}.ncard := by
  have hset : {id | Selected timeline principal s data id}
      = ((targetsOf timeline principal s data).toFinset : Set UUID) := by
    ext id
    rw [Finset.mem_coe, List.mem_toFinset]
    exact (mem_targetsOf hs).symm
  rw [hset, Set.ncard_coe_finset, List.toFinset_card_of_nodup nodup_targetsOf]

/-- What makes a purge fail, in terms of what is derived. -/
theorem purgeRefused_iff (hs : Grounded s) :
    PurgeRefused timeline principal s data ↔ Fails timeline principal s data := by
  unfold PurgeRefused Fails Cut ReadableBy
  simp only [length_targetsOf hs, mem_targetsOf hs, Bool.not_eq_true]

/-- The membership lasts when every target is readable at the marking statement. -/
theorem lasts_iff (hs : Grounded s) (h : Deletable timeline principal s 4 data.memoryIds) :
    Lasts timeline principal s data
      ↔ ∀ id ∈ targetsOf timeline principal s data, ∀ scope, Anchored s id scope →
        (viewAt timeline principal s (closureMoment data + 18)).permitted scope .read = true := by
  constructor
  · intro hlasts id hid scope ha
    obtain ⟨r, hr, o, hfind, hlive, -⟩ := targetsOf_live hs h id hid
    obtain rfl := ha.unique hlive.anchored
    obtain ⟨ho, hkey⟩ := Table.find?_eq_some_iff.mp hfind
    exact hlasts r hr _ ⟨o, ho, hkey, rfl⟩
  · intro htargets r hr scope ha
    exact htargets r ((mem_targetsOf hs).mpr ⟨r, hr, Or.inl rfl⟩) scope ha

/-- **What is marked is erased**: a target that is readable at the marking statement. -/
theorem PurgeLeaves.erased {s' : Store} (hs : Grounded s)
    (hadmits : Admits platform timeline principal s data key)
    (hrefused : ¬ PurgeRefused timeline principal s data)
    (h : PurgeLeaves platform timeline principal s data key s') {id scope : UUID}
    (hid : id ∈ targetsOf timeline principal s data) (ha : Anchored s id scope)
    (hread : (viewAt timeline principal s (closureMoment data + 18)).permitted scope .read = true) :
    Erased s' id ∧ ∀ p, goneAt timeline principal s (targetsOf timeline principal s data)
      (closureMoment data + 1) p id = true := by
  have htargets := targets_targetsOf hs hadmits.deletable
  have hpurged := h.purged hs hadmits hrefused
  obtain ⟨o, ho, rfl, rfl⟩ := ha
  have hgone := goneAt_of_mark hs htargets ho hid hread
  obtain ⟨tombstones, operations, hmarks, -, rfl⟩ := h
  exact ⟨⟨⟨_, (hmarks _).mpr (Or.inr ⟨o, ho, hid, hread, rfl⟩), rfl⟩,
    hpurged.not_hasContent hgone⟩, hgone⟩

/-- **A wholesale purge**: the same objects are gone for every statement, and all of them are marked. -/
structure Wholesale (s s' : Store) (erased : UUID → Bool) : Prop where
  purged : Purged s s' fun _ => erased
  marked : ∀ id, erased id = true → ∃ t ∈ s'.anchor.tombstones, t.objectId = id

/-- **A purge that lasts is wholesale.** -/
theorem PurgeLeaves.wholesale {s' : Store} (hs : Grounded s)
    (hadmits : Admits platform timeline principal s data key)
    (hrefused : ¬ PurgeRefused timeline principal s data)
    (h : PurgeLeaves platform timeline principal s data key s')
    (hlasts : Lasts timeline principal s data) :
    Wholesale s s' fun id => decide (id ∈ targetsOf timeline principal s data) := by
  have htargets := targets_targetsOf hs hadmits.deletable
  have herased : ∀ id ∈ targetsOf timeline principal s data, Erased s' id
      ∧ ∀ p, goneAt timeline principal s (targetsOf timeline principal s data)
        (closureMoment data + 1) p id = true := by
    intro id hid
    obtain ⟨scope, ha⟩ := htargets.anchored id hid
    exact h.erased hs hadmits hrefused hid ha
      ((lasts_iff hs hadmits.deletable).mp hlasts id hid scope ha)
  have hgone : goneAt timeline principal s (targetsOf timeline principal s data)
      (closureMoment data + 1) = fun _ id => decide (id ∈ targetsOf timeline principal s data) := by
    funext p id
    by_cases hid : id ∈ targetsOf timeline principal s data
    · rw [(herased id hid).2 p, decide_eq_true hid]
    · rw [goneAt, View.removes, decide_eq_false hid, Bool.false_and]
  refine ⟨hgone ▸ h.purged hs hadmits hrefused, fun id hid => ?_⟩
  exact (herased id (of_decide_eq_true hid)).1.1

end Lasting

end PgAgmemory

import PgAgmemory.Forgetting.Lasting
import PgAgmemory.History.Sound

/-! # A purge is all or nothing

An admitted purge either fails without a change, or erases and marks everything that its closure query
selected: this holds exactly when the purge fails anyway, or the caller can still read the requested
scopes when the purge marks its targets (`purge_allOrNothing_iff`). When a membership expires between
the two, the deletion and marking statements skip what the policies hide from them, and the receipt
counts what was not erased (`purge_not_allOrNothing`). -/

namespace PgAgmemory

open Keyed (HasKey Table key)

/-- **All or nothing**: the request fails and changes nothing, or its receipt counts the targets and
every one of them is erased. -/
def AllOrNothing (s : Store) (targets : List UUID) (result : Except Fault Response × Store) : Prop :=
  (∃ fault, result = (.error fault, s)) ∨
    ((∃ deletionId epoch scopes, result.1
        = .ok (.deletion (.purged (.deletion deletionId targets.length epoch scopes))))
      ∧ targets.Nodup ∧ ∀ id ∈ targets, Erased result.2 id)

section Guarantee

variable {platform : Platform} {timeline : Timeline} {principal : UUID} {s : Store} {data : Forget}
  {key : String}

/-- **An admitted purge is all or nothing exactly** when it fails anyway or the membership lasts. -/
theorem purge_allOrNothing_iff (hreachable : Reachable platform s) (hmode : data.mode = .purge)
    (hadmits : Admits platform timeline principal s data key) :
    AllOrNothing s (targetsOf timeline principal s data)
        (Call.exec platform ⟨principal, timeline, .forget data key⟩ s)
      ↔ Fails timeline principal s data ∨ Lasts timeline principal s data := by
  have hs := hreachable.sound
  have htargets := targets_targetsOf hs.grounded hadmits.deletable
  rw [← purgeRefused_iff hs.grounded, lasts_iff hs.grounded hadmits.deletable]
  by_cases hrefused : PurgeRefused timeline principal s data
  · obtain ⟨fault, herror⟩ :=
      attempt_purge_refused hs.grounded hs.integrity hs.auditFresh hmode hadmits hrefused
    refine iff_of_true (Or.inl ⟨fault, ?_⟩) (Or.inl hrefused)
    rw [Call.exec, transact, herror]
  · obtain ⟨s', hok, hleaves⟩ :=
      attempt_purge hs.grounded hs.integrity hs.auditFresh hmode hadmits hrefused
    have hexec : Call.exec platform ⟨principal, timeline, .forget data key⟩ s
        = (.ok (purgeResponse timeline principal s data), s') := by
      rw [Call.exec, transact, hok]
    rw [hexec]
    constructor
    · rintro (⟨fault, herror⟩ | ⟨-, -, herased⟩)
      · cases (Prod.mk.inj herror).1
      · refine Or.inr fun id hid scope ha => ?_
        obtain ⟨tombstones, operations, hmarks, -, rfl⟩ := hleaves
        obtain ⟨t, ht, hmark⟩ := (herased id hid).1
        rcases (hmarks t).mp ht with hold | ⟨o, ho, -, hread, rfl⟩
        · exact absurd hmark (htargets.live id hid t hold)
        · exact ha.unique ⟨o, ho, hmark, rfl⟩ ▸ hread
    · rintro (h | hlasts)
      · exact absurd h hrefused
      · refine Or.inr ⟨⟨_, _, _, rfl⟩, nodup_targetsOf, fun id hid => ?_⟩
        obtain ⟨scope, ha⟩ := htargets.anchored id hid
        exact (hleaves.erased hs.grounded hadmits hrefused hid ha (hlasts id hid scope ha)).1

end Guarantee

/-! ## A membership that expires -/

/-- Forget the observation of the small tenant. -/
def Forget.observation : Forget where
  memoryIds := [107]
  reason := .brief

/-- The small tenant admits the purge of its observation: its membership expires when the purge marks
its targets. -/
theorem admits_observation :
    Admits .plain (.ticking 100 1000) 1 (.observed (some 124)) .observation "forget" where
  authenticated := by decide +kernel
  fresh := Option.isNone_iff_eq_none.mp (by decide +kernel)
  deletable := by decide +kernel

/-- The rule at the small tenant. -/
theorem purge_allOrNothing_observation :
    AllOrNothing (.observed (some 124))
        (targetsOf (.ticking 100 1000) 1 (.observed (some 124)) .observation)
        (Call.exec .plain ⟨1, .ticking 100 1000, .forget .observation "forget"⟩
          (.observed (some 124)))
      ↔ Fails (.ticking 100 1000) 1 (.observed (some 124)) .observation
        ∨ Lasts (.ticking 100 1000) 1 (.observed (some 124)) .observation :=
  purge_allOrNothing_iff (reachable_observed _) rfl admits_observation

/-- **A purge that is neither**: the observation is erased, but not marked. -/
theorem purge_not_allOrNothing :
    Reachable .plain (.observed (some 124))
      ∧ Admits .plain (.ticking 100 1000) 1 (.observed (some 124)) .observation "forget"
      ∧ ¬ AllOrNothing (.observed (some 124))
        (targetsOf (.ticking 100 1000) 1 (.observed (some 124)) .observation)
        (Call.exec .plain ⟨1, .ticking 100 1000, .forget .observation "forget"⟩
          (.observed (some 124))) := by
  refine ⟨reachable_observed _, admits_observation, ?_⟩
  rintro (⟨fault, herror⟩ | ⟨-, -, herased⟩)
  · have hok : (Call.exec .plain ⟨1, .ticking 100 1000, .forget .observation "forget"⟩
        (.observed (some 124))).1.toBool = true := by decide +kernel
    rw [herror] at hok
    cases hok
  · have htarget : 107 ∈ targetsOf (.ticking 100 1000) 1 (.observed (some 124)) .observation := by
      decide +kernel
    obtain ⟨t, ht, -⟩ := (herased 107 htarget).1
    have hnone : (Call.exec .plain ⟨1, .ticking 100 1000, .forget .observation "forget"⟩
        (.observed (some 124))).2.anchor.tombstones.rows.length = 0 := by decide +kernel
    rw [List.length_eq_zero_iff] at hnone
    exact List.not_mem_nil (hnone ▸ Table.mem_rows.mpr ht)

end PgAgmemory

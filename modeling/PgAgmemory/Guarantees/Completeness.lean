import PgAgmemory.Guarantees.AllOrNothing

/-! # A purge is complete

When the caller keeps the permissions that a purge needs and no more is derived from the requested
objects than the limit allows, the purge commits: no statement breaks a foreign key and no deferred
check fails. Afterwards nothing that was derived from a requested object, through any column that
refers to another object, has a row left or is referred to by one (`purge_complete`). -/

namespace PgAgmemory

open Keyed (HasKey Table key)

/-! ## References after an erasure -/

/-- A row that refers to an object is content of the object derived from it. -/
theorem Derives.hasContent {s : Store} {a b : UUID} (h : Derives s a b) : HasContent s b := by
  cases h with
  | evidence hr => exact .edge hr
  | input hr => exact .jobInput hr
  | result hj _ => exact .job hj
  | retry hj _ => exact .job hj
  | entityEvidence hr => exact .evidence hr
  | source hr => exact .relation hr
  | target hr => exact .target hr
  | checkpointReference hr => exact .checkpointReference hr
  | parent hc _ => exact .checkpoint hc
  | effectReference hr => exact .effectReference hr
  | run _ hc _ _ => exact .checkpoint hc

/-- An erasure adds no derivation. -/
theorem Derives.of_erase {s : Store} {gone : Gone} {a b : UUID} (h : Derives (s.erase gone) a b) :
    Derives s a b := by
  cases h with
  | evidence hr => exact .evidence (Table.mem_delete.mp hr).1
  | input hr => exact .input (Table.mem_delete.mp hr).1
  | result hj ha => exact .result (Table.mem_delete.mp hj).1 ha
  | retry hj hp => exact .retry (Table.mem_delete.mp hj).1 hp
  | entityEvidence hr => exact .entityEvidence (Table.mem_delete.mp hr).1
  | source hr => exact .source (Table.mem_delete.mp hr).1
  | target hr => exact .target (Table.mem_delete.mp hr).1
  | checkpointReference hr => exact .checkpointReference (Table.mem_delete.mp hr).1
  | parent hc hp => exact .parent (Table.mem_delete.mp hc).1 hp
  | effectReference hr => exact .effectReference (Table.mem_delete.mp hr).1
  | run he hc hscope hrun =>
    exact .run (Table.mem_delete.mp he).1 (Table.mem_delete.mp hc).1 hscope hrun

/-- Derivations depend on the tables of content only. -/
theorem Derives.congr {s s' : Store} {a b : UUID} (h : Derives s' a b)
    (hcontents : s'.contents = s.contents) (hgraph : s'.graph = s.graph)
    (hcheckpointing : s'.checkpointing = s.checkpointing) (hledger : s'.ledger = s.ledger)
    (hqueue : s'.queue = s.queue) : Derives s a b := by
  obtain ⟨access, anchor, contents, graph, checkpointing, ledger, queue, operations⟩ := s'
  dsimp only at hcontents hgraph hcheckpointing hledger hqueue
  subst hcontents hgraph hcheckpointing hledger hqueue
  cases h with
  | retry hj hp => exact .retry hj hp
  | run he hc hscope hrun => exact .run he hc hscope hrun
  | _ => constructor <;> assumption

/-- A purge adds no derivation. -/
theorem Purged.derives {s s' : Store} {gone : Gone} (h : Purged s s' gone) {a b : UUID}
    (hab : Derives s' a b) : Derives s a b :=
  (hab.congr h.contents h.graph h.checkpointing h.ledger h.queue).of_erase

/-- **What is gone for every statement is not referred to**: a row that refers to it belongs to an
object that is gone as well. -/
theorem Purged.not_derives {s s' : Store} {gone : Gone} (h : Purged s s' gone) {a b : UUID}
    (hgone : ∀ p, gone p a = true) : ¬ Derives s' a b := by
  intro hab
  have hderived : ∀ p, gone p b = true := fun p => h.coherent.derived p a b (h.derives hab) (hgone p)
  exact h.not_hasContent hderived hab.hasContent

/-! ## Completeness -/

section Condition

variable (timeline : Timeline) (principal : UUID) (s : Store) (data : Forget)

/-- **Derived from a requested object**, in any number of steps. -/
def DerivedFrom (id : UUID) : Prop :=
  ∃ r ∈ data.memoryIds, Relation.ReflTransGen (Derives s) r id

/-- **A caller entitled to a purge**: known to the tenant, and able to read and delete every requested
object, from the first statement of the request to its commit. -/
structure Entitled : Prop where
  known : (s.access.principals.find? principal).isSome = true
  keeps : ∀ r ∈ data.memoryIds, ∃ scope, Live s r scope ∧ ∀ n ≤ closureMoment data + 24,
    (viewAt timeline principal s n).permitted scope .read = true
      ∧ (viewAt timeline principal s n).permitted scope .delete = true

end Condition

section Guarantee

variable {platform : Platform} {timeline : Timeline} {principal : UUID} {s : Store} {data : Forget}
  {key : String}

/-- The requested objects of an entitled caller pass their checks. -/
theorem Entitled.deletable (hmarked : Marked s) (h : Entitled timeline principal s data) :
    Deletable timeline principal s 4 data.memoryIds := by
  intro i id hi
  obtain ⟨hlt, rfl⟩ := List.getElem?_eq_some_iff.mp hi
  obtain ⟨scope, ⟨⟨o, ho, hid, rfl⟩, hfree⟩, hkeeps⟩ :=
    h.keeps _ (List.getElem_mem hlt)
  have hbound : 4 + 2 * i + 1 ≤ closureMoment data + 24 := by
    unfold closureMoment
    omega
  obtain ⟨hread, hdelete⟩ := hkeeps _ hbound
  refine ⟨o, View.object?_eq_some.mpr ⟨ho, hid, ?_⟩, hread, hdelete⟩
  refine (View.readable_iff (v := viewAt timeline principal s (4 + 2 * i)) hmarked ho).mpr ?_
  exact ⟨(hkeeps _ (Nat.le_of_succ_le hbound)).1, hid ▸ hfree⟩

/-- An entitled caller with a new key is admitted. -/
theorem Entitled.admits (hmarked : Marked s) (h : Entitled timeline principal s data)
    (hnew : s.operations.receipts.find?
      (principal, Operation.forget, platform.hmac s.access.dedupSecret key) = none) :
    Admits platform timeline principal s data key :=
  ⟨h.known, hnew, h.deletable hmarked⟩

/-- For an entitled caller the closure query selects everything derived. -/
theorem Entitled.selected (h : Entitled timeline principal s data) {id : UUID} :
    Selected timeline principal s data id ↔ DerivedFrom s data id := by
  constructor
  · rintro ⟨r, hr, rfl | ⟨-, hpath⟩⟩
    · exact ⟨id, hr, .refl⟩
    · exact ⟨r, hr, hpath⟩
  · rintro ⟨r, hr, hpath⟩
    obtain ⟨scope, hlive, hkeeps⟩ := h.keeps r hr
    exact ⟨r, hr, Or.inr ⟨⟨scope, hlive.anchored, (hkeeps _ (Nat.le_add_right _ _)).1⟩, hpath⟩⟩

/-- An entitled caller can read every target until the commit. -/
theorem Entitled.readable (hs : Grounded s) (h : Entitled timeline principal s data) {id scope : UUID}
    (hid : id ∈ targetsOf timeline principal s data) (ha : Anchored s id scope) {n : Nat}
    (hn : n ≤ closureMoment data + 24) :
    (viewAt timeline principal s n).permitted scope .read = true := by
  obtain ⟨r, hr, hpath⟩ := h.selected.mp ((mem_targetsOf hs).mp hid)
  obtain ⟨scope', hlive, hkeeps⟩ := h.keeps r hr
  rw [ha.unique (hs.anchored_of_derives hlive.anchored hpath)]
  exact (hkeeps n hn).1

/-- Nothing makes the purge of an entitled caller fail. -/
theorem Entitled.not_refused (hs : Grounded s) (h : Entitled timeline principal s data)
    (hwithin : {id | DerivedFrom s data id}.ncard ≤ closureLimit data)
    (hunused : ∀ r ∈ s.operations.deletions,
      r.id ≠ (timeline.moment (closureMoment data + 20)).uuid) :
    ¬ PurgeRefused timeline principal s data := by
  have hcount : (targetsOf timeline principal s data).length ≤ closureLimit data := by
    rw [length_targetsOf hs]
    simpa only [h.selected] using hwithin
  rintro (hexceeds | ⟨r, hr, htaken⟩ | ⟨a, ha, hid, -, hlost⟩ | ⟨e, he, hid, -, hlost⟩)
  · exact absurd hcount (Nat.not_le_of_lt hexceeds)
  · exact hunused r hr htaken
  · have hrank := PurgeStep.assertions.rank_lt
    rw [h.readable hs hid (hs.assertion ha).anchored (by omega)] at hlost
    cases hlost
  · have hrank := PurgeStep.effects.rank_lt
    rw [h.readable hs hid (hs.effect he).anchored (by omega)] at hlost
    cases hlost

/-- **A purge is complete.** -/
theorem purge_complete (hreachable : Reachable platform s) (hmode : data.mode = .purge)
    (hentitled : Entitled timeline principal s data)
    (hnew : s.operations.receipts.find?
      (principal, Operation.forget, platform.hmac s.access.dedupSecret key) = none)
    (hunused : ∀ r ∈ s.operations.deletions,
      r.id ≠ (timeline.moment (closureMoment data + 20)).uuid)
    (hwithin : {id | DerivedFrom s data id}.ncard ≤ closureLimit data) :
    ∃ receipt s', Call.exec platform ⟨principal, timeline, .forget data key⟩ s
        = (.ok (.deletion (.purged receipt)), s')
      ∧ ∀ id, DerivedFrom s data id → Erased s' id ∧ ∀ b, ¬ Derives s' id b := by
  have hs := hreachable.sound
  have hadmits := hentitled.admits hs.grounded.foreign.marked hnew
  have hrefused := hentitled.not_refused hs.grounded hwithin hunused
  obtain ⟨s', hok, hleaves⟩ :=
    attempt_purge hs.grounded hs.integrity hs.auditFresh hmode hadmits hrefused
  refine ⟨_, s', by rw [Call.exec, transact, hok, purgeResponse], fun id hderived => ?_⟩
  have hid := (mem_targetsOf hs.grounded).mpr (hentitled.selected.mpr hderived)
  obtain ⟨scope, ha⟩ := (targets_targetsOf hs.grounded hadmits.deletable).anchored id hid
  have hread := hentitled.readable hs.grounded hid ha
    (Nat.add_le_add_left (by decide : 18 ≤ 24) (closureMoment data))
  obtain ⟨herased, hgone⟩ := hleaves.erased hs.grounded hadmits hrefused hid ha hread
  exact ⟨herased, fun b => (hleaves.purged hs.grounded hadmits hrefused).not_derives hgone⟩

end Guarantee

/-! ## A membership that lasts -/

/-- The caller of the small tenant is entitled to purge its first observation. -/
theorem entitled_observation :
    Entitled (.ticking 600 1000) 1 .accompanied .observation where
  known := by decide +kernel
  keeps r hr := by
    obtain rfl := List.mem_singleton.mp hr
    have hdeletable : Deletable (.ticking 600 1000) 1 .accompanied 4 [107] := by decide +kernel
    obtain ⟨o, hfind, hlive, -⟩ := hdeletable.live
      reachable_accompanied.sound.grounded.foreign.marked hr
    have hscope : (Store.accompanied.anchor.objects.find? 107).map ObjectRow.scopeId = some 2 := by
      decide +kernel
    rw [hfind, Option.map_some, Option.some_inj] at hscope
    refine ⟨2, hscope ▸ hlive, ?_⟩
    decide +kernel

/-- The purge of the first observation is complete: the assertion that rests on it is erased with it, and
nothing else is derived from it. -/
theorem purge_complete_observation :
    ∃ receipt s', Call.exec .plain ⟨1, .ticking 600 1000, .forget .observation "forget"⟩ .accompanied
        = (.ok (.deletion (.purged receipt)), s')
      ∧ (∀ id, DerivedFrom .accompanied .observation id → Erased s' id ∧ ∀ b, ¬ Derives s' id b)
      ∧ Erased s' 107 ∧ Erased s' 309 ∧ ¬ DerivedFrom .accompanied .observation 507 := by
  have hgrounded := reachable_accompanied.sound.grounded
  have htargets : (targetsOf (.ticking 600 1000) 1 .accompanied .observation).length = 2
      ∧ 107 ∈ targetsOf (.ticking 600 1000) 1 .accompanied .observation
      ∧ 309 ∈ targetsOf (.ticking 600 1000) 1 .accompanied .observation
      ∧ 507 ∉ targetsOf (.ticking 600 1000) 1 .accompanied .observation := by decide +kernel
  obtain ⟨htwo, hrequested, hderived, hspared⟩ := htargets
  have hselects : ∀ {id}, id ∈ targetsOf (.ticking 600 1000) 1 .accompanied .observation
      ↔ DerivedFrom .accompanied .observation id :=
    (mem_targetsOf hgrounded).trans entitled_observation.selected
  have hunused : Store.accompanied.operations.deletions.rows.length = 0 := by decide +kernel
  rw [List.length_eq_zero_iff] at hunused
  have hwithin : {id | DerivedFrom .accompanied .observation id}.ncard ≤ closureLimit .observation := by
    rw [length_targetsOf hgrounded] at htwo
    simp only [entitled_observation.selected] at htwo
    rw [htwo]
    decide
  have hnew : Store.accompanied.operations.receipts.find? (1, Operation.forget,
      Platform.plain.hmac Store.accompanied.access.dedupSecret "forget") = none :=
    Option.isNone_iff_eq_none.mp (by decide +kernel)
  obtain ⟨receipt, s', hexec, herased⟩ := purge_complete reachable_accompanied rfl entitled_observation hnew
    (fun r hr => absurd (hunused ▸ Table.mem_rows.mpr hr) List.not_mem_nil) hwithin
  exact ⟨receipt, s', hexec, herased, (herased 107 (hselects.mp hrequested)).1,
    (herased 309 (hselects.mp hderived)).1, fun h => hspared (hselects.mpr h)⟩

end PgAgmemory

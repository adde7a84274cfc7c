import PgAgmemory.Forgetting.Run
import PgAgmemory.System.Reading

/-! # The outcome of `forget`

A request that is admitted selects its targets at one moment (`targetsOf`) and, to purge them, runs the
statements of a purge from there. `attempt_purge` says exactly when the purge commits and what it
leaves; every other committed `forget` leaves the store alone (`attempt_forget`). -/

namespace PgAgmemory

open Keyed (HasKey Table key)
open Keyed.Table (References)
open Interactive (Program)

section Outcome

variable (platform : Platform) (timeline : Timeline) (principal : UUID) (s : Store) (data : Forget)

/-! ## Admission -/

/-- The moment of the closure query. -/
def closureMoment : Nat := 4 + 2 * data.memoryIds.length

/-- **The targets of a request**: what the closure query selects. -/
def targetsOf : List UUID :=
  (viewAt timeline principal s (closureMoment data)).closure data.memoryIds

/-- The scopes of the requested objects, as the receipt names them. -/
def scopesOf : List UUID :=
  ((data.memoryIds.filterMap s.anchor.objects.find?).map ObjectRow.scopeId).dedup.insertionSort
    (· ≤ ·)

/-- From a moment on, each object can be seen, and then its scope read and deleted from. -/
def Deletable (n : Nat) (ids : List UUID) : Prop :=
  ∀ i id, ids[i]? = some id → ∃ o,
    (viewAt timeline principal s (n + 2 * i)).object? id = some o
      ∧ (viewAt timeline principal s (n + 2 * i + 1)).permitted o.scopeId .read = true
      ∧ (viewAt timeline principal s (n + 2 * i + 1)).permitted o.scopeId .delete = true

/-- **An admitted request**: the caller is known, the key is new, and every requested object passes its
checks. -/
structure Admits (key : String) : Prop where
  authenticated : (s.access.principals.find? principal).isSome = true
  fresh : s.operations.receipts.find?
    (principal, Operation.forget, platform.hmac s.access.dedupSecret key) = none
  deletable : Deletable timeline principal s 4 data.memoryIds

variable {platform timeline principal s data}

theorem deletable_cons {n : Nat} {id : UUID} {ids : List UUID} :
    Deletable timeline principal s n (id :: ids)
      ↔ (∃ o, (viewAt timeline principal s n).object? id = some o
          ∧ (viewAt timeline principal s (n + 1)).permitted o.scopeId .read = true
          ∧ (viewAt timeline principal s (n + 1)).permitted o.scopeId .delete = true)
        ∧ Deletable timeline principal s (n + 2) ids := by
  constructor
  · intro h
    refine ⟨h 0 id rfl, fun i id' hi => ?_⟩
    have hnext := h (i + 1) id' hi
    rwa [show n + 2 * (i + 1) = n + 2 + 2 * i by omega] at hnext
  · rintro ⟨hhead, htail⟩ i id' hi
    cases i with
    | zero =>
      cases hi
      exact hhead
    | succ i =>
      rw [show n + 2 * (i + 1) = n + 2 + 2 * i by omega]
      exact htail i id' hi

/-- Checking the objects one after the other. -/
def deletableFrom (timeline : Timeline) (principal : UUID) (s : Store) : Nat → List UUID → Bool
  | _, [] => true
  | n, id :: ids =>
    (((viewAt timeline principal s n).object? id).any fun o =>
      (viewAt timeline principal s (n + 1)).permitted o.scopeId .read
        && (viewAt timeline principal s (n + 1)).permitted o.scopeId .delete)
      && deletableFrom timeline principal s (n + 2) ids

theorem deletableFrom_eq_true {n : Nat} {ids : List UUID} :
    deletableFrom timeline principal s n ids = true ↔ Deletable timeline principal s n ids := by
  induction ids generalizing n with
  | nil => exact iff_of_true rfl fun i id hi => (nomatch hi)
  | cons id ids ih =>
    rw [deletableFrom, deletable_cons, Bool.and_eq_true, ih, Option.any_eq_true]
    simp only [Bool.and_eq_true]

instance Deletable.decidable (n : Nat) (ids : List UUID) :
    Decidable (Deletable timeline principal s n ids) :=
  decidable_of_iff _ deletableFrom_eq_true

/-- The check of an object, at its two moments. -/
theorem run_object {n : Nat} {D : List Deferred} {id : UUID} :
    runFrom platform timeline (MemoryService.object id .delete) n ⟨principal, s, D⟩
      = match (viewAt timeline principal s n).object? id with
        | none => .error (.memory .notFound)
        | some o =>
          if (viewAt timeline principal s (n + 1)).permitted o.scopeId .read
              && (viewAt timeline principal s (n + 1)).permitted o.scopeId .delete
          then .ok (o, n + 2, ⟨principal, s, D⟩) else .error (.memory .notFound) := by
  have hread : runFrom platform timeline (MemoryService.object id .delete) n ⟨principal, s, D⟩
      = runFrom platform timeline (do
          let row ← found ((viewAt timeline principal s n).object? id) .notFound
          MemoryService.scope row.scopeId .delete
          pure row) (n + 1) ⟨principal, s, D⟩ := rfl
  rw [hread]
  cases (viewAt timeline principal s n).object? id with
  | none => rfl
  | some o =>
    have hscope : runFrom platform timeline (do
          let row ← found (some o) .notFound
          MemoryService.scope row.scopeId .delete
          pure row) (n + 1) ⟨principal, s, D⟩
        = runFrom platform timeline (do
            demand ((viewAt timeline principal s (n + 1)).permitted o.scopeId .read
              && (viewAt timeline principal s (n + 1)).permitted o.scopeId .delete) .notFound
            pure o) (n + 2) ⟨principal, s, D⟩ := rfl
    rw [hscope, demand]
    dsimp only
    split
    · rfl
    · rfl

variable (platform) in
/-- Collect the objects that pass their checks. -/
theorem run_objects (D : List Deferred) (ids : List UUID) (n : Nat) :
    (Deletable timeline principal s n ids ∧ runFrom platform timeline
        (forCollect (fun objectId => MemoryService.object objectId .delete) ids) n ⟨principal, s, D⟩
      = .ok (ids.filterMap s.anchor.objects.find?, n + 2 * ids.length, ⟨principal, s, D⟩))
    ∨ (¬ Deletable timeline principal s n ids ∧ runFrom platform timeline
        (forCollect (fun objectId => MemoryService.object objectId .delete) ids) n ⟨principal, s, D⟩
      = .error (.memory .notFound)) := by
  induction ids generalizing n with
  | nil => exact Or.inl ⟨fun i id hi => (nomatch hi), rfl⟩
  | cons id ids ih =>
    have hcheck : runFrom platform timeline (MemoryService.object id .delete) n ⟨principal, s, D⟩
        = _ := run_object
    rw [deletable_cons, forCollect]
    cases hobject : (viewAt timeline principal s n).object? id with
    | none =>
      rw [hobject] at hcheck
      exact Or.inr ⟨fun ⟨⟨o, ho, _⟩, _⟩ => (nomatch ho), runFrom_bind_error hcheck⟩
    | some o =>
      rw [hobject] at hcheck
      dsimp only at hcheck
      split at hcheck
      next hallowed =>
        rw [Bool.and_eq_true] at hallowed
        have hfind : s.anchor.objects.find? id = some o := (Option.filter_eq_some_iff.mp hobject).1
        rw [runFrom_bind_ok hcheck, List.filterMap_cons, hfind, List.length_cons,
          show n + 2 * (ids.length + 1) = n + 2 + 2 * ids.length by omega]
        rcases ih (n + 2) with ⟨htail, hrest⟩ | ⟨htail, hrest⟩
        · exact Or.inl ⟨⟨⟨o, rfl, hallowed⟩, htail⟩, (runFrom_bind_ok hrest).trans rfl⟩
        · exact Or.inr ⟨fun h => htail h.2, runFrom_bind_error hrest⟩
      next hrefused =>
        rw [Bool.and_eq_true] at hrefused
        refine Or.inr ⟨?_, runFrom_bind_error hcheck⟩
        rintro ⟨⟨o', ho', hallowed⟩, -⟩
        cases ho'
        exact hrefused hallowed

/-! ## Selection -/

/-- A requested object is live, in a scope that could be read and deleted from. -/
theorem Deletable.live (hmarked : Marked s) {n : Nat} {ids : List UUID}
    (h : Deletable timeline principal s n ids) {id : UUID} (hid : id ∈ ids) :
    ∃ o, s.anchor.objects.find? id = some o ∧ Live s id o.scopeId ∧ ∃ k, k < n + 2 * ids.length
      ∧ (viewAt timeline principal s k).permitted o.scopeId .read = true
      ∧ (viewAt timeline principal s k).permitted o.scopeId .delete = true := by
  obtain ⟨i, hi, rfl⟩ := List.mem_iff_getElem.mp hid
  obtain ⟨o, hobject, hread, hdelete⟩ := h i ids[i] (List.getElem?_eq_getElem hi)
  obtain ⟨hfind, hreadable⟩ := Option.filter_eq_some_iff.mp hobject
  obtain ⟨ho, hkey⟩ := Table.find?_eq_some_iff.mp hfind
  have hkey : o.id = ids[i] := hkey
  have hfree := ((View.readable_iff (v := viewAt timeline principal s (n + 2 * i)) hmarked
    ho).mp hreadable).2
  exact ⟨o, hfind, ⟨⟨o, ho, hkey, rfl⟩, hkey ▸ hfree⟩, n + 2 * i + 1, by omega, hread, hdelete⟩

/-- **What is selected lies in the requested scopes**, and it is live. -/
theorem targetsOf_live (hs : Grounded s) (h : Deletable timeline principal s 4 data.memoryIds) :
    ∀ id ∈ targetsOf timeline principal s data, ∃ r ∈ data.memoryIds, ∃ o,
      s.anchor.objects.find? r = some o ∧ Live s id o.scopeId ∧ ∃ k, k < closureMoment data
        ∧ (viewAt timeline principal s k).permitted o.scopeId .read = true
        ∧ (viewAt timeline principal s k).permitted o.scopeId .delete = true := by
  unfold targetsOf View.closure
  refine Reach.closure_induction (fun id hid => ?_) fun a b hab => ?_
  · obtain ⟨o, hlive⟩ := h.live hs.foreign.marked hid
    exact ⟨id, hid, o, hlive⟩
  · rintro ⟨r, hr, o, hfind, hlive, hpermitted⟩
    obtain ⟨scope, ha, hb, -⟩ := hs.derives (Derives.of_dependencies hab)
    exact ⟨r, hr, o, hfind, ha.unique hlive.anchored ▸ hb, hpermitted⟩

/-- Targets are selected once. -/
theorem nodup_targetsOf : (targetsOf timeline principal s data).Nodup := Reach.nodup_closure _ _

/-- **The selection is what a purge needs.** -/
theorem targets_targetsOf (hs : Grounded s) (h : Deletable timeline principal s 4 data.memoryIds) :
    Targets timeline principal s (targetsOf timeline principal s data) (closureMoment data + 1) where
  anchored id hid := by
    obtain ⟨_, _, o, _, hlive, _⟩ := targetsOf_live hs h id hid
    exact ⟨o.scopeId, hlive.anchored⟩
  live id hid := by
    obtain ⟨_, _, _, _, hlive, _⟩ := targetsOf_live hs h id hid
    exact hlive.free
  deletes id hid scope ha k hread := by
    obtain ⟨_, _, o, _, hlive, j, _, hreadj, hdeletej⟩ := targetsOf_live hs h id hid
    obtain rfl := ha.unique hlive.anchored
    exact (View.permitted_iff_permitted (v := viewAt timeline principal s j)
      (w := viewAt timeline principal s k) rfl rfl hreadj hdeletej).mp hread
  closed a ha b hab scope hanchored k hk hread := by
    obtain ⟨scope', ha', -, hedge⟩ := hs.derives hab
    obtain rfl := hanchored.unique ha'
    unfold targetsOf View.closure at ha ⊢
    refine Reach.closure_closed ha (hedge _ rfl ?_)
    exact permitted_viewAt_of_le (Nat.le_of_succ_le hk) hread

variable (timeline principal s data) in
/-- **What is derived from the requested objects**, where the closure query can read their scope. -/
def Selected (id : UUID) : Prop :=
  ∃ r ∈ data.memoryIds, id = r
    ∨ (∃ scope, Anchored s r scope
        ∧ (viewAt timeline principal s (closureMoment data)).permitted scope .read = true)
      ∧ Relation.ReflTransGen (Derives s) r id

/-- What is derived lies in the same scope. -/
theorem Grounded.anchored_of_derives (hs : Grounded s) {a b scope : UUID} (ha : Anchored s a scope)
    (h : Relation.ReflTransGen (Derives s) a b) : Anchored s b scope := by
  induction h with
  | refl => exact ha
  | tail _ hbc ih =>
    obtain ⟨scope', hb, hc, -⟩ := hs.derives hbc
    exact ih.unique hb ▸ hc.anchored

/-- **The selection is exact**: it holds what is derived from the requested objects. -/
theorem mem_targetsOf (hs : Grounded s)
    {id : UUID} :
    id ∈ targetsOf timeline principal s data ↔ Selected timeline principal s data id := by
  unfold targetsOf View.closure
  constructor
  · refine Reach.closure_induction (P := Selected timeline principal s data)
      (fun r hr => ⟨r, hr, Or.inl rfl⟩) (fun a b hab => ?_) id
    have hderives := Derives.of_dependencies hab
    rintro ⟨r, hr, rfl | ⟨hreadable, hpath⟩⟩
    · -- the first edge out of a requested object shows that its scope is readable
      obtain ⟨scope, ha, hb, -⟩ := hs.derives hderives
      have hread := (hb.visible hs.foreign.marked rfl).mp (View.visible_of_dependencies hab)
      exact ⟨a, hr, Or.inr ⟨⟨scope, ha, hread⟩, .single hderives⟩⟩
    · exact ⟨r, hr, Or.inr ⟨hreadable, hpath.tail hderives⟩⟩
  · rintro ⟨r, hr, rfl | ⟨⟨scope, ha, hread⟩, hpath⟩⟩
    · exact Reach.subset_closure _ _ hr
    · induction hpath with
      | refl => exact Reach.subset_closure _ _ hr
      | tail hab hbc ih =>
        obtain ⟨scope', hb, -, hedge⟩ := hs.derives hbc
        have hscope := (hs.anchored_of_derives ha hab).unique hb
        exact Reach.closure_closed ih (hedge _ rfl (hscope ▸ hread))

/-! ## The request -/

variable (platform timeline) in
/-- The caller must be known. -/
theorem run_bindIdentity (principal : UUID) (s : Store) :
    runFrom platform timeline MemoryService.bindIdentity 0 (.start principal s)
      = if (s.access.principals.find? principal).isSome then .ok ((), 1, .start principal s)
        else .error (.memory .unauthenticated) := by
  have hread : runFrom platform timeline MemoryService.bindIdentity 0 (.start principal s)
      = runFrom platform timeline
          (demand (s.access.principals.find? principal).isSome .unauthenticated) 1
          (.start principal s) := rfl
  rw [hread, demand]
  split
  · rfl
  · rfl

variable (platform timeline principal s) in
/-- The receipt of the key decides how the request goes on. -/
theorem run_replay (key payload : String) :
    runFrom platform timeline (MemoryService.replay platform .forget key payload) 1
        (.start principal s)
      = runFrom platform timeline (match s.operations.receipts.find?
            (principal, Operation.forget, platform.hmac s.access.dedupSecret key) with
          | none => pure (platform.hmac s.access.dedupSecret key,
              platform.hmac s.access.dedupSecret payload, none)
          | some row => do
            demand (decide (row.requestDigest = platform.hmac s.access.dedupSecret payload))
              .idempotencyConflict
            MemoryService.checkReceipt row.result
            pure (platform.hmac s.access.dedupSecret key,
              platform.hmac s.access.dedupSecret payload, some row.result)) 4
          (.start principal s) := rfl

/-- A known caller with a new key reaches the part that runs once. -/
theorem run_forget_fresh {key : String}
    (hauthenticated : (s.access.principals.find? principal).isSome = true)
    (hfresh : s.operations.receipts.find?
      (principal, Operation.forget, platform.hmac s.access.dedupSecret key) = none) :
    runFrom platform timeline ((Request.forget data key).program platform) 0 (.start principal s)
      = runFrom platform timeline (respond .deletion (MemoryService.forgetOnce data
          (platform.hmac s.access.dedupSecret key)
          (platform.hmac s.access.dedupSecret (compactText data.dump)))) 4
        (.start principal s) := by
  have hbind := run_bindIdentity platform timeline principal s
  rw [if_pos hauthenticated] at hbind
  have hreplay := run_replay platform timeline principal s key (compactText data.dump)
  rw [hfresh] at hreplay
  rw [Request.program, runFrom_bind_ok hbind, Request.body, respond, respond]
  exact runFrom_bind_congr (runFrom_bind_congr hreplay)

/-- **A key with a receipt** only checks and repeats it, for the same request. -/
theorem run_forget_stored {key : String} {row : IdempotencyRow}
    (hstored : s.operations.receipts.find?
      (principal, Operation.forget, platform.hmac s.access.dedupSecret key) = some row)
    {response : Response} {m : Nat} {session : Session}
    (hrun : runFrom platform timeline ((Request.forget data key).program platform) 0
      (.start principal s) = .ok (response, m, session)) :
    session = .start principal s ∧ response = .deletion (.purged row.result)
      ∧ row.requestDigest = platform.hmac s.access.dedupSecret (compactText data.dump) := by
  obtain ⟨_, n, σ, hbind, hrun⟩ := (Program.run_bind_eq_ok _ _).mp hrun
  obtain ⟨result, n', σ', hrun, hpure⟩ := (Program.run_bind_eq_ok _ _).mp hrun
  obtain ⟨⟨keyDigest, requestDigest, previous⟩, n'', σ'', hreplay, hrun⟩ :=
    (Program.run_bind_eq_ok _ _).mp hrun
  have hσ : σ = .start principal s := readOnly_bindIdentity.run_eq _ _ hbind
  subst hσ
  have hn : n = 1 := by
    have hbind' := run_bindIdentity platform timeline principal s
    rw [runFrom, hbind] at hbind'
    split at hbind'
    · cases hbind'
      rfl
    · cases hbind'
  subst hn
  have hmatch := (run_replay platform timeline principal s key (compactText data.dump)).symm.trans
    hreplay
  rw [hstored] at hmatch
  obtain ⟨_, _, _, hdemand, hmatch⟩ := (Program.run_bind_eq_ok _ _).mp hmatch
  obtain ⟨_, _, _, hcheck, hresult⟩ := (Program.run_bind_eq_ok _ _).mp hmatch
  have hreading := (readOnly_demand _ _).run_eq _ _ hdemand
  subst hreading
  have hreading := (readOnly_checkReceipt _).run_eq _ _ hcheck
  subst hreading
  cases hresult
  cases hrun
  cases hpure
  refine ⟨rfl, rfl, ?_⟩
  rw [demand] at hdemand
  split at hdemand
  next heq => exact of_decide_eq_true heq
  next => cases hdemand

variable (platform timeline principal s data) in
/-- The closure query, with its bound. -/
theorem run_selectClosure :
    runFrom platform timeline (MemoryService.selectClosure data) (closureMoment data)
        (.start principal s)
      = if (targetsOf timeline principal s data).length ≤ closureLimit data
        then .ok (targetsOf timeline principal s data, closureMoment data + 1, .start principal s)
        else .error (.memory .deletionLimitExceeded) := by
  have hview : (Session.start principal s).view (timeline.moment (closureMoment data))
      = viewAt timeline principal s (closureMoment data) := rfl
  rw [MemoryService.selectClosure, runFrom_read, hview, ← targetsOf]
  split
  next hwithin =>
    rw [List.take_of_length_le (Nat.le_succ_of_le hwithin), demand, decide_eq_true hwithin]
    rfl
  next hexceeds =>
    have htake : ¬ ((targetsOf timeline principal s data).take (closureLimit data + 1)).length
        ≤ closureLimit data := by
      rw [List.length_take]
      omega
    rw [demand, decide_eq_false htake]
    rfl

/-- The objects of the request pass their checks. -/
theorem run_admitDeletion (h : Deletable timeline principal s 4 data.memoryIds) :
    runFrom platform timeline (MemoryService.admitDeletion data) 4 (.start principal s)
      = .ok (scopesOf s data, closureMoment data, .start principal s) := by
  have hobjects := ((run_objects platform [] data.memoryIds 4).resolve_right fun hno => hno.1 h).2
  exact (runFrom_bind_ok hobjects).trans rfl

/-- A preview only counts the targets. -/
theorem run_forgetOnce_preview (h : Deletable timeline principal s 4 data.memoryIds)
    (hwithin : (targetsOf timeline principal s data).length ≤ closureLimit data)
    (hmode : data.mode = .preview) {keyDigest requestDigest : Digest} :
    runFrom platform timeline (MemoryService.forgetOnce data keyDigest requestDigest) 4
        (.start principal s)
      = .ok (.preview (targetsOf timeline principal s data).length, closureMoment data + 1,
          .start principal s) := by
  have hselect := run_selectClosure platform timeline principal s data
  rw [if_pos hwithin] at hselect
  rw [MemoryService.forgetOnce, runFrom_bind_ok (run_admitDeletion h), runFrom_bind_ok hselect, hmode]
  rfl

/-- A purge goes on from the selected targets. -/
theorem run_forgetOnce_purge (h : Deletable timeline principal s 4 data.memoryIds)
    (hwithin : (targetsOf timeline principal s data).length ≤ closureLimit data)
    (hmode : data.mode = .purge) {keyDigest requestDigest : Digest} :
    runFrom platform timeline (MemoryService.forgetOnce data keyDigest requestDigest) 4
        (.start principal s)
      = runFrom platform timeline (do
          let result ← MemoryService.purge (scopesOf s data) (targetsOf timeline principal s data)
            keyDigest requestDigest
          pure (.purged result)) (closureMoment data + 1) (.start principal s) := by
  have hselect := run_selectClosure platform timeline principal s data
  rw [if_pos hwithin] at hselect
  rw [MemoryService.forgetOnce, runFrom_bind_ok (run_admitDeletion h), runFrom_bind_ok hselect, hmode]

/-- Too many targets end the request. -/
theorem run_forgetOnce_exceeded (h : Deletable timeline principal s 4 data.memoryIds)
    (hexceeds : closureLimit data < (targetsOf timeline principal s data).length)
    {keyDigest requestDigest : Digest} :
    runFrom platform timeline (MemoryService.forgetOnce data keyDigest requestDigest) 4
      (.start principal s) = .error (.memory .deletionLimitExceeded) := by
  have hselect := run_selectClosure platform timeline principal s data
  rw [if_neg (Nat.not_le_of_lt hexceeds)] at hselect
  rw [MemoryService.forgetOnce, runFrom_bind_ok (run_admitDeletion h), runFrom_bind_error hselect]

/-! ## Outcomes -/

variable (timeline principal s data) in
/-- **What makes an admitted purge fail**: too many targets, a deletion id that is taken, or a cut. -/
def PurgeRefused : Prop :=
  closureLimit data < (targetsOf timeline principal s data).length
    ∨ (∃ r ∈ s.operations.deletions, r.id = (timeline.moment (closureMoment data + 20)).uuid)
    ∨ Cut timeline principal s (targetsOf timeline principal s data) (closureMoment data + 1)

variable (platform timeline principal s data) in
/-- **What a committed purge leaves.** -/
def PurgeLeaves (key : String) (s' : Store) : Prop :=
  ∃ tombstones operations,
    Marks timeline principal s (targetsOf timeline principal s data) (closureMoment data + 18)
      tombstones
    ∧ Records s
      (deletionOf timeline principal s (targetsOf timeline principal s data) (closureMoment data + 1))
      ⟨principal, .forget, platform.hmac s.access.dedupSecret key,
        platform.hmac s.access.dedupSecret (compactText data.dump),
        receiptOf timeline s (scopesOf s data) (targetsOf timeline principal s data)
          (closureMoment data + 1)⟩
      (entryOf timeline principal s (closureMoment data + 1)) operations
    ∧ s' = s.purged (goneAt timeline principal s (targetsOf timeline principal s data)
      (closureMoment data + 1)) tombstones operations

variable (timeline principal s data) in
/-- The response of a committed purge. -/
def purgeResponse : Response :=
  .deletion (.purged (receiptOf timeline s (scopesOf s data) (targetsOf timeline principal s data)
    (closureMoment data + 1)))

/-- **An admitted purge commits** unless something makes it fail. -/
theorem attempt_purge (hs : Grounded s) (hi : Integrity s) (haudit : AuditFresh s) {key : String}
    (hmode : data.mode = .purge) (h : Admits platform timeline principal s data key)
    (hrefused : ¬ PurgeRefused timeline principal s data) :
    ∃ s', attempt platform timeline principal ((Request.forget data key).program platform) s
        = .ok (purgeResponse timeline principal s data, s')
      ∧ PurgeLeaves platform timeline principal s data key s' := by
  rw [PurgeRefused, not_or, not_or, Nat.not_lt] at hrefused
  obtain ⟨hwithin, hunused, hcut⟩ := hrefused
  have htargets := targets_targetsOf hs h.deletable
  obtain ⟨D, tombstones, operations, hD, hmarks, hrecords, hrun⟩ := run_purge platform hs hi.unique
    htargets haudit (scopesOf s data) (platform.hmac s.access.dedupSecret (compactText data.dump))
    (Table.find?_eq_none_iff.mp h.fresh) fun r hr heq => hunused ⟨r, hr, heq⟩
  refine ⟨_, attempt_eq_ok.mpr ⟨closureMoment data + 24, _, ?_, (commit_purged hs hi.deferred htargets
    hmarks operations hD).mpr ⟨hcut, rfl⟩⟩, tombstones, operations, hmarks, hrecords, rfl⟩
  rw [run_forget_fresh h.authenticated h.fresh, respond,
    runFrom_bind_congr (run_forgetOnce_purge h.deletable hwithin hmode)]
  exact (runFrom_bind_congr (runFrom_bind_ok hrun)).trans rfl

/-- A transaction that cannot succeed fails. -/
theorem attempt_error {α : Type} {p : Tx α}
    (h : ∀ a s', attempt platform timeline principal p s ≠ .ok (a, s')) :
    ∃ fault, attempt platform timeline principal p s = .error fault := by
  cases hattempt : attempt platform timeline principal p s with
  | error fault => exact ⟨fault, rfl⟩
  | ok result => exact absurd hattempt (h result.1 result.2)

/-- **An admitted purge fails** when something makes it fail. -/
theorem attempt_purge_refused (hs : Grounded s) (hi : Integrity s) (haudit : AuditFresh s)
    {key : String} (hmode : data.mode = .purge) (h : Admits platform timeline principal s data key)
    (hrefused : PurgeRefused timeline principal s data) :
    ∃ fault, attempt platform timeline principal ((Request.forget data key).program platform) s
      = .error fault := by
  refine attempt_error fun response s' hok => ?_
  obtain ⟨m, session, hrun, hcommit⟩ := attempt_eq_ok.mp hok
  rw [run_forget_fresh h.authenticated h.fresh, respond] at hrun
  by_cases hexceeds : closureLimit data < (targetsOf timeline principal s data).length
  · rw [runFrom_bind_error (run_forgetOnce_exceeded h.deletable hexceeds)] at hrun
    cases hrun
  have hwithin := Nat.not_lt.mp hexceeds
  have htargets := targets_targetsOf hs h.deletable
  rw [runFrom_bind_congr (run_forgetOnce_purge h.deletable hwithin hmode)] at hrun
  by_cases htaken : ∃ r ∈ s.operations.deletions,
      r.id = (timeline.moment (closureMoment data + 20)).uuid
  · have hstopped := runFrom_bind_error (k := fun a => pure (Response.deletion a))
      (runFrom_bind_error (k := fun result => pure (ForgetResult.purged result))
        (run_purge_taken platform hs hi.unique htargets (scopesOf s data)
          (platform.hmac s.access.dedupSecret key)
          (platform.hmac s.access.dedupSecret (compactText data.dump)) htaken))
    cases hstopped.symm.trans hrun
  · have hcut := (hrefused.resolve_left hexceeds).resolve_left htaken
    obtain ⟨D, tombstones, operations, hD, hmarks, -, hpurge⟩ := run_purge platform hs hi.unique
      htargets haudit (scopesOf s data) (platform.hmac s.access.dedupSecret (compactText data.dump))
      (Table.find?_eq_none_iff.mp h.fresh) fun r hr heq => htaken ⟨r, hr, heq⟩
    have hended := (runFrom_bind_congr (k := fun a => pure (Response.deletion a))
      (runFrom_bind_ok (k := fun result => pure (ForgetResult.purged result)) hpurge)).symm.trans hrun
    cases hended
    exact ((commit_purged hs hi.deferred htargets hmarks operations hD).mp hcommit).1 hcut

/-- **An admitted preview** counts the targets and changes nothing. -/
theorem attempt_preview (hi : Integrity s) {key : String} (hmode : data.mode = .preview)
    (h : Admits platform timeline principal s data key)
    (hwithin : (targetsOf timeline principal s data).length ≤ closureLimit data) :
    attempt platform timeline principal ((Request.forget data key).program platform) s
      = .ok (.deletion (.preview (targetsOf timeline principal s data).length), s) := by
  refine attempt_eq_ok.mpr ⟨closureMoment data + 1, .start principal s, ?_,
    commit_eq_ok.mpr ⟨⟨rfl, hi.deferred⟩, rfl⟩⟩
  rw [run_forget_fresh h.authenticated h.fresh, respond,
    runFrom_bind_ok (run_forgetOnce_preview h.deletable hwithin hmode)]
  rfl

/-- **Too many targets** fail in either mode. -/
theorem attempt_exceeded {key : String} (h : Admits platform timeline principal s data key)
    (hexceeds : closureLimit data < (targetsOf timeline principal s data).length) :
    attempt platform timeline principal ((Request.forget data key).program platform) s
      = .error (.memory .deletionLimitExceeded) := by
  have hrun : runFrom platform timeline ((Request.forget data key).program platform) 0
      (.start principal s) = .error (.memory .deletionLimitExceeded) := by
    rw [run_forget_fresh h.authenticated h.fresh, respond]
    exact runFrom_bind_error (run_forgetOnce_exceeded h.deletable hexceeds)
  rw [Session.start] at hrun
  rw [attempt, hrun]
  rfl

/-- **A request that is not admitted fails**, when its key is new. -/
theorem attempt_unadmitted {key : String}
    (hnew : s.operations.receipts.find?
      (principal, Operation.forget, platform.hmac s.access.dedupSecret key) = none)
    (h : ¬ Admits platform timeline principal s data key) :
    ∃ fault, attempt platform timeline principal ((Request.forget data key).program platform) s
      = .error fault := by
  refine attempt_error fun response s' hok => ?_
  obtain ⟨m, session, hrun, -⟩ := attempt_eq_ok.mp hok
  have hbind := run_bindIdentity platform timeline principal s
  split at hbind
  next hauthenticated =>
    rw [run_forget_fresh hauthenticated hnew, respond] at hrun
    rcases run_objects platform [] data.memoryIds 4 with ⟨hdeletable, -⟩ | ⟨-, hobjects⟩
    · exact h ⟨hauthenticated, hnew, hdeletable⟩
    · have hstopped : runFrom platform timeline (MemoryService.forgetOnce data
          (platform.hmac s.access.dedupSecret key)
          (platform.hmac s.access.dedupSecret (compactText data.dump))) 4 (.start principal s)
          = .error (.memory .notFound) := runFrom_bind_error (runFrom_bind_error hobjects)
      rw [runFrom_bind_error hstopped] at hrun
      cases hrun
  next =>
    rw [Request.program, runFrom_bind_error hbind] at hrun
    cases hrun

/-- **Every other committed `forget` leaves the store alone.** -/
theorem attempt_forget (hs : Grounded s) (hi : Integrity s) (haudit : AuditFresh s) {key : String}
    {response : Response} {s' : Store}
    (h : attempt platform timeline principal ((Request.forget data key).program platform) s
      = .ok (response, s')) :
    s' = s ∨ (data.mode = .purge ∧ Admits platform timeline principal s data key
      ∧ ¬ PurgeRefused timeline principal s data
      ∧ response = purgeResponse timeline principal s data
      ∧ PurgeLeaves platform timeline principal s data key s') := by
  obtain ⟨m, session, hrun, hcommit⟩ := attempt_eq_ok.mp h
  have hstore := (commit_eq_ok.mp hcommit).2
  cases hstored : s.operations.receipts.find?
      (principal, Operation.forget, platform.hmac s.access.dedupSecret key) with
  | some row =>
    left
    rw [← hstore, (run_forget_stored hstored hrun).1]
    rfl
  | none =>
    by_cases hadmits : Admits platform timeline principal s data key
    · by_cases hexceeds : closureLimit data < (targetsOf timeline principal s data).length
      · rw [attempt_exceeded hadmits hexceeds] at h
        cases h
      · cases hmode : data.mode with
        | preview =>
          rw [attempt_preview hi hmode hadmits (Nat.not_lt.mp hexceeds)] at h
          cases h
          exact Or.inl rfl
        | purge =>
          by_cases hrefused : PurgeRefused timeline principal s data
          · obtain ⟨fault, herror⟩ := attempt_purge_refused hs hi haudit hmode hadmits hrefused
            rw [herror] at h
            cases h
          · obtain ⟨t, hok, hleaves⟩ := attempt_purge hs hi haudit hmode hadmits hrefused
            rw [hok] at h
            cases h
            exact Or.inr ⟨rfl, hadmits, hrefused, rfl, hleaves⟩
    · obtain ⟨fault, herror⟩ := attempt_unadmitted hstored hadmits
      rw [herror] at h
      cases h

end Outcome

end PgAgmemory

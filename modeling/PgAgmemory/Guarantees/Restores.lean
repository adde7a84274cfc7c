import PgAgmemory.Guarantees.Branches
import PgAgmemory.Operations.Envelopes

/-! # Restores and resuming

A restore fences its run: right after it no effect of the run is dispatched (`RunFenced`). An envelope
that allows to resume is right about the ledger (`Resumable`) when its listing could read the scope; the
listing of a caller whose membership has expired by then is empty, and says nothing. -/

namespace PgAgmemory

open Keyed (HasKey Table key)
open Interactive (Program)
open Interactive.Program (ReadOnly Sends)
open MemoryService

/-! ## The ledger of a run -/

section Listing

variable {v : View} {scope run : UUID}

/-- **The ledger of a run in a readable scope** has every effect at its current revision. -/
theorem View.mem_runLedger (hgrounded : Grounded v.store) (hread : v.permitted scope .read = true)
    {x : EffectEntry} :
    x ∈ v.runLedger scope run ↔ ∃ e ∈ v.store.ledger.effects, e.Of scope run
      ∧ ∃ r, v.store.ledger.Current e r ∧ x = ⟨e.id, e.operationId, r.revision, r.status⟩ := by
  rw [View.runLedger, List.mem_insertionSort, List.mem_filterMap]
  constructor
  · rintro ⟨e, he, hentry⟩
    obtain ⟨hmem, hof⟩ := (View.mem_effectsOf hgrounded hread).mp he
    obtain ⟨r, hr, hx⟩ := Option.map_eq_some_iff.mp hentry
    obtain ⟨hmem', hkey⟩ := Table.find?_eq_some_iff.mp (Option.filter_eq_some_iff.mp hr).1
    obtain ⟨hid, hrevision⟩ := Prod.mk.inj hkey
    exact ⟨e, hmem, hof, r, ⟨⟨hmem', hid⟩, hrevision⟩, hx.symm⟩
  · rintro ⟨e, he, hof, r, ⟨⟨hr, hid⟩, hrevision⟩, rfl⟩
    refine ⟨e, (View.mem_effectsOf hgrounded hread).mpr ⟨he, hof⟩, Option.map_eq_some_iff.mpr ⟨r, ?_, rfl⟩⟩
    have hvisible : v.visible r.effectId = true := by
      rw [hid, (hgrounded.effect he).visible hgrounded.foreign.marked rfl, (Prod.mk.inj hof).1]
      exact hread
    exact Option.filter_eq_some_iff.mpr
      ⟨Table.find?_eq_some_iff.mpr ⟨hr, Prod.ext hid hrevision⟩, hvisible⟩

/-- **The ledger of a run in a scope that cannot be read** is empty. -/
theorem View.runLedger_eq_nil (hgrounded : Grounded v.store)
    (hread : ¬ v.permitted scope .read = true) : v.runLedger scope run = [] := by
  have hnone : v.effectsOf scope run = [] := by
    refine List.eq_nil_iff_forall_not_mem.mpr fun e he => hread ?_
    obtain ⟨he, hkey⟩ := List.mem_filter.mp he
    obtain ⟨hmem, hvisible⟩ := List.mem_filter.mp he
    rw [Bool.and_eq_true, decide_eq_true_eq] at hkey
    have hpermitted := ((hgrounded.effect hmem).visible hgrounded.foreign.marked rfl).mp hvisible
    exact hkey.1 ▸ hpermitted
  rw [View.runLedger, hnone]
  rfl

/-- Entries of a run name different operations. -/
theorem View.runLedger_operation (hgrounded : Grounded v.store) (hunique : UniqueKeys v.store)
    (hread : v.permitted scope .read = true) {x y : EffectEntry} (hx : x ∈ v.runLedger scope run)
    (hy : y ∈ v.runLedger scope run) (hoperation : x.operationId = y.operationId) : x = y := by
  obtain ⟨e, he, hof, r, hr, rfl⟩ := (View.mem_runLedger hgrounded hread).mp hx
  obtain ⟨e', he', hof', r', hr', rfl⟩ := (View.mem_runLedger hgrounded hread).mp hy
  have hsame : e = e' := by
    refine List.inj_on_of_nodup_map hunique.effect_operation he he' ?_
    obtain ⟨hscope, hrun⟩ := Prod.mk.inj (hof.trans hof'.symm)
    rw [hscope, hrun, show e.operationId = e'.operationId from hoperation]
  subst hsame
  rw [hr.unique hr']

end Listing

/-! ## Resuming -/

/-- **A run may be resumed**: no outcome of its effects is open, its ledger knows every hint, and hints
that were open have an outcome. -/
structure Resumable (s : Store) (scope run : UUID) (hints : List PendingEffect) : Prop where
  settled : ∀ e ∈ s.ledger.effects, e.Of scope run → ∀ r, s.ledger.Current e r →
    r.status = .planned ∨ r.status = .confirmed ∨ r.status = .failed
  known : ∀ h ∈ hints, ∃ e ∈ s.ledger.effects, e.Of scope run ∧ e.operationId = h.operationId
  concluded : ∀ h ∈ hints, h.status = .dispatched ∨ h.status = .unknown →
    ∃ e ∈ s.ledger.effects, e.Of scope run ∧ e.operationId = h.operationId
      ∧ ∃ r, s.ledger.Current e r ∧ (r.status = .confirmed ∨ r.status = .failed)

/-- The outcome of some effect of a run is open. -/
def HasOpen (s : Store) (scope run : UUID) : Prop :=
  ∃ e ∈ s.ledger.effects, e.Of scope run ∧ ∃ r, s.ledger.Current e r
    ∧ (r.status = .dispatched ∨ r.status = .unknown)

theorem EffectStatus.isOpen_iff {status : EffectStatus} :
    status.isOpen = true ↔ status = .dispatched ∨ status = .unknown := by
  cases status <;> decide

theorem EffectStatus.terminal_iff {status : EffectStatus} :
    status.terminal = true ↔ status = .confirmed ∨ status = .failed := by
  cases status <;> decide

theorem EffectStatus.not_isOpen_iff {status : EffectStatus} :
    status.isOpen = false ↔ status = .planned ∨ status = .confirmed ∨ status = .failed := by
  cases status <;> decide

/-- Without open hints and without open entries nothing is unresolved. -/
theorem unresolved_eq_nil {entries : List EffectEntry} {hints : List PendingEffect} :
    unresolved entries hints = [] ↔ (∀ x ∈ entries, x.status.isOpen = false)
      ∧ ∀ h ∈ hints, h.status.isOpen = true →
        (tracked entries h.operationId).any EffectStatus.terminal = true := by
  simp only [unresolved, List.append_eq_nil_iff, List.map_eq_nil_iff, List.filter_eq_nil_iff,
    Bool.and_eq_true, Bool.not_eq_true', not_and, Bool.not_eq_true, Bool.not_eq_false]

theorem untracked_eq_nil {entries : List EffectEntry} {hints : List PendingEffect} :
    untracked entries hints = [] ↔ ∀ h ∈ hints, (tracked entries h.operationId).isSome = true := by
  simp only [untracked, List.map_eq_nil_iff, List.filter_eq_nil_iff, Bool.not_eq_true,
    Option.isNone_eq_false_iff]

/-- The status of an operation that has one entry. -/
theorem tracked_eq_some {entries : List EffectEntry} {operation : UUID} {status : EffectStatus}
    (hunique : ∀ x ∈ entries, ∀ y ∈ entries, x.operationId = y.operationId → x = y) :
    tracked entries operation = some status
      ↔ ∃ x ∈ entries, x.operationId = operation ∧ x.status = status := by
  rw [tracked, Option.map_eq_some_iff]
  constructor
  · rintro ⟨x, hx, hstatus⟩
    exact ⟨x, List.mem_reverse.mp (List.mem_of_find?_eq_some hx), by simpa using List.find?_some hx,
      hstatus⟩
  · rintro ⟨x, hx, hoperation, hstatus⟩
    cases hfind : entries.reverse.find? fun e => e.operationId = operation with
    | none =>
      have hnot := List.find?_eq_none.mp hfind x (List.mem_reverse.mpr hx)
      exact absurd hoperation (by simpa using hnot)
    | some y =>
      have hy := List.mem_reverse.mp (List.mem_of_find?_eq_some hfind)
      have hoperation' : y.operationId = operation := by simpa using List.find?_some hfind
      exact ⟨y, rfl, hunique x hx y hy (hoperation.trans hoperation'.symm) ▸ hstatus⟩

theorem resumeAllowed_iff {saved : SavedCheckpoint} {epochs : Nat × Nat}
    {entries : List EffectEntry} :
    (Envelope.of saved epochs entries).resumeAllowed = true
      ↔ unresolved entries saved.state.pendingEffects = []
        ∧ untracked entries saved.state.pendingEffects = [] := by
  rw [Envelope.of, Bool.and_eq_true, List.isEmpty_iff, List.isEmpty_iff]

/-- **An envelope is right about a listing in a readable scope.** -/
theorem View.resumable_iff {v : View} (hgrounded : Grounded v.store) (hunique : UniqueKeys v.store)
    (hcurrent : DeferredKeys v.store) {saved : SavedCheckpoint} {epochs : Nat × Nat}
    {scope run : UUID} (hread : v.permitted scope .read = true) :
    (Envelope.of saved epochs (v.runLedger scope run)).resumeAllowed = true
      ↔ Resumable v.store scope run saved.state.pendingEffects := by
  have hoperation : ∀ x ∈ v.runLedger scope run, ∀ y ∈ v.runLedger scope run,
      x.operationId = y.operationId → x = y :=
    fun x hx y hy => View.runLedger_operation hgrounded hunique hread hx hy
  rw [resumeAllowed_iff, unresolved_eq_nil, untracked_eq_nil]
  constructor
  · rintro ⟨⟨hsettled, hconcluded⟩, hknown⟩
    refine ⟨fun e he hof r hr => ?_, fun h hh => ?_, fun h hh hopen => ?_⟩
    · exact EffectStatus.not_isOpen_iff.mp (hsettled _ ((View.mem_runLedger hgrounded hread).mpr
        ⟨e, he, hof, r, hr, rfl⟩))
    · obtain ⟨status, hstatus⟩ := Option.isSome_iff_exists.mp (hknown h hh)
      obtain ⟨x, hx, hop, -⟩ := (tracked_eq_some hoperation).mp hstatus
      obtain ⟨e, he, hof, r, -, rfl⟩ := (View.mem_runLedger hgrounded hread).mp hx
      exact ⟨e, he, hof, hop⟩
    · obtain ⟨status, hstatus, hterminal⟩ := Option.any_eq_true _ _ |>.mp
        (hconcluded h hh (EffectStatus.isOpen_iff.mpr hopen))
      obtain ⟨x, hx, hop, rfl⟩ := (tracked_eq_some hoperation).mp hstatus
      obtain ⟨e, he, hof, r, hr, rfl⟩ := (View.mem_runLedger hgrounded hread).mp hx
      exact ⟨e, he, hof, hop, r, hr, EffectStatus.terminal_iff.mp hterminal⟩
  · rintro ⟨hsettled, hknown, hconcluded⟩
    refine ⟨⟨fun x hx => ?_, fun h hh hopen => ?_⟩, fun h hh => ?_⟩
    · obtain ⟨e, he, hof, r, hr, rfl⟩ := (View.mem_runLedger hgrounded hread).mp hx
      exact EffectStatus.not_isOpen_iff.mpr (hsettled e he hof r hr)
    · obtain ⟨e, he, hof, hop, r, hr, hterminal⟩ :=
        hconcluded h hh (EffectStatus.isOpen_iff.mp hopen)
      refine (Option.any_eq_true _ _).mpr ⟨r.status, (tracked_eq_some hoperation).mpr ?_,
        EffectStatus.terminal_iff.mpr hterminal⟩
      exact ⟨_, (View.mem_runLedger hgrounded hread).mpr ⟨e, he, hof, r, hr, rfl⟩, hop, rfl⟩
    · obtain ⟨e, he, hof, hop⟩ := hknown h hh
      obtain ⟨r, hr⟩ := hcurrent.exists_current he
      refine Option.isSome_iff_exists.mpr ⟨r.status, (tracked_eq_some hoperation).mpr ?_⟩
      exact ⟨_, (View.mem_runLedger hgrounded hread).mpr ⟨e, he, hof, r, hr, rfl⟩, hop, rfl⟩

/-! ## Fenced runs -/

/-- **A fenced run**: every effect of the run that was dispatched has one more revision, which is
unknown; all other effects are as they were; no effect of the run is dispatched. -/
structure RunFenced (s s' : Store) (scope run : UUID) : Prop where
  fenced : ∀ e ∈ s.ledger.effects, e.Of scope run → ∀ r, s.ledger.Current e r →
    r.status = .dispatched → { e with currentRevision := e.currentRevision + 1 } ∈ s'.ledger.effects
      ∧ ∃ r', r' ∉ s.ledger.revisionsOf e.id ∧ r'.revision = e.currentRevision + 1
        ∧ r'.status = .unknown
        ∧ ∀ q, q ∈ s'.ledger.revisionsOf e.id ↔ q = r' ∨ q ∈ s.ledger.revisionsOf e.id
  others : ∀ e ∈ s.ledger.effects,
    (e.Of scope run → ∀ r, s.ledger.Current e r → r.status ≠ .dispatched) →
      e ∈ s'.ledger.effects ∧ s'.ledger.revisionsOf e.id = s.ledger.revisionsOf e.id
  known : ∀ e ∈ s'.ledger.effects, ∃ n, { e with currentRevision := n } ∈ s.ledger.effects
  settled : ∀ e ∈ s'.ledger.effects, e.Of scope run → ∀ r, s'.ledger.Current e r →
    r.status ≠ .dispatched

section Fences

variable {s s' : Store} {v : View} {scope run : UUID}

/-- The dispatched entries of a listing in a readable scope. -/
theorem View.mem_dispatchedIn (hgrounded : Grounded v.store)
    (hread : v.permitted scope .read = true) {e : ToolEffectRow} (he : e ∈ v.store.ledger.effects) :
    e.id ∈ dispatchedIn (v.runLedger scope run)
      ↔ e.Of scope run ∧ ∃ r, v.store.ledger.Current e r ∧ r.status = .dispatched := by
  simp only [dispatchedIn, List.mem_map, List.mem_filter, decide_eq_true_eq]
  constructor
  · rintro ⟨x, ⟨hx, hstatus⟩, hid⟩
    obtain ⟨e', he', hof, r, hr, rfl⟩ := (View.mem_runLedger hgrounded hread).mp hx
    obtain rfl : e' = e := Table.eq_of_key_eq he' he hid
    exact ⟨hof, r, hr, hstatus⟩
  · rintro ⟨hof, r, hr, hstatus⟩
    exact ⟨_, ⟨(View.mem_runLedger hgrounded hread).mpr ⟨e, he, hof, r, hr, rfl⟩, hstatus⟩, rfl⟩

/-- **A fence over a listing in a readable scope** fences the whole run. -/
theorem Ledger.Fenced.runFenced (hgrounded : Grounded v.store) (hread : v.permitted scope .read = true)
    (h : v.store.ledger.Fenced s'.ledger (dispatchedIn (v.runLedger scope run))) :
    RunFenced v.store s' scope run where
  fenced e he hof r hr hstatus := by
    have hin := (View.mem_dispatchedIn hgrounded hread he).mpr ⟨hof, r, hr, hstatus⟩
    obtain ⟨hmoved, r', ⟨-, hrevision, hunknown⟩, hfresh, hmem⟩ := h.fenced e he hin
    exact ⟨hmoved, r', fun hold => hfresh hold.1, hrevision, hunknown, hmem⟩
  others e he hnot := by
    refine h.others e he fun hin => ?_
    obtain ⟨hof, r, hr, hstatus⟩ := (View.mem_dispatchedIn hgrounded hread he).mp hin
    exact hnot hof r hr hstatus
  known := h.known
  settled e he hof r hr hstatus := by
    obtain ⟨n, hn⟩ := h.known e he
    by_cases hin : e.id ∈ dispatchedIn (v.runLedger scope run)
    · -- the current revision is the one of the fence
      obtain ⟨hmoved, r', ⟨hid, hrevision, hunknown⟩, -, hmem⟩ := h.fenced _ hn hin
      have heq : e = { e with currentRevision := n + 1 } := Table.eq_of_key_eq he hmoved rfl
      have hr' : s'.ledger.Current e r' := by
        rw [heq]
        exact ⟨(hmem r').mpr (Or.inl rfl), hrevision⟩
      rw [hr.unique hr', hunknown] at hstatus
      cases hstatus
    · obtain ⟨hkept, hsame⟩ := h.others _ hn hin
      have heq : e = { e with currentRevision := n } := Table.eq_of_key_eq he hkept rfl
      rw [← heq] at hn hsame
      refine hin ((View.mem_dispatchedIn hgrounded hread hn).mpr ⟨hof, r, ⟨?_, hr.2⟩, hstatus⟩)
      exact hsame ▸ hr.1

/-- **A fence opens and closes nothing.** -/
theorem RunFenced.hasOpen_iff (h : RunFenced s s' scope run) (hcurrent : DeferredKeys s)
    {scope' run' : UUID} : HasOpen s' scope' run' ↔ HasOpen s scope' run' := by
  constructor
  · rintro ⟨e, he, hof, r, hr, hopen⟩
    obtain ⟨n, hn⟩ := h.known e he
    obtain ⟨r₀, hr₀⟩ := hcurrent.exists_current hn
    by_cases hstatus : r₀.status = .dispatched
    · exact ⟨_, hn, hof, r₀, hr₀, Or.inl hstatus⟩
    · obtain ⟨hkept, hsame⟩ := h.others _ hn fun _ r₁ hr₁ => hr₀.unique hr₁ ▸ hstatus
      have heq : e = { e with currentRevision := n } := Table.eq_of_key_eq he hkept rfl
      rw [← heq] at hn hsame
      exact ⟨e, hn, hof, r, ⟨hsame ▸ hr.1, hr.2⟩, hopen⟩
  · rintro ⟨e, he, hof, r, hr, hopen⟩
    by_cases hin : e.Of scope run ∧ r.status = .dispatched
    · obtain ⟨hmoved, r', -, hrevision, hunknown, hmem⟩ := h.fenced e he hin.1 r hr hin.2
      exact ⟨_, hmoved, hof, r', ⟨(hmem r').mpr (Or.inl rfl), hrevision⟩, Or.inr hunknown⟩
    · obtain ⟨hkept, hsame⟩ := h.others e he fun hof' r' hr' hstatus =>
        hin ⟨hof', hr.unique hr' ▸ hstatus⟩
      exact ⟨e, hkept, hof, r, ⟨hsame.symm ▸ hr.1, hr.2⟩, hopen⟩

end Fences

/-! ## Envelopes of calls -/

/-- The moment of the last statement of a call that ends. -/
def Call.lastMoment (platform : Platform) (c : Call) (s : Store) : Nat :=
  match runFrom platform c.timeline (c.request.program platform) 0 (.start c.principal s) with
  | .ok (_, n, _) => n - 1
  | .error _ => 0

/-- **The membership lasts**: the last statement of a call can read a scope. -/
def Call.KeepsReading (platform : Platform) (c : Call) (s : Store) (scope : UUID) : Prop :=
  (viewAt c.timeline c.principal s (c.lastMoment platform s)).permitted scope .read = true

section Calls

variable {platform : Platform} {c : Call} {s : Store} {e : Envelope}

/-- **The envelope of a call** is made of a loaded checkpoint and of what its last statement listed. -/
theorem Call.enveloped (hkeys : ForeignKeys s) (h : (c.exec platform s).1 = .ok (.envelope e)) :
    (∃ id, Loaded (c.exec platform s).2 id e.saved)
      ∧ ∃ v : View, v.store = (c.exec platform s).2
        ∧ (∀ scope, v.permitted scope .read = true ↔ c.KeepsReading platform s scope)
        ∧ ∃ epochs, e = .of e.saved epochs
          (v.runLedger e.saved.payload.scopeId e.saved.payload.runId) := by
  rcases c.exec_cases platform s with ⟨fault, hexec⟩ | ⟨response, s', hok, hexec⟩
  · rw [hexec] at h
    cases h
  rw [hexec] at h ⊢
  cases h
  obtain ⟨n, σ, hrun, hcommit⟩ := attempt_eq_ok.mp hok
  have houtcome : Outcome platform c.timeline (c.request.program platform) _ _ 0
      (.start c.principal s) := outcome_enveloped hkeys c.request
  obtain ⟨hquiet, ⟨k, id, epochs, rfl, hloaded, hlisted⟩, -⟩ := houtcome.of_run hrun e rfl
  have hstore : σ.store = s' := (commit_eq_ok.mp hcommit).2
  have hdoes : Does (c.setting platform s) (c.request.program platform) (fun _ _ => True) 0
      (.start c.principal s) :=
    Request.does (c := c.setting platform s) rfl
      (.start (c := c.setting platform s) hkeys c.principal) hquiet
  obtain ⟨hfollows, -⟩ := hdoes.of_run hrun
  refine ⟨⟨id, hstore ▸ hloaded⟩, σ.view (c.timeline.moment k), hstore, fun scope => ?_, epochs, hlisted⟩
  have hlast : c.lastMoment platform s = k := by
    rw [Call.lastMoment, hrun]
    exact Nat.add_sub_cancel k 1
  rw [Call.KeepsReading, hlast]
  exact iff_of_eq (congrArg (· = true) (View.permitted_congr
    (v := viewAt c.timeline c.principal s k) (w := σ.view (c.timeline.moment k))
    (congrArg Access.members hfollows.grown.access) hfollows.principal rfl scope .read))

/-- **A restore fences the run of its checkpoint**, unless its key has a stored receipt. -/
theorem Sound.restore_fenced (hs : Sound s) {timeline : Timeline} {principal : UUID}
    {data : RestoreCheckpoint} {key : String}
    (h : (Call.exec platform ⟨principal, timeline, .restoreCheckpoint data key⟩ s).1
      = .ok (.envelope e))
    (hfresh : ∀ row, ¬ (Session.start principal s).Stored platform .restoreCheckpoint key row) :
    ∃ k ∈ s.checkpointing.checkpoints, k.id = data.checkpointId
      ∧ RunFenced s (Call.exec platform ⟨principal, timeline, .restoreCheckpoint data key⟩ s).2
        k.scopeId k.runId := by
  let call : Call := ⟨principal, timeline, .restoreCheckpoint data key⟩
  rcases call.exec_cases platform s with ⟨fault, hexec⟩ | ⟨response, s', hok, hexec⟩
  · rw [hexec] at h
    cases h
  rw [hexec]
  obtain ⟨n, σ, hrun, hcommit⟩ := attempt_eq_ok.mp hok
  have hfenced : Outcome platform timeline (call.request.program platform)
      (fun _ _ σ' => ∃ k ∈ s.checkpointing.checkpoints, k.id = data.checkpointId
        ∧ RunFenced s σ'.store k.scopeId k.runId) (fun _ => True) 0 (.start principal s) := by
    refine outcome_bind (outcome_readOnly readOnly_bindIdentity fun _ => trivial) ?_
    rintro - m σ' - rfl
    refine (outcome_respond (outcome_restore_fenced hs.integrity.foreign data key)).mono ?_ fun _ h => h
    rintro _ _ σ'' - ⟨_, -, ⟨⟨row, hstored⟩, -⟩ | ⟨k, hk, hid, j, hread, hfenced⟩⟩
    · exact absurd hstored (hfresh row)
    · exact ⟨k, hk, hid, hfenced.runFenced (v := (Session.start principal s).view (timeline.moment j))
        hs.grounded hread⟩
  obtain ⟨k, hk, hid, hrunFenced⟩ := hfenced.of_run hrun
  exact ⟨k, hk, hid, (commit_eq_ok.mp hcommit).2 ▸ hrunFenced⟩

/-- **A call that returns an envelope** opens and closes nothing. -/
theorem Sound.hasOpen_iff (hs : Sound s) (h : (c.exec platform s).1 = .ok (.envelope e))
    {scope run : UUID} : HasOpen (c.exec platform s).2 scope run ↔ HasOpen s scope run := by
  rcases c.exec_cases platform s with ⟨fault, hexec⟩ | ⟨response, s', hok, hexec⟩
  · rw [hexec] at h
    cases h
  rw [hexec] at h ⊢
  cases h
  obtain ⟨n, σ, hrun, hcommit⟩ := attempt_eq_ok.mp hok
  have houtcome : Outcome platform c.timeline (c.request.program platform) _ _ 0
      (.start c.principal s) := outcome_enveloped hs.integrity.foreign c.request
  obtain ⟨-, -, hsame | ⟨k, hk, j, hread, hfenced⟩⟩ := houtcome.of_run hrun e rfl
  · have hstore : s = s' := (congrArg Session.store hsame).symm.trans (commit_eq_ok.mp hcommit).2
    exact hstore ▸ Iff.rfl
  · have hrunFenced := hfenced.runFenced
      (v := (Session.start c.principal s).view (c.timeline.moment j)) hs.grounded hread
    rw [(commit_eq_ok.mp hcommit).2] at hrunFenced
    exact hrunFenced.hasOpen_iff hs.integrity.deferred

/-- **An envelope can be trusted** when its listing could read the scope, or when what it says does not
depend on the listing: the saved state has a hint, or no outcome of the run is open. -/
def Call.Trusted (platform : Platform) (c : Call) (s : Store) (saved : SavedCheckpoint) : Prop :=
  c.KeepsReading platform s saved.payload.scopeId ∨ saved.state.pendingEffects ≠ []
    ∨ ¬ HasOpen s saved.payload.scopeId saved.payload.runId

/-- **An envelope that allows to resume is right exactly** when it can be trusted. -/
theorem Reachable.resumable_iff (hs : Reachable platform s)
    (h : (c.exec platform s).1 = .ok (.envelope e)) :
    (e.resumeAllowed = true → Resumable (c.exec platform s).2 e.saved.payload.scopeId
        e.saved.payload.runId e.saved.state.pendingEffects)
      ↔ c.Trusted platform s e.saved := by
  have hnext : Reachable platform (c.exec platform s).2 := .event (.call c) hs
  obtain ⟨-, v, hv, hpermitted, epochs, hlisted⟩ := Call.enveloped hs.integrity.foreign h
  rw [Call.Trusted, ← hpermitted, ← hs.sound.hasOpen_iff h]
  have hsound := hnext.sound
  rw [← hv] at hsound ⊢
  -- The listing shows the whole run or, to a caller whose grant has ended, nothing of it.
  by_cases hread : v.permitted e.saved.payload.scopeId .read = true
  · refine iff_of_true (fun hallowed => ?_) (Or.inl hread)
    rw [hlisted] at hallowed
    exact (View.resumable_iff hsound.grounded hsound.integrity.unique hsound.integrity.deferred
      hread).mp hallowed
  · -- nothing is listed
    rw [View.runLedger_eq_nil hsound.grounded hread] at hlisted
    constructor
    · intro hright
      refine Or.inr (or_iff_not_imp_left.mpr fun hnone hopen => ?_)
      rw [not_not] at hnone
      have hallowed : e.resumeAllowed = true := by
        rw [hlisted, resumeAllowed_iff, hnone]
        exact ⟨rfl, rfl⟩
      obtain ⟨effect, heffect, hof, r, hr, hstatus⟩ := hopen
      have hclosed := EffectStatus.not_isOpen_iff.mpr ((hright hallowed).settled effect heffect hof r hr)
      rw [EffectStatus.isOpen_iff.mpr hstatus] at hclosed
      cases hclosed
    · rintro (hread' | hsome | hclosed) hallowed
      · exact absurd hread' hread
      · rw [hlisted, resumeAllowed_iff, untracked_eq_nil] at hallowed
        obtain ⟨hint, hhint⟩ := List.exists_mem_of_ne_nil _ hsome
        exact Bool.noConfusion (hallowed.2 hint hhint)
      · rw [hlisted, resumeAllowed_iff, untracked_eq_nil] at hallowed
        have hnone : e.saved.state.pendingEffects = [] :=
          List.eq_nil_iff_forall_not_mem.mpr fun hint hhint => Bool.noConfusion (hallowed.2 hint hhint)
        refine ⟨fun effect heffect hof r hr => EffectStatus.not_isOpen_iff.mp ?_, ?_, ?_⟩
        · refine Bool.eq_false_iff.mpr fun hopen => hclosed ⟨effect, heffect, hof, r, hr, ?_⟩
          exact EffectStatus.isOpen_iff.mp hopen
        · rw [hnone]
          exact fun hint hhint => absurd hhint List.not_mem_nil
        · rw [hnone]
          exact fun hint hhint => absurd hhint List.not_mem_nil

/-- **An open outcome blocks every later resume** of its run, until a revision with a receipt settles
it. -/
theorem Reachable.open_blocks (hs : Reachable platform s) {effect : ToolEffectRow}
    (heffect : effect ∈ s.ledger.effects) {r : ToolEffectRevisionRow}
    (hr : s.ledger.Current effect r) (hopen : r.status = .dispatched ∨ r.status = .unknown)
    {events : List Event}
    (h : (c.exec platform (runEvents platform events s)).1 = .ok (.envelope e))
    (hof : effect.Of e.saved.payload.scopeId e.saved.payload.runId)
    (htrusted : c.Trusted platform (runEvents platform events s) e.saved)
    (hallowed : e.resumeAllowed = true) :
    ∃ q ∈ (c.exec platform (runEvents platform events s)).2.ledger.revisionsOf effect.id,
      (q.status = .confirmed ∨ q.status = .failed)
        ∧ q.receiptReference.isSome = true ∧ q.receiptSource.isSome = true := by
  have hrun : runEvents platform (events ++ [.call c]) s
      = (c.exec platform (runEvents platform events s)).2 := runEvents_append platform events _ s
  have hnext : Reachable platform (c.exec platform (runEvents platform events s)).2 :=
    .event (.call c) (hs.run events)
  have hresumable := ((hs.run events).resumable_iff h).mpr htrusted hallowed
  have hkept := hs.keptOrSealed heffect (events ++ [.call c])
  rw [hrun] at hkept
  rcases hkept with ⟨⟨n, hn⟩, hrevisions⟩ | hsealed
  · obtain ⟨q, hq⟩ := hnext.integrity.deferred.exists_current hn
    have hrecorded := hnext.sequenced.recorded _ hn
    -- the current revision is not before the open one
    have hkept : r ∈ Ledger.revisionsOf _ effect.id := hrevisions r hr.1
    have hstage := hrecorded.stage_le hkept hq.1 ((hrecorded.bounded r hkept).trans_eq hq.2.symm)
    have hpast := EffectStatus.one_le_stage (EffectStatus.isOpen_iff.mpr hopen)
    have hterminal : q.status = .confirmed ∨ q.status = .failed := by
      refine (hresumable.settled _ hn hof q hq).resolve_left fun hplanned => ?_
      rw [hplanned] at hstage
      exact absurd (Nat.le_trans hpast hstage) (by decide)
    exact ⟨q, hq.1, hterminal, hnext.sequenced.receipts q hq.1.1 (EffectStatus.terminal_iff.mpr hterminal)⟩
  · obtain ⟨⟨id, k, -, n, hn, refs, -, hkey, hactive, hpayload, -⟩, -⟩ :=
      Call.enveloped (hs.run events).integrity.foreign h
    rw [(Prod.mk.inj hof).1, (Prod.mk.inj hof).2, hpayload] at hsealed
    exact (hsealed.not_active hn hkey hactive).elim

end Calls

/-! ## The guarantee -/

/-- **Restores and resuming**: a restore whose key has no receipt fences the run of its checkpoint and
leaves every branch as it is; an envelope that allows to resume is right exactly when it can be trusted;
and an effect whose outcome is open keeps every later envelope of its run that can be trusted from
allowing to resume until a revision with a receipt settles it. -/
theorem restore_fences_and_resumes_iff {platform : Platform} {s : Store} (hs : Reachable platform s) :
    (∀ timeline principal data key e,
      (Call.exec platform ⟨principal, timeline, .restoreCheckpoint data key⟩ s).1 = .ok (.envelope e) →
      (∀ row, ¬ (Session.start principal s).Stored platform .restoreCheckpoint key row) →
      (∃ k ∈ s.checkpointing.checkpoints, k.id = data.checkpointId
        ∧ RunFenced s (Call.exec platform ⟨principal, timeline, .restoreCheckpoint data key⟩ s).2
          k.scopeId k.runId)
      ∧ ∀ b ∈ s.checkpointing.branches,
        b ∈ (Call.exec platform ⟨principal, timeline, .restoreCheckpoint data key⟩ s).2.checkpointing.branches)
    ∧ (∀ (c : Call) e, (c.exec platform s).1 = .ok (.envelope e) →
      ((e.resumeAllowed = true → Resumable (c.exec platform s).2 e.saved.payload.scopeId
          e.saved.payload.runId e.saved.state.pendingEffects)
        ↔ c.Trusted platform s e.saved))
    ∧ ∀ effect ∈ s.ledger.effects, ∀ r, s.ledger.Current effect r →
      r.status = .dispatched ∨ r.status = .unknown →
      ∀ events (c : Call) e, (c.exec platform (runEvents platform events s)).1 = .ok (.envelope e) →
        effect.Of e.saved.payload.scopeId e.saved.payload.runId →
        c.Trusted platform (runEvents platform events s) e.saved → e.resumeAllowed = true →
        ∃ q ∈ (c.exec platform (runEvents platform events s)).2.ledger.revisionsOf effect.id,
          (q.status = .confirmed ∨ q.status = .failed)
            ∧ q.receiptReference.isSome = true ∧ q.receiptSource.isSome = true := by
  refine ⟨fun timeline principal data key e h hfresh => ⟨?_, fun b hb => ?_⟩, fun c e h => ?_, ?_⟩
  · exact hs.sound.restore_fenced h hfresh
  · exact hs.sound.restore_branches timeline principal data key hb
  · exact hs.resumable_iff h
  · intro effect heffect r hr hopen events c e h hof htrusted hallowed
    exact hs.open_blocks heffect hr hopen h hof htrusted hallowed

/-- Restore the checkpoint of the small tenant. -/
def Call.restoring : Call :=
  ⟨1, .ticking 800 900, .restoreCheckpoint ⟨310, 6, .brief, .brief⟩ "key"⟩

/-- Read the checkpoint of the small tenant, with a membership that expires at the last statement. -/
def Call.unread : Call := ⟨1, .ticking 1993 900, .checkpoint 310⟩

/-- The envelope of a response. -/
def Response.envelope? : Response → Option Envelope
  | .envelope e => some e
  | _ => none

theorem Response.envelope?_eq_some {r : Response} {e : Envelope} :
    r.envelope? = some e ↔ r = .envelope e := by
  cases r <;> simp [envelope?]

/-- The envelope of a call that returns one. -/
theorem Call.exists_envelope (platform : Platform) (c : Call) (s : Store) {p : Envelope → Bool}
    (h : ((c.exec platform s).1.toOption.bind Response.envelope?).any p = true) :
    ∃ e, (c.exec platform s).1 = .ok (.envelope e) ∧ p e = true := by
  obtain ⟨e, he, hp⟩ := (Option.any_eq_true _ _).mp h
  obtain ⟨r, hr, hre⟩ := Option.bind_eq_some_iff.mp he
  rw [Response.envelope?_eq_some.mp hre] at hr
  cases hexec : (c.exec platform s).1 with
  | error fault =>
    rw [hexec] at hr
    cases hr
  | ok response =>
    rw [hexec] at hr
    cases hr
    exact ⟨e, rfl, hp⟩

/-- The restore of the small tenant fences its run. -/
theorem restore_fences_and_resumes_dispatched :
    ∃ k ∈ (Store.dispatched none).checkpointing.checkpoints, k.id = 310
      ∧ RunFenced (.dispatched none) (Call.restoring.exec .blind (.dispatched none)).2
        k.scopeId k.runId := by
  obtain ⟨e, he, -⟩ := Call.exists_envelope .blind .restoring (.dispatched none) (p := fun _ => true)
    (by decide +kernel)
  have hfresh : ∀ row ∈ (Store.dispatched none).operations.receipts.rows,
      row.operation ≠ .restoreCheckpoint := by decide +kernel
  refine ((restore_fences_and_resumes_iff (reachable_dispatched none)).1 _ _ _ _ e he ?_).1
  rintro row ⟨hrow, hkey⟩
  exact hfresh row (Table.mem_rows.mpr hrow) (Prod.mk.inj (Prod.mk.inj hkey).2).1

/-- **An envelope that cannot be trusted**: its listing finds the membership expired, and it allows to
resume although an effect of its run is dispatched. -/
theorem checkpoint_resumes_unread :
    ¬ ∀ (s : Store) (c : Call) (e : Envelope), Reachable .blind s →
      (c.exec .blind s).1 = .ok (.envelope e) → e.resumeAllowed = true →
      Resumable (c.exec .blind s).2 e.saved.payload.scopeId e.saved.payload.runId
        e.saved.state.pendingEffects := by
  intro h
  obtain ⟨e, he, hresumes⟩ := Call.exists_envelope .blind .unread (.dispatched (some 2000))
    (p := fun e => e.resumeAllowed && decide
      (e.saved.payload.scopeId = 2 ∧ e.saved.payload.runId = 3)) (by decide +kernel)
  rw [Bool.and_eq_true, decide_eq_true_eq] at hresumes
  obtain ⟨hallowed, hscope, hrun⟩ := hresumes
  have hsettled := (h _ _ e (reachable_dispatched _) he hallowed).settled
  rw [hscope, hrun] at hsettled
  have hopen : ∃ effect ∈ (Call.unread.exec .blind (.dispatched (some 2000))).2.ledger.effects.rows,
      (effect.scopeId = 2 ∧ effect.runId = 3)
        ∧ ∃ r ∈ (Call.unread.exec .blind (.dispatched (some 2000))).2.ledger.revisions.rows,
          (r.effectId = effect.id ∧ r.revision = effect.currentRevision) ∧ r.status = .dispatched := by
    decide +kernel
  obtain ⟨effect, heffect, hof, r, hr, ⟨hid, hrevision⟩, hstatus⟩ := hopen
  have hclosed := hsettled effect (Table.mem_rows.mp heffect) (Prod.ext hof.1 hof.2) r
    ⟨⟨Table.mem_rows.mp hr, hid⟩, hrevision⟩
  rw [hstatus] at hclosed
  rcases hclosed with hclosed | hclosed | hclosed <;> cases hclosed

end PgAgmemory

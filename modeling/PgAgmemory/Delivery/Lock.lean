import PgAgmemory.Delivery.Steps

/-! # Who holds the lock

What a step does to the lock (`Deployment.act_cases`), and from this that a party which is under the lock
holds it as long as its connection lasts, and that nothing which was committed or sent is taken back. -/

namespace PgAgmemory

variable {Party : Type} [DecidableEq Party] {d : Deployment Party} {s : Store} {T T' : Traffic Party}
  {p : Party} {actions : List (Action Party)}

/-- Whether a party is under the lock, if its connection lasts. -/
def Phase.underLock : Phase → Bool
  | .working _ _ _ _ _ | .administering | .administered _ _ _ _ | .unwinding _ | .sending _
  | .closing => true
  | _ => false

/-- **A party under the lock holds it**, but for the parties whose connection was lost. -/
def Traffic.Guarded (T : Traffic Party) (lost : List Party) : Prop :=
  ∀ p, p ∉ lost → (T.phase p).underLock = true → T.holder = some p

/-- The parties whose connection is lost in some steps. -/
def lostIn (actions : List (Action Party)) : List Party :=
  actions.filterMap fun
    | .drop p => some p
    | _ => none

/-! ## Steps -/

/-- **Commits and messages are never taken back.** -/
structure Traffic.Extends (T T' : Traffic Party) : Prop where
  log : T.log <+: T'.log
  wire : ∀ p, T.wire p <+: T'.wire p

omit [DecidableEq Party] in
theorem Traffic.Extends.refl (T : Traffic Party) : T.Extends T :=
  ⟨List.prefix_rfl, fun _ => List.prefix_rfl⟩

omit [DecidableEq Party] in
theorem Traffic.Extends.trans {T₁ : Traffic Party} (h : T.Extends T₁) (h' : T₁.Extends T') :
    T.Extends T' := ⟨h.log.trans h'.log, fun p => (h.wire p).trans (h'.wire p)⟩

/-- **A step within or outside the lock**: one party goes on, to a phase under the lock only from one,
and may commit. -/
def Traffic.Goes (T : Traffic Party) (p : Party) (T' : Traffic Party) : Prop :=
  ∃ X phase, T' = Traffic.set X p phase ∧ X.phase = T.phase ∧ X.holder = T.holder
    ∧ T.Extends X ∧ (phase.underLock = true → (T.phase p).underLock = true)

theorem Traffic.Goes.set {phase : Phase} (h : phase.underLock = true → (T.phase p).underLock = true) :
    T.Goes p (T.set p phase) := ⟨T, phase, rfl, rfl, rfl, .refl T, h⟩

omit [DecidableEq Party] in
/-- A party that fails is under no lock. -/
theorem Deployment.underLock_failed (d : Deployment Party) (p : Party) (raised : Raised) :
    (d.failed p raised).underLock = false := by
  unfold Deployment.failed
  split <;> rfl

theorem Deployment.goes_failed (raised : Raised) : T.Goes p (T.set p (d.failed p raised)) := by
  refine .set fun h => ?_
  rw [d.underLock_failed] at h
  cases h

theorem Deployment.goes_receive {subject : String} {limit : Nat} {received : Received} :
    T.Goes p (d.receive T p subject limit received) := by
  cases received with
  | disconnect => exact .set fun h => by cases h
  | chunk content more =>
    unfold Deployment.receive
    dsimp only
    split
    · refine ⟨_, _, rfl, rfl, rfl, ⟨List.prefix_rfl, fun _ => List.prefix_rfl⟩, fun h => ?_⟩
      rw [d.underLock_failed] at h
      cases h
    · split
      · refine ⟨{ T with heard := Function.update T.heard p (T.heard p ++ content) }, T.phase p, ?_, rfl,
          rfl, ⟨List.prefix_rfl, fun _ => List.prefix_rfl⟩, fun h => h⟩
        unfold Traffic.set
        rw [Function.update_eq_self]
      · exact ⟨_, _, rfl, rfl, rfl, ⟨List.prefix_rfl, fun _ => List.prefix_rfl⟩, fun h => by cases h⟩

theorem Deployment.goes_interrupted {raised : Raised} (h : d.interrupted T p raised = some T') :
    T.Goes p T' := by
  unfold Deployment.interrupted at h
  split at h
  case h_6 hphase => cases h; exact .set fun _ => by rw [hphase]; rfl
  case h_7 hphase => cases h; exact .set fun _ => by rw [hphase]; rfl
  case h_8 hphase => cases h; exact .set fun _ => by rw [hphase]; rfl
  case h_9 hphase => cases h; exact .set fun _ => by rw [hphase]; rfl
  case h_10 hphase => cases h; exact .set fun _ => by rw [hphase]; rfl
  case h_11 => cases h; exact .set fun h => by cases h
  case h_12 => cases h
  all_goals cases h; exact Deployment.goes_failed raised

theorem Deployment.goes_connect {subject : String} : T.Goes p (d.connect T p subject) := by
  unfold Deployment.connect
  split
  · exact Deployment.goes_failed _
  · exact .set fun h => by cases h

theorem Deployment.goes_interact {m : Moment} (h : d.interact T p m = some T') : T.Goes p T' := by
  unfold Deployment.interact at h
  split at h
  next hphase =>
    split at h
    next =>
      split at h <;> cases h <;> exact .set fun _ => by rw [hphase]; rfl
    next => cases h
  next => cases h

theorem Deployment.goes_administer {now recordedAt : Time}
    (h : d.administer T p now recordedAt = some T') : T.Goes p T' := by
  unfold Deployment.administer at h
  split at h
  next hphase _ => split at h <;> cases h <;> exact .set fun _ => by rw [hphase]; rfl
  next => cases h

theorem Deployment.goes_settle {after : Store} {entry : Entry Party} {acknowledged : Bool}
    (h : (T.phase p).underLock = true) : T.Goes p (d.settle T p after entry acknowledged) :=
  ⟨_, _, rfl, rfl, rfl, ⟨List.prefix_append _ _, fun _ => List.prefix_rfl⟩, fun _ => h⟩

theorem Deployment.goes_commit {m : Moment} {acknowledged : Bool}
    (h : d.commit T p m acknowledged = some T') : T.Goes p T' := by
  have hsession : ∀ {session : Session} {entry : Entry Party}, (T.phase p).underLock = true →
      T.Goes p (d.commitSession T p m session entry acknowledged) := by
    intro session entry hunder
    unfold Deployment.commitSession
    split
    · exact .set fun _ => hunder
    · exact Deployment.goes_settle hunder
  unfold Deployment.commit at h
  split at h
  next hphase =>
    have hunder : (T.phase p).underLock = true := by rw [hphase]; rfl
    split at h
    next =>
      split at h
      next => cases h
      next => cases h; exact .set fun _ => hunder
      next => cases h; exact hsession hunder
      next => cases h; exact hsession hunder
    next => cases h
  next hphase _ => cases h; exact Deployment.goes_settle (by rw [hphase]; rfl)
  next => cases h

theorem Traffic.extends_sent (T : Traffic Party) (p : Party) (message : Message) :
    T.Extends { T with wire := Function.update T.wire p (T.wire p ++ [message]) } := by
  refine ⟨List.prefix_rfl, fun q => ?_⟩
  by_cases hq : q = p
  · subst hq
    change _ <+: Function.update T.wire q _ q
    rw [Function.update_self]
    exact List.prefix_append _ _
  · change _ <+: Function.update T.wire p _ q
    rw [Function.update_of_ne hq]

theorem Traffic.goes_send (h : T.send p = some T') : T.Goes p T' := by
  unfold Traffic.send at h
  split at h
  next hphase =>
    cases h
    exact ⟨_, _, rfl, rfl, rfl, T.extends_sent p _, fun _ => by rw [hphase]; rfl⟩
  next =>
    cases h
    exact ⟨_, _, rfl, rfl, rfl, T.extends_sent p _, fun h => by cases h⟩
  next => cases h

/-- **What a step does to the lock**: nothing, or it is taken, or freed by a party that leaves. -/
theorem Deployment.act_cases {a : Action Party} (h : d.act T a = some T') :
    (∃ p, T.Goes p T')
      ∨ (∃ p X phase, T.holder = none ∧ T' = Traffic.set X p phase ∧ X.phase = T.phase
        ∧ X.holder = some p ∧ T.Extends X)
      ∨ (∃ p phase, T' = (T.release p).set p phase ∧ phase.underLock = false)
      ∨ ∃ p, a = .drop p ∧ T' = T.dropped p := by
  cases a with
  | receive p received =>
    simp only [Deployment.act] at h
    split at h
    next => cases h; exact Or.inl ⟨p, Deployment.goes_receive⟩
    next => cases h
  | raise p raised =>
    simp only [Deployment.act] at h
    split at h
    next => exact Or.inl ⟨p, Deployment.goes_interrupted h⟩
    next => cases h
  | connect p =>
    simp only [Deployment.act] at h
    split at h
    next => cases h; exact Or.inl ⟨p, Deployment.goes_connect⟩
    next => cases h
  | lock p =>
    change d.lock T p = some T' at h
    unfold Deployment.lock at h
    split at h
    next => cases h
    next hfree =>
      have hfree : T.holder = none := Option.not_isSome_iff_eq_none.mp hfree
      split at h
      next => cases h; exact Or.inr (Or.inl ⟨p, _, _, hfree, rfl, rfl, rfl, ⟨List.prefix_rfl, fun _ => List.prefix_rfl⟩⟩)
      next => cases h; exact Or.inr (Or.inl ⟨p, _, _, hfree, rfl, rfl, rfl, ⟨List.prefix_rfl, fun _ => List.prefix_rfl⟩⟩)
      next => cases h
  | interact p m => exact Or.inl ⟨p, Deployment.goes_interact h⟩
  | administer p now recordedAt => exact Or.inl ⟨p, Deployment.goes_administer h⟩
  | commit p m acknowledged => exact Or.inl ⟨p, Deployment.goes_commit h⟩
  | send p => exact Or.inl ⟨p, Traffic.goes_send h⟩
  | close p =>
    change d.close T p = some T' at h
    unfold Deployment.close at h
    split at h
    next => cases h; exact Or.inr (Or.inr (Or.inl ⟨p, _, rfl, rfl⟩))
    next => cases h; exact Or.inr (Or.inr (Or.inl ⟨p, _, rfl, rfl⟩))
    next raised _ => cases h; exact Or.inr (Or.inr (Or.inl ⟨p, _, rfl, d.underLock_failed p raised⟩))
    next => cases h
  | drop p => cases h; exact Or.inr (Or.inr (Or.inr ⟨p, rfl, rfl⟩))

/-! ## Possession -/

theorem Traffic.set_phase_of_ne {q : Party} (h : q ≠ p) (phase : Phase) :
    (T.set p phase).phase q = T.phase q := Function.update_of_ne h _ _

/-- The lock of others stays. -/
theorem Traffic.release_holder {q : Party} (h : q ≠ p) (hq : T.holder = some q) :
    (T.release p).holder = some q := by
  unfold Traffic.release
  dsimp only
  rw [if_neg, hq]
  rw [hq]
  exact fun heq => h (Option.some.inj heq)

/-- **A step keeps the parties under the lock in possession of it.** -/
theorem Traffic.Guarded.act {lost : List Party} (h : T.Guarded lost) {a : Action Party}
    (hact : d.act T a = some T') : T'.Guarded (lost ++ lostIn [a]) := by
  intro q hq hunder
  have hkept : q ∉ lost := fun hmem => hq (List.mem_append_left _ hmem)
  rcases Deployment.act_cases hact with ⟨p, X, phase, rfl, hphases, hholder, -, honly⟩
    | ⟨p, X, phase, hfree, rfl, hphases, hholder, -⟩ | ⟨p, phase, rfl, hout⟩ | ⟨p, rfl, rfl⟩
  · change X.holder = some q
    rw [hholder]
    by_cases hqp : q = p
    · subst hqp
      rw [Traffic.set_phase_self] at hunder
      exact h q hkept (honly hunder)
    · rw [Traffic.set_phase_of_ne hqp, hphases] at hunder
      exact h q hkept hunder
  · change X.holder = some q
    by_cases hqp : q = p
    · rw [hholder, hqp]
    · rw [Traffic.set_phase_of_ne hqp, hphases] at hunder
      have hheld := h q hkept hunder
      rw [hfree] at hheld
      cases hheld
  · by_cases hqp : q = p
    · subst hqp
      rw [Traffic.set_phase_self, hout] at hunder
      cases hunder
    · rw [Traffic.set_phase_of_ne hqp] at hunder
      exact Traffic.release_holder hqp (h q hkept hunder)
  · have hqp : q ≠ p := by
      rintro rfl
      exact hq (List.mem_append_right _ (by simp [lostIn]))
    unfold Traffic.dropped at hunder ⊢
    split at hunder
    next hin =>
      rw [if_pos hin]
      rw [Traffic.set_phase_of_ne hqp] at hunder
      exact Traffic.release_holder hqp (h q hkept hunder)
    next hin =>
      rw [if_neg hin]
      exact Traffic.release_holder hqp (h q hkept hunder)

/-- Along a run, the parties under the lock hold it. -/
theorem Traffic.Guarded.run {lost : List Party} (h : T.Guarded lost)
    (hrun : d.run T actions = some T') : T'.Guarded (lost ++ lostIn actions) := by
  induction actions generalizing T lost with
  | nil =>
    cases hrun
    rw [lostIn, List.filterMap_nil, List.append_nil]
    exact h
  | cons a actions ih =>
    obtain ⟨T₁, hact, hrest⟩ := d.run_cons.mp hrun
    have hlater := ih (h.act hact) hrest
    rw [List.append_assoc, lostIn, lostIn, ← List.filterMap_append, List.singleton_append] at hlater
    exact hlater

omit [DecidableEq Party] in
theorem Deployment.guarded_initial (d : Deployment Party) (s : Store) : (d.initial s).Guarded [] := by
  intro p _ hunder
  change (d.begins p).underLock = true at hunder
  unfold Deployment.begins at hunder
  split at hunder
  next =>
    split at hunder
    next => cases hunder
    next =>
      rw [d.underLock_failed] at hunder
      cases hunder
  next => cases hunder
  next => cases hunder

/-! ## Nothing is taken back -/

/-- A step takes nothing back. -/
theorem Deployment.extends_act {a : Action Party} (h : d.act T a = some T') : T.Extends T' := by
  rcases Deployment.act_cases h with ⟨p, X, phase, rfl, -, -, hextends, -⟩
    | ⟨p, X, phase, -, rfl, -, -, hextends⟩ | ⟨p, phase, rfl, -⟩ | ⟨p, -, rfl⟩
  · exact ⟨hextends.log, hextends.wire⟩
  · exact ⟨hextends.log, hextends.wire⟩
  · exact ⟨List.prefix_rfl, fun _ => List.prefix_rfl⟩
  · unfold Traffic.dropped
    split <;> exact ⟨List.prefix_rfl, fun _ => List.prefix_rfl⟩

/-- A run takes nothing back. -/
theorem Deployment.extends_run (h : d.run T actions = some T') : T.Extends T' := by
  induction actions generalizing T with
  | nil =>
    cases h
    exact .refl _
  | cons a actions ih =>
    obtain ⟨T₁, hact, hrest⟩ := d.run_cons.mp h
    exact (Deployment.extends_act hact).trans (ih hrest)

omit [DecidableEq Party] in
/-- The parties whose connections are lost are those whose loss is a step. -/
theorem mem_lostIn : p ∈ lostIn actions ↔ .drop p ∈ actions := by
  unfold lostIn
  rw [List.mem_filterMap]
  constructor
  · rintro ⟨a, ha, hp⟩
    cases a with
    | drop q =>
      cases hp
      exact ha
    | _ => cases hp
  · intro h
    exact ⟨_, h, rfl⟩

end PgAgmemory

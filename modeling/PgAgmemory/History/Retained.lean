import PgAgmemory.History.Seals

/-! # What no event takes away

Tombstones, receipts and the identities of source events, jobs and effects are never deleted, not even
by a purge, and the secret of a tenant never changes (`Sound.retains`). So the receipts of a run go on
resting on their requests (`AllBacked.run`), when the texts of the requests have different digests. -/

namespace PgAgmemory

section Retained

variable {platform : Platform} {s s' : Store}

/-- A run takes nothing of it away. -/
theorem Reachable.retains (hs : Reachable platform s) (events : List Event) :
    Retains s (runEvents platform events s) := by
  induction events generalizing s with
  | nil => exact .refl s
  | cons e events ih => exact (hs.sound.retains e).trans (ih (.event e hs))

end Retained

/-! ## Receipts rest on their requests -/

/-- The texts of an event whose digests are compared, where a store has recorded what they name. -/
def Event.texts (platform : Platform) (s : Store) : Event → Set String
  | .call c => c.request.texts platform s
  | .access _ _ _ => ∅

/-- An event keeps its texts. -/
theorem Event.texts_mono {platform : Platform} {s s' : Store} (hkept : Retains s s') (e : Event) :
    e.texts platform s ⊆ e.texts platform s' := by
  cases e with
  | call c => exact Request.texts_mono hkept c.request
  | access request now recordedAt => exact subset_rfl

section Backed

variable {platform : Platform} {texts : Set String} {s s' : Store}

/-- The receipt of a purge rests on nothing. -/
theorem AllBacked.purged {gone : Gone} (h : AllBacked platform texts s) (hp : Purged s s' gone) :
    AllBacked platform texts s' := by
  obtain ⟨receipt, hforget, -, hmem⟩ := hp.receipts
  intro r hr
  rcases (hmem r).mp hr with rfl | hold
  · rw [hforget]
    trivial
  · exact (h r hold).of_retains hp.retains

/-- A program of the discipline that commits, as a run of its setting. -/
theorem Does.committed {c : Setting} {α : Type} {p : Tx α} {Q : α → Session → Prop}
    {principal : UUID} {a : α} (hdoes : Does c p Q 0 (.start principal c.start))
    (h : PgAgmemory.attempt c.platform c.timeline principal p c.start = .ok (a, s')) :
    ∃ σ, σ.store = s' ∧ Session.Follows c (.start principal c.start) σ ∧ Q a σ := by
  obtain ⟨n, σ, hrun, hcommit⟩ := attempt_eq_ok.mp h
  obtain ⟨hfollows, hQ⟩ := Interactive.Program.Ensures.of_run hdoes hrun
  exact ⟨σ, (commit_eq_ok.mp hcommit).2, hfollows, hQ⟩

/-- **An event keeps the receipts resting on their requests.** -/
theorem AllBacked.event (hs : Sound s) (h : AllBacked platform texts s)
    (hinjective : Set.InjOn (platform.hmac s.access.dedupSecret) texts) (e : Event)
    (htexts : e.texts platform (e.exec platform s) ⊆ texts) :
    AllBacked platform texts (e.exec platform s) := by
  cases e with
  | call c =>
    change c.request.texts platform (c.exec platform s).2 ⊆ texts at htexts
    change AllBacked platform texts (c.exec platform s).2
    rcases c.exec_cases platform s with ⟨fault, hexec⟩ | ⟨response, s', hok, hexec⟩
    · rw [hexec]
      exact h
    · rw [hexec] at htexts ⊢
      rcases hs.attempt_cases hok with hdeletes | rfl | ⟨gone, hpurged⟩
      · have hdoes : Does ⟨platform, c.request, texts, c.timeline, s⟩
            (c.request.program platform) (fun _ _ => True) 0 (.start c.principal s) :=
          Request.does rfl (.start hs.integrity.foreign c.principal) hdeletes
        obtain ⟨σ, rfl, hfollows, -⟩ := hdoes.committed hok
        exact hfollows.backed ⟨hinjective, h, htexts⟩ h
      · exact h
      · exact h.purged hpurged
  | access request now recordedAt =>
    obtain ⟨access, hsecret, hexec⟩ := Event.exec_secret platform request now recordedAt s
    have hkept : Retains s (Event.exec platform (.access request now recordedAt) s) :=
      hs.retains _
    intro r hr
    rw [hexec] at hr
    exact (h r hr).of_retains hkept

/-- **The texts of a run**: those of its events, where its last store has recorded what they name. -/
def runTexts (platform : Platform) (events : List Event) (s : Store) : Set String :=
  {text | ∃ e ∈ events, text ∈ e.texts platform (runEvents platform events s)}

/-- **Over a run the receipts rest on their requests.** -/
theorem AllBacked.run (hs : Reachable platform s) (h : AllBacked platform texts s)
    (hinjective : Set.InjOn (platform.hmac s.access.dedupSecret) texts) {events : List Event}
    (htexts : ∀ e ∈ events, e.texts platform (runEvents platform events s) ⊆ texts) :
    AllBacked platform texts (runEvents platform events s) := by
  induction events generalizing s with
  | nil => exact h
  | cons e events ih =>
    have hlater : Retains (e.exec platform s) (runEvents platform (e :: events) s) :=
      (hs.event e).retains events
    have hevent := (e.texts_mono hlater).trans (htexts e List.mem_cons_self)
    refine ih (.event e hs) (h.event hs.sound hinjective e hevent) ?_
      fun e' he' => htexts e' (List.mem_cons_of_mem e he')
    rw [hs.sound.secret e]
    exact hinjective

end Backed

end PgAgmemory

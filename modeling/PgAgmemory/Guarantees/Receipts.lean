import PgAgmemory.Guarantees.Envelopes
import PgAgmemory.History.Retained
import PgAgmemory.Operations.Repeats

/-! # Keys

A key binds its principal's requests of one operation for good (`keys_bound`): once a request under it
was answered, every later request under it changes nothing, whatever happened in between, and is
answered only if its body has the same digest. The same request again gets the same answer. -/

namespace PgAgmemory

open Keyed (Table)

/-! ## Keys bind -/

section Keys

variable {platform : Platform} {s : Store} {c c' : Call} {use use' : KeyUse} {r : Response}

/-- **The same answer**: an envelope of the same checkpoint, or the very same response. -/
def Response.Repeats : Response → Response → Prop
  | .envelope e', .envelope e => e'.saved.payload.checkpointId = e.saved.payload.checkpointId
  | r', r => r' = r

/-- Two answers to one request that carry one receipt are the same. -/
theorem Request.Carries.repeats {request : Request} {result : Receipt} {r r' : Response}
    (h : request.Carries result r) (h' : request.Carries result r') : r'.Repeats r := by
  cases request with
  | restoreCheckpoint data key =>
    obtain ⟨e, rfl, he⟩ := h
    obtain ⟨e', rfl, he'⟩ := h'
    exact Option.some.inj (he'.symm.trans he)
  | _ =>
    cases h
    cases h'
    exact rfl

/-- **An answered request leaves a receipt under its key**, which its answer carries. -/
theorem Call.settles (huse : c.request.keyUse = some use) (h : (c.exec platform s).1 = .ok r) :
    ∃ result, c.request.Carries result r
      ∧ use.row platform s c.principal result ∈ (c.exec platform s).2.operations.receipts := by
  obtain ⟨m, σ, ⟨result, hcarries, hrow⟩, hstore⟩ :=
    Call.exec_returns h (Request.runsOnce platform huse).settles
  rw [← hstore]
  exact ⟨result, hcarries, hrow⟩

/-- **Under a stored receipt a request changes nothing**, and is answered by the receipt if at all. -/
theorem Call.repeats (huse : c.request.keyUse = some use) {row : IdempotencyRow}
    (hrow : row ∈ s.operations.receipts)
    (hkey : (row.principalId, row.operation, row.keyDigest)
      = (c.principal, use.operation, s.digest platform use.key)) :
    (c.exec platform s).2 = s ∧ ∀ r, (c.exec platform s).1 = .ok r →
      row.requestDigest = s.digest platform use.payload ∧ c.request.Carries row.result r := by
  have hstored : (Session.start c.principal s).Stored platform use.operation use.key row :=
    ⟨hrow, hkey⟩
  have hrepeats : Outcome platform c.timeline (c.request.program platform)
      (fun r _ σ => σ = .start c.principal s ∧ row.requestDigest = s.digest platform use.payload
        ∧ c.request.Carries row.result r) (fun _ => True) 0 (.start c.principal s) :=
    (Request.runsOnce platform huse).repeats hstored
  refine ⟨?_, fun r hok => ?_⟩
  · rcases c.exec_cases platform s with ⟨fault, hexec⟩ | ⟨response, s', hok, hexec⟩
    · rw [hexec]
    · obtain ⟨m, σ, ⟨rfl, -⟩, hstore⟩ := Call.exec_returns (congrArg Prod.fst hexec) hrepeats
      exact hstore.symm
  · obtain ⟨m, σ, ⟨-, hdigest, hcarries⟩, -⟩ := Call.exec_returns hok hrepeats
    exact ⟨hdigest, hcarries⟩

/-- **A key is bound for good.** Once a request under a key was answered, whatever runs in between, a
later request of the same principal and operation under that key changes nothing. It is answered only
if the digest of its body is that of the first one, and the same request gets the same answer. -/
theorem keys_bound (hs : Reachable platform s) (huse : c.request.keyUse = some use)
    (huse' : c'.request.keyUse = some use') (hprincipal : c'.principal = c.principal)
    (hkey : (use'.operation, use'.key) = (use.operation, use.key))
    (hok : (c.exec platform s).1 = .ok r) (events : List Event) :
    (c'.exec platform (runEvents platform events (c.exec platform s).2)).2
        = runEvents platform events (c.exec platform s).2
      ∧ ∀ r', (c'.exec platform (runEvents platform events (c.exec platform s).2)).1 = .ok r' →
        s.digest platform use'.payload = s.digest platform use.payload
          ∧ (c'.request = c.request → r'.Repeats r) := by
  obtain ⟨result, hcarries, hrow⟩ := Call.settles huse hok
  have hnext : Reachable platform (c.exec platform s).2 := .event (.call c) hs
  have hkept := hnext.retains events
  -- the secret is that of the first call
  have hdigest : ∀ text, (runEvents platform events (c.exec platform s).2).digest platform text
      = s.digest platform text :=
    Store.digest_retained ((hs.sound.retains (.call c)).trans hkept)
  obtain ⟨hoperation, hkey⟩ := Prod.mk.inj hkey
  obtain ⟨hsame, hanswer⟩ := Call.repeats (c := c') huse' (hkept.receipts _ hrow) (by
    rw [hdigest, hprincipal, hoperation, hkey]
    rfl)
  refine ⟨hsame, fun r' hok' => ?_⟩
  obtain ⟨hpayload, hcarries'⟩ := hanswer r' hok'
  rw [hdigest] at hpayload
  refine ⟨hpayload.symm, fun hrequest => ?_⟩
  rw [hrequest] at hcarries'
  exact hcarries.repeats hcarries'

end Keys

/-- The observation of the small tenant, at some time. -/
def Call.observing (start : Time) (drawn : Nat) : Call :=
  ⟨1, .ticking start drawn, .observe (.brief 2) "key"⟩

set_option maxRecDepth 10000 in
/-- The rule at the small tenant: its observation, repeated after an assertion, gets its answer. -/
theorem keys_bound_small :
    ∃ r r', ((Call.observing 0 100).exec .plain (.provisioned (.sole 1 2 none))).1 = .ok r
      ∧ (Call.observing 600 500).exec .plain .remembered = (.ok r', .remembered)
      ∧ r'.Repeats r := by
  have hfirst : (((Call.observing 0 100).exec .plain (.provisioned (.sole 1 2 none))).1.toOption.bind
      Response.receipt?).isSome = true := by decide +kernel
  obtain ⟨r, hr⟩ := Option.isSome_iff_exists.mp hfirst
  have hagain : (((Call.observing 600 500).exec .plain .remembered).1.toOption.bind
      Response.receipt?).isSome = true := by decide +kernel
  obtain ⟨r', hr'⟩ := Option.isSome_iff_exists.mp hagain
  have hok := Response.receipt?_eq_some hr
  have hok' := Response.receipt?_eq_some hr'
  have huse : ∀ start drawn, (Call.observing start drawn).request.keyUse
      = some ⟨.observe, "key", compactText (Observe.brief 2).dump⟩ := fun _ _ => rfl
  obtain ⟨hsame, hanswer⟩ := keys_bound (.provisioned _) (huse 0 100) (huse 600 500) rfl rfl hok
    [.call ⟨1, .ticking 200 300, .remember .brief "key"⟩]
  exact ⟨_, _, hok, Prod.ext hok' hsame, (hanswer _ hok').2 rfl⟩

end PgAgmemory

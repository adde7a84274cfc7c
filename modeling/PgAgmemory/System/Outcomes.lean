import PgAgmemory.System.Reading
import PgAgmemory.System.Writers

/-! # Outcomes of the shared steps

What a run of the service's building blocks ends with: the value it returns, the moment it has reached
and the fault it gave up with (`Outcome`). Reading steps leave the session as it is and use one moment
each. -/

namespace PgAgmemory

open Interactive (Program)
open Interactive.Program (ReadOnly)

/-- **The outcome of a program of the service.** -/
abbrev Outcome (platform : Platform) (timeline : Timeline) {α : Type} (p : Tx α)
    (Q : α → Nat → Session → Prop) (F : Fault → Prop) (n : Nat) (σ : Session) : Prop :=
  Program.Yields (step platform) timeline.moment p Q F n σ

section Rules

variable {platform : Platform} {timeline : Timeline} {α β : Type} {n : Nat} {σ : Session}
  {Q : β → Nat → Session → Prop} {F : Fault → Prop}

/-- A program that is done has the outcome of its answer. -/
theorem outcome_pure {a : β} (h : Q a n σ) : Outcome platform timeline (pure a) Q F n σ := h

/-- A program that starts with an answer goes on with it. -/
theorem outcome_pure_bind {a : α} {k : α → Tx β} (h : Outcome platform timeline (k a) Q F n σ) :
    Outcome platform timeline (pure a >>= k) Q F n σ := h

/-- A program that gives up has the outcome of its fault. -/
theorem outcome_raise {fault : Fault} (h : F fault) :
    Outcome platform timeline (.raise fault : Tx β) Q F n σ := h

/-- Sequencing. -/
theorem outcome_bind {p : Tx α} {k : α → Tx β} {P : α → Nat → Session → Prop}
    (hp : Outcome platform timeline p P F n σ)
    (hk : ∀ a m σ', n ≤ m → P a m σ' → Outcome platform timeline (k a) Q F m σ') :
    Outcome platform timeline (p >>= k) Q F n σ :=
  Program.yields_bind.mpr (hp.mono hk fun _ h => h)

/-- A query takes a moment, and sees the session at it. -/
theorem outcome_read {query : View → α} {k : α → Tx β}
    (h : Outcome platform timeline (k (query (σ.view (timeline.moment n)))) Q F (n + 1) σ) :
    Outcome platform timeline (read query >>= k) Q F n σ := h

/-- A query that reads the clock sees the moment as well. -/
theorem outcome_readAt {query : Moment → View → α} {k : α → Tx β}
    (h : Outcome platform timeline (k (query (timeline.moment n) (σ.view (timeline.moment n)))) Q F
      (n + 1) σ) :
    Outcome platform timeline (readAt query >>= k) Q F n σ := h

/-- The identifier drawn is that of the moment. -/
theorem outcome_drawUUID {k : UUID → Tx β}
    (h : Outcome platform timeline (k (timeline.moment n).uuid) Q F (n + 1) σ) :
    Outcome platform timeline (drawUUID >>= k) Q F n σ := h

/-- After a demand its condition holds, or the program gives up with its code. -/
theorem outcome_demand {condition : Bool} {code : ErrorCode} {k : Unit → Tx β}
    (h : condition = true → Outcome platform timeline (k ()) Q F n σ)
    (hfail : condition = false → F (.memory code)) :
    Outcome platform timeline (demand condition code >>= k) Q F n σ := by
  cases condition with
  | true => exact h rfl
  | false => exact hfail rfl

/-- After a lookup there is a row, or the program gives up with its code. -/
theorem outcome_found {row : Option α} {code : ErrorCode} {k : α → Tx β}
    (h : ∀ a, row = some a → Outcome platform timeline (k a) Q F n σ)
    (hfail : row = none → F (.memory code)) :
    Outcome platform timeline (found row code >>= k) Q F n σ := by
  cases row with
  | some a => exact h a rfl
  | none => exact hfail rfl

/-- A statement is sent. -/
theorem outcome_send {st : Statement} {k : Unit → Tx β}
    (h : ∀ r σ', step platform st (timeline.moment n) σ = .ok (r, σ') →
      Outcome platform timeline (k ()) Q F (n + 1) σ')
    (hfail : ∀ fault, step platform st (timeline.moment n) σ = .error fault → F fault) :
    Outcome platform timeline (send st >>= k) Q F n σ :=
  Program.yields_execute h hfail

/-- A statement is sent last. -/
theorem outcome_send_last {st : Statement} {Q : Unit → Nat → Session → Prop}
    (h : ∀ r σ', step platform st (timeline.moment n) σ = .ok (r, σ') → Q () (n + 1) σ')
    (hfail : ∀ fault, step platform st (timeline.moment n) σ = .error fault → F fault) :
    Outcome platform timeline (send st) Q F n σ :=
  Program.yields_execute (fun r σ' hstep => outcome_pure (h r σ' hstep)) hfail

/-- A statement whose answer is used is taken, or gives up with its fault. -/
theorem outcome_sendReturning {st : Statement} {k : Returned → Tx β}
    (h : ∀ r σ', step platform st (timeline.moment n) σ = .ok (r, σ') →
      Outcome platform timeline (k r) Q F (n + 1) σ')
    (hfail : ∀ fault, step platform st (timeline.moment n) σ = .error fault → F fault) :
    Outcome platform timeline (sendReturning st >>= k) Q F n σ :=
  Program.yields_execute h hfail

/-- A part about which nothing is known. -/
theorem outcome_any_bind {p : Tx α} {k : α → Tx β}
    (hk : ∀ a m σ', Outcome platform timeline (k a) Q (fun _ => True) m σ') :
    Outcome platform timeline (p >>= k) Q (fun _ => True) n σ :=
  outcome_bind (Program.yields_any p n σ) fun a m σ' _ _ => hk a m σ'

/-- A part that only reads, and about which nothing else is known. -/
theorem outcome_readOnly {p : Tx α} (hp : ReadOnly p) (hF : ∀ fault, F fault) :
    Outcome platform timeline p (fun _ _ σ' => σ' = σ) F n σ := by
  have hkept : p.Ensures (step platform) timeline.moment (fun _ _ => True) (fun _ _ σ' => σ' = σ) n σ :=
    hp.ensures n σ
  exact hkept.yields.mono (fun _ _ _ _ h => h) fun fault _ => hF fault

/-- A list that is another one, mapped. -/
theorem eq_map_of_forall₂ {f : α → β} {xs : List α} {ys : List β}
    (h : List.Forall₂ (fun x y => y = f x) xs ys) : ys = xs.map f := by
  induction h with
  | nil => rfl
  | cons hhead _ ih => rw [List.map_cons, hhead, ih]

/-- Every result comes from an element. -/
theorem exists_of_forall₂ {P : α → β → Prop} {xs : List α} {ys : List β}
    (h : List.Forall₂ P xs ys) {y : β} (hy : y ∈ ys) : ∃ x ∈ xs, P x y := by
  induction h with
  | nil => exact absurd hy List.not_mem_nil
  | cons hhead _ ih =>
    rcases List.mem_cons.mp hy with rfl | htail
    · exact ⟨_, List.mem_cons_self, hhead⟩
    · obtain ⟨x, hx, hrel⟩ := ih htail
      exact ⟨x, List.mem_cons_of_mem _ hx, hrel⟩

/-- **Collecting rule**: a loop over a list, one result for each element. -/
theorem outcome_forCollect {f : α → Tx β} {P : α → β → Prop} {F : Fault → Prop} {xs : List α}
    (h : ∀ x ∈ xs, ∀ m, n ≤ m → Outcome platform timeline (f x) (fun b _ σ' => σ' = σ ∧ P x b) F m σ) :
    Outcome platform timeline (forCollect f xs)
      (fun bs _ σ' => σ' = σ ∧ List.Forall₂ P xs bs) F n σ := by
  induction xs generalizing n with
  | nil => exact ⟨rfl, .nil⟩
  | cons x xs ih =>
    refine outcome_bind (h x List.mem_cons_self n (Nat.le_refl n)) ?_
    rintro b m σ' hle ⟨rfl, hb⟩
    refine outcome_bind (ih fun y hy k hk =>
      h y (List.mem_cons_of_mem x hy) k (Nat.le_trans hle hk)) ?_
    rintro bs k σ' - ⟨rfl, hbs⟩
    exact ⟨rfl, .cons hb hbs⟩

end Rules

/-! ## Lookups -/

section Lookups

open MemoryService

variable {platform : Platform} {timeline : Timeline} {n : Nat} {σ : Session}

/-- A digest is that of the tenant's secret. -/
theorem outcome_digest {β : Type} {text : String} {k : Digest → Tx β} {Q : β → Nat → Session → Prop}
    {F : Fault → Prop}
    (h : Outcome platform timeline (k (σ.store.digest platform text)) Q F (n + 1) σ) :
    Outcome platform timeline (digest platform text >>= k) Q F n σ := h

/-- Decoded rows are rows that the client can read. -/
theorem outcome_decode {α β : Type} {readable : α → Bool} {rows : List α} {k : List α → Tx β}
    {Q : β → Nat → Session → Prop} {F : Fault → Prop}
    (h : rows.all readable = true → Outcome platform timeline (k rows) Q F n σ)
    (hfail : rows.all readable = false → F .database) :
    Outcome platform timeline (decode readable rows >>= k) Q F n σ := by
  unfold decode
  cases hreadable : rows.all readable with
  | true => exact h hreadable
  | false => exact hfail hreadable

/-- A required permission is there. -/
theorem outcome_scope (scopeId : UUID) (permission : Permission) :
    Outcome platform timeline (scope scopeId permission)
      (fun _ m σ' => σ' = σ ∧ m = n + 1
        ∧ (σ.view (timeline.moment n)).permitted scopeId .read = true
        ∧ (σ.view (timeline.moment n)).permitted scopeId permission = true)
      (fun fault => fault = .memory .notFound) n σ := by
  refine outcome_read ?_
  cases hallowed : (σ.view (timeline.moment n)).permitted scopeId .read
      && (σ.view (timeline.moment n)).permitted scopeId permission with
  | true => exact ⟨rfl, rfl, Bool.and_eq_true_iff.mp hallowed⟩
  | false => exact rfl

/-- A looked-up object is visible, with the required permission at the next statement. -/
theorem outcome_object (id : UUID) (permission : Permission) :
    Outcome platform timeline (object id permission)
      (fun o m σ' => σ' = σ ∧ m = n + 2
        ∧ (σ.view (timeline.moment n)).object? id = some o
        ∧ (σ.view (timeline.moment (n + 1))).permitted o.scopeId .read = true
        ∧ (σ.view (timeline.moment (n + 1))).permitted o.scopeId permission = true)
      (fun fault => fault = .memory .notFound) n σ := by
  refine outcome_read (outcome_found (fun o ho => ?_) fun _ => rfl)
  refine outcome_bind (outcome_scope o.scopeId permission) ?_
  rintro - m σ' - ⟨rfl, rfl, hread, hpermission⟩
  exact outcome_pure ⟨rfl, rfl, ho, hread, hpermission⟩

/-- The receipts under a key. -/
def Session.Stored (platform : Platform) (σ : Session) (operation : Operation) (key : String)
    (row : IdempotencyRow) : Prop :=
  row ∈ σ.store.operations.receipts ∧ (row.principalId, row.operation, row.keyDigest)
    = (σ.principal, operation, σ.store.digest platform key)

/-- **The stored receipt of a key**, or none. -/
theorem outcome_replay (operation : Operation) (key payload : String) :
    Outcome platform timeline (replay platform operation key payload)
      (fun r _ σ' => σ' = σ ∧ r.1 = σ.store.digest platform key
        ∧ r.2.1 = σ.store.digest platform payload
        ∧ (r.2.2 = none → ∀ row, ¬ σ.Stored platform operation key row)
        ∧ ∀ result, r.2.2 = some result → ∃ row, σ.Stored platform operation key row
          ∧ row.result = result ∧ row.requestDigest = σ.store.digest platform payload)
      (fun _ => True) n σ := by
  refine outcome_read (outcome_read (outcome_read ?_))
  split
  next hrow =>
    refine outcome_pure ⟨rfl, rfl, rfl, fun _ row hstored => ?_, fun result hresult => ?_⟩
    · exact Keyed.Table.find?_eq_none_iff.mp hrow row hstored.1 hstored.2
    · cases hresult
  next row hrow =>
    refine outcome_demand (fun hdigest => ?_) fun _ => trivial
    refine outcome_bind (outcome_readOnly (readOnly_checkReceipt _) fun _ => trivial) ?_
    rintro - m σ' - rfl
    refine outcome_pure ⟨rfl, rfl, rfl, fun hnone => ?_, fun result hresult => ?_⟩
    · cases hnone
    · obtain ⟨hmem, hkey⟩ := Keyed.Table.find?_eq_some_iff.mp hrow
      exact ⟨row, ⟨hmem, hkey⟩, Option.some.inj hresult, of_decide_eq_true hdigest⟩

/-- **Once a key**: the stored receipt of the key, or the fresh part when there is none. -/
theorem outcome_once {α : Type} {operation : Operation} {key payload : String}
    {replayed : Receipt → Tx α} {fresh : Digest → Digest → Tx α} {Q : α → Nat → Session → Prop}
    (hreplayed : ∀ row m, n ≤ m → σ.Stored platform operation key row →
      row.requestDigest = σ.store.digest platform payload →
      Outcome platform timeline (replayed row.result) Q (fun _ => True) m σ)
    (hfresh : ∀ m, n ≤ m → (∀ row, ¬ σ.Stored platform operation key row) →
      Outcome platform timeline (fresh (σ.store.digest platform key)
        (σ.store.digest platform payload)) Q (fun _ => True) m σ) :
    Outcome platform timeline (once platform operation key payload replayed fresh) Q
      (fun _ => True) n σ := by
  refine outcome_bind (outcome_replay operation key payload) ?_
  rintro ⟨kd, rd, previous⟩ m σ' hle ⟨rfl, rfl, rfl, hnone, hsome⟩
  cases previous with
  | none => exact hfresh m hle (hnone rfl)
  | some result =>
    obtain ⟨row, hstored, rfl, hdigest⟩ := hsome result rfl
    exact hreplayed row m hle hstored hdigest

end Lookups

end PgAgmemory

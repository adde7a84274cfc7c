import PgAgmemory.Models.Requests
import Mathlib.Data.List.Induction
import Mathlib.Tactic.Ring

/-! # Validation of saved states

`CheckpointState.model_validate` as the service applies it to a state that it has stored itself: every
member is read back from its JSON and every check of the model is made again. A stored state is read
back as it was written (`validate_dump`). -/

namespace PgAgmemory

open Json (Value Items)

/-! ## Scalars -/

/-- The characters of a JSON text. -/
def textOf? : Value → Option String
  | .text s => some s
  | _ => none

/-- Digits in front of further digits. -/
theorem value_append (base : Nat) (xs ys : List Char) :
    Digits.value base (xs ++ ys) = Digits.value base xs * base ^ ys.length + Digits.value base ys := by
  induction ys using List.reverseRecOn with
  | nil => simp [Digits.value]
  | append_singleton ys y ih =>
    have hsnoc : ∀ zs : List Char,
        Digits.value base (zs ++ [y]) = Digits.value base zs * base + Digits.digitValue y := by
      intro zs
      simp [Digits.value, List.foldl_append]
    rw [← List.append_assoc, hsnoc, hsnoc, ih, List.length_append, List.length_singleton,
      Nat.pow_succ]
    ring

/-- The UUID of a canonical text. -/
def UUID.parse? (s : String) : Option UUID :=
  let u : UUID := Fin.ofNat (2 ^ 128) (Digits.value 16 (s.toList.filter fun c => c ≠ '-'))
  if UUID.str u = s then some u else none

/-- Digits are not separators. -/
theorem filter_fixed (width n : Nat) :
    (Digits.fixed 16 width n).filter (fun c => c ≠ '-') = Digits.fixed 16 width n := by
  have hdigit : ∀ k : Fin 16, Digits.digitChar k ≠ '-' := by decide +kernel
  induction width generalizing n with
  | zero => rfl
  | succ width ih =>
    have hlast := hdigit ⟨n % 16, Nat.mod_lt n (by decide)⟩
    rw [Digits.fixed, List.filter_append, ih, List.filter_singleton]
    simp [hlast]

/-- **The canonical text is read back.** -/
theorem UUID.parse?_str (u : UUID) : UUID.parse? (UUID.str u) = some u := by
  have hsep : ∀ cs : List Char, ('-' :: cs).filter (fun c => c ≠ '-')
      = cs.filter fun c => c ≠ '-' := fun cs => List.filter_cons_of_neg (by decide)
  have hmod : ∀ k : Nat, u.val / 16 ^ k % 16 ^ 4 < 16 ^ 4 := fun k => Nat.mod_lt _ (by decide)
  have hvalue : Digits.value 16 ((UUID.str u).toList.filter fun c => c ≠ '-') = u.val := by
    rw [UUID.str, String.toList_ofList, groupChars]
    simp only [List.filter_append, hsep, filter_fixed, List.append_nil, value_append,
      List.length_append, Digits.length_fixed]
    rw [Digits.value_fixed (by decide) (by decide)
        (Nat.div_lt_of_lt_mul (Nat.lt_of_lt_of_eq u.isLt (by decide))),
      Digits.value_fixed (by decide) (by decide) (hmod 20),
      Digits.value_fixed (by decide) (by decide) (hmod 16),
      Digits.value_fixed (by decide) (by decide) (hmod 12),
      Digits.value_fixed (by decide) (by decide) (Nat.mod_lt _ (by decide))]
    omega
  have hfin : (Fin.ofNat (2 ^ 128) u.val : UUID) = u := Fin.ext (Nat.mod_eq_of_lt u.isLt)
  simp only [UUID.parse?, hvalue, hfin, if_true]

/-- A text that has the right length when it is stripped. -/
def Text.parse? (least most : Nat) (s : String) : Option (Text least most) :=
  if h : (least ≤ (strip s).length ∧ (strip s).length ≤ most) ∧ Stripped (strip s)
  then some ⟨strip s, h.1.1, h.1.2, h.2⟩ else none

theorem Text.parse?_str {least most : Nat} (t : Text least most) :
    Text.parse? least most t.str = some t := by
  have hstrip := strip_of_stripped t.stripped
  unfold Text.parse?
  simp only [hstrip]
  exact dif_pos ⟨⟨t.least_le, t.le_most⟩, t.stripped⟩

/-- The status of a name. -/
def EffectStatus.parse? (s : String) : Option EffectStatus :=
  [EffectStatus.planned, .dispatched, .unknown, .confirmed, .failed].find? fun status =>
    status.str = s

theorem EffectStatus.parse?_str (status : EffectStatus) :
    EffectStatus.parse? status.str = some status := by
  cases status <;> decide

/-! ## Members -/

/-- The text of a JSON value. -/
def validateText (least most : Nat) (v : Value) : Option (Text least most) :=
  (textOf? v).bind (Text.parse? least most)

theorem validateText_dump {least most : Nat} (t : Text least most) :
    validateText least most t.dump = some t := Text.parse?_str t

/-- Every item of a JSON array. -/
def validateList {α : Type} (validate : Value → Option α) : List Value → Option (List α)
  | [] => some []
  | v :: vs => (validate v).bind fun a => (validateList validate vs).map fun as => a :: as

theorem validateList_map {α : Type} {validate : Value → Option α} {dump : α → Value}
    (h : ∀ a, validate (dump a) = some a) (xs : List α) :
    validateList validate (xs.map dump) = some xs := by
  induction xs with
  | nil => rfl
  | cons x xs ih => simp [validateList, h, ih]

/-- The items of a member, which may be left out. -/
def itemsOf? (v : Value) (name : String) : Option (List Value) :=
  match v.get? name with
  | some member => member.items?
  | none => some []

/-- A list of texts in a member. -/
def textsOf? (v : Value) (name : String) : Option (List LongText) :=
  (itemsOf? v name).bind (validateList (validateText 1 4096))

/-- The members of a hint. -/
def PendingEffect.members : List String := ["operation_id", "description", "status"]

/-- A hint about an effect. -/
def PendingEffect.validate (v : Value) : Option PendingEffect := do
  guard (v.named members.contains)
  let operationId ← ((v.get? "operation_id").bind textOf?).bind UUID.parse?
  let description ← (v.get? "description").bind (validateText 1 256)
  let status ← ((v.get? "status").bind textOf?).bind EffectStatus.parse?
  if h : status = .planned ∨ status = .dispatched ∨ status = .unknown
    then some ⟨operationId, description, status, h⟩ else none

theorem PendingEffect.validate_dump (e : PendingEffect) : validate e.dump = some e := by
  simp [validate, dump, members, jsonUUID, textOf?, UUID.parse?_str, validateText_dump,
    EffectStatus.parse?_str, e.pending]

/-- The members of a state. -/
def CheckpointState.members : List String :=
  ["goal", "constraints", "completed_actions", "decisions", "unresolved_questions", "next_actions",
    "pending_effects"]

/-- A saved state. -/
def CheckpointState.validate (v : Value) : Option CheckpointState := do
  guard (v.named members.contains)
  let goal ← (v.get? "goal").bind (validateText 1 4096)
  let constraints ← textsOf? v "constraints"
  let completedActions ← textsOf? v "completed_actions"
  let decisions ← textsOf? v "decisions"
  let unresolvedQuestions ← textsOf? v "unresolved_questions"
  let nextActions ← textsOf? v "next_actions"
  let pendingEffects ← (itemsOf? v "pending_effects").bind (validateList PendingEffect.validate)
  if h : (constraints.length ≤ 64 ∧ completedActions.length ≤ 100 ∧ decisions.length ≤ 64
      ∧ unresolvedQuestions.length ≤ 64 ∧ nextActions.length ≤ 64 ∧ pendingEffects.length ≤ 100)
      ∧ (pendingEffects.map PendingEffect.operationId).Nodup
    then some ⟨goal, constraints, completedActions, decisions, unresolvedQuestions, nextActions,
      pendingEffects, h.1, h.2⟩ else none

/-- A member that is a list is read back. -/
theorem itemsOf?_jsonList {α : Type} {dump : α → Value} {v : Value} {name : String} {xs : List α}
    (h : v.get? name = some (jsonList dump xs)) : itemsOf? v name = some (xs.map dump) := by
  rw [itemsOf?, h]
  exact Value.items?_arr _

/-- A member that is a list of texts is read back. -/
theorem textsOf?_jsonList {v : Value} {name : String} {xs : List LongText}
    (h : v.get? name = some (jsonList Text.dump xs)) : textsOf? v name = some xs := by
  rw [textsOf?, itemsOf?_jsonList h]
  exact validateList_map validateText_dump xs

/-- **A stored state is read back as it was written.** -/
theorem CheckpointState.validate_dump (s : CheckpointState) : validate s.dump = some s := by
  have hnamed : s.dump.named members.contains = true := by
    rw [dump, Value.named_obj]
    rfl
  have hgoal : s.dump.get? "goal" = some s.goal.dump := rfl
  have hconstraints : textsOf? s.dump "constraints" = some s.constraints := textsOf?_jsonList rfl
  have hcompleted : textsOf? s.dump "completed_actions" = some s.completedActions :=
    textsOf?_jsonList rfl
  have hdecisions : textsOf? s.dump "decisions" = some s.decisions := textsOf?_jsonList rfl
  have hquestions : textsOf? s.dump "unresolved_questions" = some s.unresolvedQuestions :=
    textsOf?_jsonList rfl
  have hnext : textsOf? s.dump "next_actions" = some s.nextActions := textsOf?_jsonList rfl
  have heffects : itemsOf? s.dump "pending_effects" = some (s.pendingEffects.map PendingEffect.dump) :=
    itemsOf?_jsonList rfl
  have hhints := validateList_map PendingEffect.validate_dump s.pendingEffects
  unfold validate
  rw [hnamed, hgoal, hconstraints, hcompleted, hdecisions, hquestions, hnext, heffects]
  simp [validateText_dump, hhints, s.bounds, s.uniqueEffects]

end PgAgmemory

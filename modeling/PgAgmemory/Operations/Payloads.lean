import PgAgmemory.Operations.Jobs
import PgAgmemory.Operations.Signatures

/-! # Signed texts

The text that a checksum signs determines the payload, up to the order of the keys of its saved state
(`CheckpointPayload.text_inj`), and the order of keys does not matter to the validation of a state
(`CheckpointState.validate_sortKeys`). -/

namespace PgAgmemory

open Json (Value)

/-! ## Validation looks at sorted values alike -/

/-- The order of keys does not matter to a text. -/
theorem textOf?_sortKeys (v : Value) : textOf? v.sortKeys = textOf? v := by
  cases v <;> rfl

/-- The order of keys does not matter to the check of a text. -/
theorem validateText_sortKeys (least most : Nat) (v : Value) :
    validateText least most v.sortKeys = validateText least most v := by
  rw [validateText, validateText, textOf?_sortKeys]

/-- A member of a sorted value is sorted. -/
theorem bind_get?_sortKeys {α : Type} {f : Value → Option α} (hf : ∀ v, f v.sortKeys = f v) (v : Value)
    (name : String) : (v.sortKeys.get? name).bind f = (v.get? name).bind f := by
  rw [Value.get?_sortKeys]
  cases v.get? name with
  | none => rfl
  | some member => exact hf member

/-- It does not matter to a list whose items do not depend on it. -/
theorem validateList_sortKeys {α : Type} {validate : Value → Option α}
    (hvalidate : ∀ v, validate v.sortKeys = validate v) (vs : List Value) :
    validateList validate (vs.map Value.sortKeys) = validateList validate vs := by
  induction vs with
  | nil => rfl
  | cons v vs ih => rw [List.map_cons, validateList, validateList, hvalidate, ih]

/-- It does not matter to a member that is a list of such items. -/
theorem bind_itemsOf?_sortKeys {α : Type} {validate : Value → Option α}
    (hvalidate : ∀ v, validate v.sortKeys = validate v) (v : Value) (name : String) :
    (itemsOf? v.sortKeys name).bind (validateList validate)
      = (itemsOf? v name).bind (validateList validate) := by
  rw [itemsOf?, itemsOf?, Value.get?_sortKeys]
  cases v.get? name with
  | none => rfl
  | some member =>
    change member.sortKeys.items?.bind (validateList validate) = member.items?.bind (validateList validate)
    rw [Value.items?_sortKeys]
    cases member.items? with
    | none => rfl
    | some vs => exact validateList_sortKeys hvalidate vs

/-- It does not matter to a member that is a list of texts. -/
theorem textsOf?_sortKeys (v : Value) (name : String) : textsOf? v.sortKeys name = textsOf? v name :=
  bind_itemsOf?_sortKeys (validateText_sortKeys 1 4096) v name

/-- It does not matter to the check of a pending effect. -/
theorem PendingEffect.validate_sortKeys (v : Value) : validate v.sortKeys = validate v := by
  have htext : ∀ name, (v.sortKeys.get? name).bind textOf? = (v.get? name).bind textOf? :=
    bind_get?_sortKeys textOf?_sortKeys v
  rw [validate, validate, Value.named_sortKeys, htext "operation_id", htext "status",
    bind_get?_sortKeys (validateText_sortKeys 1 256)]

/-- **The order of keys does not matter to a state.** -/
theorem CheckpointState.validate_sortKeys (v : Value) : validate v.sortKeys = validate v := by
  rw [validate, validate, Value.named_sortKeys, bind_get?_sortKeys (validateText_sortKeys 1 4096),
    textsOf?_sortKeys, textsOf?_sortKeys, textsOf?_sortKeys, textsOf?_sortKeys, textsOf?_sortKeys,
    bind_itemsOf?_sortKeys PendingEffect.validate_sortKeys]

/-! ## The text determines the payload -/

/-- **Payloads that agree**: in all fields, but for the order of the keys of the saved state. -/
structure CheckpointPayload.Agrees (p q : CheckpointPayload) : Prop where
  fields : { p with state := q.state } = q
  state : p.state.sortKeys = q.state.sortKeys

/-- Sorted references determine the references. -/
theorem dumpRef_sortKeys_inj {a b : UUID × Nat} (h : (dumpRef a).sortKeys = (dumpRef b).sortKeys) :
    a = b := by
  have hid := sortKeys_member "memory_id" (jsonUUID a.1) (jsonUUID b.1) h (by simp [dumpRef])
    (by simp [dumpRef])
  have hrevision := sortKeys_member "revision" (jsonNat a.2) (jsonNat b.2) h (by simp [dumpRef])
    (by simp [dumpRef])
  exact Prod.ext (jsonUUID_inj.mp hid) (jsonNat_inj.mp hrevision)

/-- **The signed text determines the payload.** -/
theorem CheckpointPayload.text_inj {p q : CheckpointPayload} (h : p.text = q.text) : p.Agrees q := by
  have hsorted : p.dump.sortKeys = q.dump.sortKeys := by
    refine compactText_injective (String.append_right_inj "checkpoint-envelope-v1:" |>.mp ?_)
    exact h
  have hmember : ∀ (name : String) (a b : Value), p.dump.get? name = some a → q.dump.get? name = some b →
      a.sortKeys = b.sortKeys := fun name a b ha hb => sortKeys_member name a b hsorted ha hb
  have hid := hmember "checkpoint_id" (jsonUUID p.checkpointId) (jsonUUID q.checkpointId)
    (by simp [dump]) (by simp [dump])
  have hscope := hmember "scope_id" (jsonUUID p.scopeId) (jsonUUID q.scopeId) (by simp [dump])
    (by simp [dump])
  have hrun := hmember "run_id" (jsonUUID p.runId) (jsonUUID q.runId) (by simp [dump]) (by simp [dump])
  have hbranch := hmember "branch_id" (jsonUUID p.branchId) (jsonUUID q.branchId) (by simp [dump])
    (by simp [dump])
  have hsequence := hmember "sequence" (jsonNat p.sequence) (jsonNat q.sequence) (by simp [dump])
    (by simp [dump])
  have hparent := hmember "parent_checkpoint" (jsonOption jsonUUID p.parentCheckpoint)
    (jsonOption jsonUUID q.parentCheckpoint) (by simp [dump]) (by simp [dump])
  rw [sortKeys_jsonOption fun _ => rfl, sortKeys_jsonOption fun _ => rfl] at hparent
  have hharness := hmember "harness_id" p.harnessId.dump q.harnessId.dump (by simp [dump])
    (by simp [dump])
  have hversion := hmember "harness_version" p.harnessVersion.dump q.harnessVersion.dump
    (by simp [dump]) (by simp [dump])
  have hwatermark := hmember "event_watermark" (jsonNat p.eventWatermark) (jsonNat q.eventWatermark)
    (by simp [dump]) (by simp [dump])
  have hrefs := hmember "memory_refs" (jsonList dumpRef p.memoryRefs) (jsonList dumpRef q.memoryRefs)
    (by simp [dump]) (by simp [dump])
  simp only [jsonList, Value.sortKeys_arr, Value.arr_inj, List.map_map] at hrefs
  have haccess := hmember "saved_access_epoch" (jsonNat p.savedAccessEpoch) (jsonNat q.savedAccessEpoch)
    (by simp [dump]) (by simp [dump])
  have hdeletion := hmember "saved_deletion_epoch" (jsonNat p.savedDeletionEpoch)
    (jsonNat q.savedDeletionEpoch) (by simp [dump]) (by simp [dump])
  refine ⟨?_, hmember "state" p.state q.state (by simp [dump]) (by simp [dump])⟩
  have hsame : p.memoryRefs = q.memoryRefs :=
    List.map_injective_iff.mpr (fun _ _ => dumpRef_sortKeys_inj) hrefs
  cases p
  cases q
  simp only [CheckpointPayload.mk.injEq]
  exact ⟨jsonUUID_inj.mp hid, jsonUUID_inj.mp hscope, jsonUUID_inj.mp hrun, jsonUUID_inj.mp hbranch,
    jsonNat_inj.mp hsequence, jsonOption_uuid_inj.mp hparent, Text.dump_inj.mp hharness,
    Text.dump_inj.mp hversion, jsonNat_inj.mp hwatermark, trivial, hsame, jsonNat_inj.mp haccess,
    jsonNat_inj.mp hdeletion⟩

end PgAgmemory

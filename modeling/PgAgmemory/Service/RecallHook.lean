import PgAgmemory.Service.Recall

/-! # The recall hook

`recall_hook` asks the service for implicit context and checks the answer again before it passes it on:
the bytes of the context, the budget, the number of items and the echo of the request. -/

namespace PgAgmemory

/-- When a hook runs. -/
inductive HookEvent where
  | sessionStart | taskSwitch | afterCompaction
  deriving DecidableEq

/-- The input of the hook. -/
structure HookInput where
  event : HookEvent
  query : Text 0 4096

/-- The settings of the hook that shape its request. -/
structure HookSettings where
  scopeIds : List UUID
  purpose : ShortText
  tokenBudget : Nat := 2000
  maxItems : Nat := 20
  searchProfile : SearchProfile := .simple
  /-- Bounds of the settings. -/
  limits : (1 ≤ scopeIds.length ∧ scopeIds.length ≤ 32) ∧ (64 ≤ tokenBudget ∧ tokenBudget ≤ 2000)
    ∧ (1 ≤ maxItems ∧ maxItems ≤ 20) := by decide
  /-- Hook scopes are unique. -/
  distinct : scopeIds.Nodup := by decide

namespace HookSettings

/-- `request`: the recall that the hook sends. -/
def request (settings : HookSettings) (data : HookInput) : Recall where
  query := data.query
  scopeIds := settings.scopeIds
  purpose := settings.purpose
  implicit := true
  tokenBudget := settings.tokenBudget
  maxItems := settings.maxItems
  searchProfile := settings.searchProfile
  limits := by
    have h := settings.limits
    exact ⟨h.1, ⟨h.2.1.1, by omega⟩, ⟨h.2.2.1, by omega⟩, fun _ => h.2.1.2⟩
  vectors := by
    exact ⟨⟨fun _ => rfl, fun _ => rfl⟩, fun h => absurd h (by decide), fun h => absurd h (by decide)⟩
  required := ⟨Nat.zero_le _, fun h => absurd rfl h⟩

/-- The checks that `recall` makes on an answer. -/
def accepts (settings : HookSettings) (result : RecallResult) : Bool :=
  let byteCount := (compactText result.context.dump).utf8ByteSize
  !(decide (byteCount ≠ result.context.byteCount)
    || decide (settings.tokenBudget < byteCount)
    || decide (settings.maxItems < result.items.length)
    || decide (result.searchProfile ≠ settings.searchProfile)
    || decide (result.retrievalMode ≠ .lexical)
    || result.embeddingModel.isSome
    || result.vectorIncomplete
    || result.items.any fun item => item.retrieval.isSome)

end HookSettings

end PgAgmemory

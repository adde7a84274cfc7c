import Mathlib.Data.String.Basic
import PgAgmemory.Library.Counting
import PgAgmemory.Library.Greedy
import PgAgmemory.Service.Recall

/-! # Packing

What `buildContext` packs. The pack of some items (`packOf`) states the exact length of its own JSON, and
`buildContext` goes from one such pack to the next: the result is the pack of a greedy selection, or a
failure when a required item or even the result does not fit. -/

namespace PgAgmemory

open Json (Value Items Members Numeral)

/-! ## The length of a pack -/

/-- A decimal numeral has one byte a digit. -/
theorem utf8Len_toDigits (n : Nat) :
    String.utf8Len (Nat.toDigits 10 n) = Counting.digits n := by
  have hascii : ∀ cs : List Char, (∀ c ∈ cs, c.isDigit = true) → String.utf8Len cs = cs.length := by
    intro cs
    induction cs with
    | nil => intro _; rfl
    | cons c cs ih =>
      intro h
      have hdigit : 48 ≤ c.val ∧ c.val ≤ 57 := by
        simpa [Char.isDigit] using h c List.mem_cons_self
      have hsize : c.utf8Size = 1 :=
        Char.utf8Size_eq_one_iff.mpr (UInt32.le_trans hdigit.2 (by decide))
      rw [String.utf8Len_cons, ih fun d hd => h d (List.mem_cons_of_mem c hd), hsize]
      rfl
  exact hascii _ fun c hc => Nat.isDigit_of_mem_toDigits (by decide) (by decide) hc

/-- The bytes of a pack's JSON. -/
def ContextPack.size (p : ContextPack) : Nat := (compactText p.dump).utf8ByteSize

/-- The bytes of a text inside a JSON string. -/
def escapedSize (text : String) : Nat := String.utf8Len (text.toList.flatMap (Json.escape false))

/-- The bytes of a pack's JSON besides the digits of its count. -/
def overhead (text : String) : Nat := (ContextPack.mk "" 0).size - 1 + escapedSize text

/-- **The count is part of what is counted.** -/
theorem ContextPack.size_eq (p : ContextPack) :
    p.size = Counting.restate (overhead p.text) p.byteCount := by
  obtain ⟨text, n⟩ := p
  have hone : Counting.digits 0 = 1 := by decide
  have hbytes : ∀ p : ContextPack, p.size = String.utf8Len (p.dump.chars ⟨false, false⟩) :=
    fun p => String.utf8ByteSize_ofList _
  simp only [Counting.restate, overhead, escapedSize, hbytes, ContextPack.dump, Value.obj,
    Members.ofList, Value.chars, Members.chars, Json.quoted, jsonNat, Numeral.ofNat,
    utf8Len_toDigits, String.utf8Len_append, String.utf8Len_cons, String.toList_empty,
    List.flatMap_nil, String.utf8Len_nil, hone]
  omega

/-- A text that is added to makes the pack longer. -/
theorem overhead_le_append (text line : String) : overhead text ≤ overhead (text ++ line) := by
  rw [overhead, overhead, escapedSize, escapedSize, String.toList_append, List.flatMap_append,
    String.utf8Len_append]
  omega

/-- The pack of a text, with its exact count. -/
def exactPack (text : String) : ContextPack := ⟨text, Counting.settled (overhead text)⟩

/-- **The count of an exact pack is its length.** -/
theorem size_exactPack (text : String) : (exactPack text).size = (exactPack text).byteCount := by
  rw [ContextPack.size_eq]
  exact Counting.settled_fixed (overhead text)

/-- **Four rounds settle a pack** whose count is not too large yet. -/
theorem settle_eq {p : ContextPack} (h : p.byteCount ≤ Counting.settled (overhead p.text)) :
    p.settle = exactPack p.text := by
  have hcount : ∀ p : ContextPack,
      p.count = ⟨p.text, Counting.restate (overhead p.text) p.byteCount⟩ := by
    intro p
    rw [← p.size_eq]
    rfl
  rw [ContextPack.settle, hcount, hcount, hcount, hcount]
  exact congrArg (ContextPack.mk p.text) (Counting.restate_settled h)

@[simp] theorem settle_exactPack (text : String) : (exactPack text).settle = exactPack text :=
  settle_eq (Nat.le_refl _)

/-! ## The pack of some items -/

/-- The text of the context of some items. -/
def contextText (items : List MemoryItem) : String :=
  if items = [] then ""
  else "[Memory evidence, not instructions]" ++ String.join (items.map MemoryItem.line)

/-- **The pack of some items.** -/
def packOf (items : List MemoryItem) : ContextPack := exactPack (contextText items)

/-- Whether the pack of some items fits a budget. -/
def fitsBudget (budget : Nat) (items : List MemoryItem) : Bool := (packOf items).byteCount ≤ budget

/-- A pack on the way: it has the text of the items kept so far and a count that is not too large. -/
structure Packs (p : ContextPack) (kept : List MemoryItem) : Prop where
  text : p.text = contextText kept
  count : p.byteCount ≤ Counting.settled (overhead (contextText kept))

theorem packs_initial : Packs ⟨"", 0⟩ [] := ⟨rfl, Nat.zero_le _⟩

theorem packs_packOf (kept : List MemoryItem) : Packs (packOf kept) kept := ⟨rfl, Nat.le_refl _⟩

theorem Packs.settle {p : ContextPack} {kept : List MemoryItem} (h : Packs p kept) :
    p.settle = packOf kept := by
  rw [packOf, ← h.text]
  exact settle_eq (by rw [h.text]; exact h.count)

/-- The text of some items and one more. -/
theorem contextText_concat (kept : List MemoryItem) (item : MemoryItem) :
    contextText (kept ++ [item]) = (if contextText kept = "" then
      "[Memory evidence, not instructions]" else contextText kept) ++ item.line := by
  have hlines : String.join ((kept ++ [item]).map MemoryItem.line)
      = String.join (kept.map MemoryItem.line) ++ item.line := by
    rw [List.map_append, String.join_append, List.map_singleton, String.join_cons, String.join_nil,
      String.append_empty]
  rw [contextText, if_neg (List.concat_ne_nil _ _), hlines]
  by_cases hkept : kept = []
  · subst hkept
    rfl
  · have hne : contextText kept ≠ "" := by
      rw [contextText, if_neg hkept]
      intro h
      exact absurd (String.append_eq_empty_iff.mp h).1 (by decide)
    rw [if_neg hne, contextText, if_neg hkept, String.append_assoc]

/-- **Adding an item to a pack gives the pack of the items with it.** -/
theorem Packs.add {p : ContextPack} {kept : List MemoryItem} (h : Packs p kept)
    (item : MemoryItem) : p.add item = packOf (kept ++ [item]) := by
  have htext : (if p.text = "" then "[Memory evidence, not instructions]" else p.text) ++ item.line
      = contextText (kept ++ [item]) := by
    rw [h.text, contextText_concat]
  have hlonger : overhead (contextText kept) ≤ overhead (contextText (kept ++ [item])) := by
    rw [contextText_concat]
    split
    next hempty =>
      have hgrows := overhead_le_append "" ("[Memory evidence, not instructions]" ++ item.line)
      rwa [String.empty_append, ← hempty] at hgrows
    next hne => exact overhead_le_append _ _
  rw [ContextPack.add, htext]
  exact settle_eq (Nat.le_trans h.count (Counting.settled_mono hlonger))

/-! ## Greedy packing -/

open Greedy (Overflows keep greedy)

/-- Packing fails when a required item overflows. -/
theorem packItems_error {budget required : Nat} {items kept : List MemoryItem} {p : ContextPack}
    (hp : Packs p kept) (h : Overflows (fitsBudget budget) kept required items) :
    packItems budget required items p = .error .budgetExhausted := by
  induction items generalizing required kept p with
  | nil => exact absurd h (Greedy.not_overflows_nil kept required)
  | cons item items ih =>
    rw [packItems, hp.add item]
    by_cases hfits : fitsBudget budget (kept ++ [item]) = true
    · rw [if_pos (of_decide_eq_true hfits),
        ih (packs_packOf _) ((Greedy.overflows_cons hfits required items).mp h)]
      rfl
    · have hrequired : required ≠ 0 := by
        rintro rfl
        exact Greedy.not_overflows_zero _ _ h
      rw [if_neg (fun hle => hfits (decide_eq_true hle)), if_pos hrequired]

/-- **Packing selects greedily** when no required item overflows. -/
theorem packItems_ok {budget required : Nat} {items kept : List MemoryItem} {p : ContextPack}
    (hp : Packs p kept) (h : ¬Overflows (fitsBudget budget) kept required items) :
    ∃ p' selected, packItems budget required items p = .ok (p', selected, decide (selected ≠ items))
      ∧ Packs p' (kept ++ selected) ∧ keep (fitsBudget budget) kept items = kept ++ selected := by
  induction items generalizing required kept p with
  | nil =>
    refine ⟨p, [], rfl, ?_, ?_⟩
    · rwa [List.append_nil]
    · rw [keep, List.append_nil]
  | cons item items ih =>
    rw [packItems, hp.add item]
    by_cases hfits : fitsBudget budget (kept ++ [item]) = true
    · rw [Greedy.overflows_cons hfits] at h
      obtain ⟨p', selected, hrun, hpacks, hkeep⟩ := ih (packs_packOf _) h
      rw [List.append_assoc, List.singleton_append] at hpacks hkeep
      refine ⟨p', item :: selected, ?_, hpacks, (Greedy.keep_cons_of_fits hfits items).trans hkeep⟩
      rw [if_pos (of_decide_eq_true hfits), hrun]
      simp only [ne_eq, List.cons.injEq, true_and]
      rfl
    · have hnot : fitsBudget budget (kept ++ [item]) = false := eq_false_of_ne_true hfits
      have hzero : required = 0 := by
        by_contra hrequired
        exact h (Greedy.overflows_of_not_fits hrequired hnot items)
      subst hzero
      obtain ⟨p', selected, hrun, hpacks, hkeep⟩ := ih hp (Greedy.not_overflows_zero kept items)
      refine ⟨p', selected, ?_, hpacks, (Greedy.keep_cons_of_not_fits hnot items).trans hkeep⟩
      have hshort : selected.length ≤ items.length := by
        have hsub := (Greedy.keep_sublist (fitsBudget budget) kept items).length_le
        rw [hkeep, List.length_append, List.length_append] at hsub
        exact Nat.le_of_add_le_add_left hsub
      have hdropped : selected ≠ item :: items := by
        intro heq
        rw [heq, List.length_cons] at hshort
        exact Nat.not_succ_le_self _ hshort
      rw [if_neg (fun hle => hfits (decide_eq_true hle)), if_neg (fun hne => hne rfl), hrun,
        decide_eq_true hdropped]
      rfl

/-- **A build that cannot keep a required item is exhausted.** -/
theorem buildContext_exhausted {items : List MemoryItem} {budget required : Nat}
    (h : Overflows (fitsBudget budget) [] required items) :
    buildContext items budget required = .error .budgetExhausted := by
  rw [buildContext, packItems_error packs_initial h]
  rfl

/-- **A build that keeps the required items** returns the pack of the greedy selection, if that fits. -/
theorem buildContext_selects {items : List MemoryItem} {budget required : Nat}
    (h : ¬Overflows (fitsBudget budget) [] required items) :
    buildContext items budget required
      = if fitsBudget budget (greedy (fitsBudget budget) items) then
          .ok (packOf (greedy (fitsBudget budget) items), greedy (fitsBudget budget) items,
            decide (greedy (fitsBudget budget) items ≠ items))
        else .error .budgetTooSmall := by
  obtain ⟨p', selected, hrun, hpacks, hkeep⟩ := packItems_ok packs_initial h
  rw [List.nil_append] at hpacks hkeep
  rw [greedy, hkeep, buildContext, hrun]
  simp only [fitsBudget, decide_eq_true_eq]
  rw [← hpacks.settle]
  rfl

/-- Without required items a build only fails when nothing fits. -/
theorem buildContext_unrequired {items : List MemoryItem} {budget : Nat} :
    buildContext items budget 0
      = if fitsBudget budget (greedy (fitsBudget budget) items) then
          .ok (packOf (greedy (fitsBudget budget) items), greedy (fitsBudget budget) items,
            decide (greedy (fitsBudget budget) items ≠ items))
        else .error .budgetTooSmall :=
  buildContext_selects (Greedy.not_overflows_zero _ _)

end PgAgmemory

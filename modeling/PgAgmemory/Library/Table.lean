import Mathlib.Data.List.Nodup

/-! # Keyed tables

A relational table as a list of rows whose primary keys are pairwise distinct. The distinctness is a
field of `Table`, so a table with two rows of one key cannot be built: `insert?` refuses a taken key,
`delete` keeps a sublist, and `update` may only rewrite columns outside the key. Everything else is
said through membership (`mem_insert?`, `mem_delete`, `mem_update`), which is what the callers use. -/

namespace Keyed

universe u v

/-- The primary key of a row type. -/
class HasKey (α : Type u) (κ : outParam (Type v)) where
  /-- The key columns of a row. -/
  key : α → κ

export HasKey (key)

/-- A **keyed table**: finitely many rows, no two with the same primary key. -/
structure Table (α : Type u) {κ : Type v} [HasKey α κ] where
  /-- The rows, newest first. -/
  rows : List α
  /-- Primary keys are unique. -/
  nodup : (rows.map key).Nodup

namespace Table

variable {α : Type u} {κ : Type v} [HasKey α κ]

instance : Membership α (Table α) := ⟨fun t r => r ∈ t.rows⟩

theorem mem_rows {t : Table α} {r : α} : r ∈ t.rows ↔ r ∈ t := Iff.rfl

/-- Tables with the same rows are equal. -/
theorem ext_rows {t t' : Table α} (h : t.rows = t'.rows) : t = t' := by
  cases t; cases t'; cases h; rfl

/-- The table without rows. -/
def empty : Table α := ⟨[], List.nodup_nil⟩

instance : EmptyCollection (Table α) := ⟨empty⟩

instance : Inhabited (Table α) := ⟨empty⟩

@[simp] theorem empty_rows : (∅ : Table α).rows = [] := rfl

@[simp] theorem not_mem_empty (r : α) : r ∉ (∅ : Table α) := List.not_mem_nil

/-- **Rows are determined by their key.** -/
theorem eq_of_key_eq {t : Table α} {r r' : α} (hr : r ∈ t) (hr' : r' ∈ t)
    (hkey : key r = key r') : r = r' :=
  List.inj_on_of_nodup_map t.nodup hr hr' hkey

/-- The rows of a table are pairwise distinct. -/
theorem nodup_rows (t : Table α) : t.rows.Nodup := List.Nodup.of_map _ t.nodup

section Lookup

variable [DecidableEq κ]

/-- The row of a given key, if there is one. -/
def find? (t : Table α) (k : κ) : Option α := t.rows.find? fun r => key r = k

/-- `find?` returns exactly the row of that key. -/
theorem find?_eq_some_iff {t : Table α} {k : κ} {r : α} :
    t.find? k = some r ↔ r ∈ t ∧ key r = k := by
  constructor
  · intro h
    exact ⟨List.mem_of_find?_eq_some h, by simpa using List.find?_some h⟩
  · rintro ⟨hmem, hkey⟩
    cases hfind : t.find? k with
    | none => simpa [hkey] using List.find?_eq_none.mp hfind r hmem
    | some r' =>
      have hkey' : key r' = k := by simpa using List.find?_some hfind
      rw [eq_of_key_eq (List.mem_of_find?_eq_some hfind) hmem (hkey'.trans hkey.symm)]

/-- `find?` fails exactly when no row has that key. -/
theorem find?_eq_none_iff {t : Table α} {k : κ} :
    t.find? k = none ↔ ∀ r ∈ t, key r ≠ k := by
  simp only [find?, List.find?_eq_none, decide_eq_true_eq]
  exact Iff.rfl

/-- A row is found under its own key. -/
theorem find?_key {t : Table α} {r : α} (h : r ∈ t) : t.find? (key r) = some r :=
  find?_eq_some_iff.mpr ⟨h, rfl⟩

end Lookup

/-! ## Insertion -/

section Insert

variable [DecidableEq κ]

/-- Insert a row, or refuse when its key is already taken. -/
def insert? (t : Table α) (r : α) : Option (Table α) :=
  if h : key r ∉ t.rows.map key then
    some ⟨r :: t.rows, by simpa using ⟨by simpa using h, t.nodup⟩⟩
  else none

/-- **An insertion adds exactly the new row**, under a key no row had. -/
theorem insert?_eq_some_iff {t t' : Table α} {r : α} :
    t.insert? r = some t' ↔ (∀ q ∈ t, key q ≠ key r) ∧ t'.rows = r :: t.rows := by
  unfold insert?
  constructor
  · intro h
    split at h
    case isTrue hk =>
      obtain rfl := Option.some.inj h
      exact ⟨fun q hq hqk => hk (hqk ▸ List.mem_map_of_mem hq), rfl⟩
    case isFalse => exact absurd h (by simp)
  · rintro ⟨hfresh, hrows⟩
    have hk : key r ∉ t.rows.map key := by
      intro hmem
      obtain ⟨q, hq, hqk⟩ := List.mem_map.mp hmem
      exact hfresh q hq hqk
    rw [dif_pos hk]
    exact congrArg some (ext_rows hrows.symm)

/-- Membership after an insertion. -/
theorem mem_insert? {t t' : Table α} {r q : α} (h : t.insert? r = some t') :
    q ∈ t' ↔ q = r ∨ q ∈ t := by
  rw [← mem_rows, (insert?_eq_some_iff.mp h).2]
  exact List.mem_cons

/-- Counting rows after an insertion. -/
theorem countP_insert? {t t' : Table α} {r : α} (h : t.insert? r = some t') (p : α → Bool) :
    t'.rows.countP p = t.rows.countP p + if p r then 1 else 0 := by
  rw [(insert?_eq_some_iff.mp h).2, List.countP_cons]

/-- The inserted row is in the table. -/
theorem mem_insert?_self {t t' : Table α} {r : α} (h : t.insert? r = some t') : r ∈ t' :=
  (mem_insert? h).mpr (Or.inl rfl)

/-- An insertion under a free key succeeds. -/
theorem exists_insert? {t : Table α} {r : α} (h : ∀ q ∈ t, key q ≠ key r) :
    ∃ t', t.insert? r = some t' := by
  have hk : key r ∉ t.rows.map key := by
    intro hmem
    obtain ⟨q, hq, hqk⟩ := List.mem_map.mp hmem
    exact h q hq hqk
  exact ⟨_, dif_pos hk⟩

/-- Insert rows one after the other, or refuse when a key is taken. -/
def insertAll? (t : Table α) : List α → Option (Table α)
  | [] => some t
  | r :: rows => (t.insert? r).bind fun t' => t'.insertAll? rows

/-- **Rows under distinct free keys are inserted**, and nothing else is. -/
theorem exists_insertAll? {t : Table α} {rows : List α} (hdistinct : (rows.map key).Nodup)
    (hfree : ∀ r ∈ rows, ∀ q ∈ t, key q ≠ key r) :
    ∃ t', t.insertAll? rows = some t' ∧ ∀ q, q ∈ t' ↔ q ∈ rows ∨ q ∈ t := by
  induction rows generalizing t with
  | nil => exact ⟨t, rfl, fun q => (or_iff_right List.not_mem_nil).symm⟩
  | cons r rows ih =>
    rw [List.map_cons, List.nodup_cons] at hdistinct
    obtain ⟨t₁, hinsert⟩ := exists_insert? (hfree r List.mem_cons_self)
    obtain ⟨t', hrest, hmem⟩ := ih hdistinct.2 (t := t₁) fun r' hr' q hq heq => by
      rcases (mem_insert? hinsert).mp hq with rfl | hold
      · exact hdistinct.1 (heq ▸ List.mem_map_of_mem hr')
      · exact hfree r' (List.mem_cons_of_mem r hr') q hold heq
    refine ⟨t', by rw [insertAll?, hinsert]; exact hrest, fun q => ?_⟩
    rw [hmem, mem_insert? hinsert, List.mem_cons, or_left_comm, or_assoc]

end Insert

/-! ## Deletion and update -/

/-- Delete the rows that satisfy `p`. -/
def delete (t : Table α) (p : α → Bool) : Table α :=
  ⟨t.rows.filter fun r => !p r, (t.nodup.sublist (List.filter_sublist.map _))⟩

@[simp] theorem mem_delete {t : Table α} {p : α → Bool} {r : α} :
    r ∈ t.delete p ↔ r ∈ t ∧ p r = false := by
  rw [← mem_rows, delete, List.mem_filter, Bool.not_eq_true', mem_rows]

/-- Counting rows after a deletion that spares them. -/
theorem countP_delete {t : Table α} {p q : α → Bool} (h : ∀ r ∈ t, q r = true → p r = false) :
    (t.delete p).rows.countP q = t.rows.countP q := by
  rw [delete, List.countP_filter]
  refine List.countP_congr fun r hr => ?_
  rw [Bool.and_eq_true, Bool.not_eq_true']
  exact ⟨And.left, fun hq => ⟨hq, h r hr hq⟩⟩

/-- Deleting nothing changes nothing. -/
theorem delete_eq_self {t : Table α} {p : α → Bool} (h : ∀ r ∈ t, p r = false) :
    t.delete p = t :=
  ext_rows (List.filter_eq_self.mpr fun r hr => by simp [h r hr])

/-- A deletion depends on the condition of the rows only. -/
theorem delete_congr {t : Table α} {p q : α → Bool} (h : ∀ r ∈ t, p r = q r) :
    t.delete p = t.delete q :=
  ext_rows (List.filter_congr fun r hr => by rw [h r hr])

/-- A deletion after one that deletes nothing. -/
theorem delete_delete {t : Table α} {p q p' : α → Bool} (hp : ∀ r ∈ t, p r = false)
    (hq : ∀ r ∈ t, q r = p' r) : (t.delete p).delete q = t.delete p' := by
  rw [delete_eq_self hp, delete_congr hq]

/-- Rewrite the rows that satisfy `p` by a function that keeps the key. -/
def update (t : Table α) (p : α → Bool) (f : α → α) (hf : ∀ r, key (f r) = key r) : Table α :=
  ⟨t.rows.map fun r => if p r then f r else r, by
    have hmap : (t.rows.map fun r => if p r then f r else r).map key = t.rows.map key := by
      rw [List.map_map]
      refine List.map_congr_left fun r _ => ?_
      by_cases hp : p r <;> simp [hp, hf]
    rw [hmap]
    exact t.nodup⟩

/-- Membership after an update: the rewritten rows and the untouched ones. -/
theorem mem_update {t : Table α} {p : α → Bool} {f : α → α} {hf : ∀ r, key (f r) = key r} {q : α} :
    q ∈ t.update p f hf ↔ ∃ r ∈ t, (if p r then f r else r) = q := List.mem_map

/-- Counting rows after an update that keeps what is counted. -/
theorem countP_update {t : Table α} {p q : α → Bool} {f : α → α} {hf : ∀ r, key (f r) = key r}
    (h : ∀ r, q (f r) = q r) : (t.update p f hf).rows.countP q = t.rows.countP q := by
  rw [update, List.countP_map]
  refine List.countP_congr fun r _ => ?_
  rw [Function.comp_apply]
  split
  · rw [h]
  · exact Iff.rfl

/-- An update that selects nothing changes nothing. -/
theorem update_eq_self {t : Table α} {p : α → Bool} {f : α → α} {hf : ∀ r, key (f r) = key r}
    (h : ∀ r ∈ t, p r = false) : t.update p f hf = t := by
  refine ext_rows ?_
  have hmap : (t.rows.map fun r => if p r then f r else r) = t.rows.map id :=
    List.map_congr_left fun r hr => by simp [h r hr]
  simpa [update] using hmap

/-- An update depends on the rows it writes only. -/
theorem update_congr {t : Table α} {p q : α → Bool} {f : α → α} {hf : ∀ r, key (f r) = key r}
    (h : ∀ r ∈ t, (if p r then f r else r) = if q r then f r else r) :
    t.update p f hf = t.update q f hf := ext_rows (List.map_congr_left h)

/-- An update after one that writes nothing. -/
theorem update_update {t : Table α} {p q q' : α → Bool} {f : α → α}
    {hf : ∀ r, key (f r) = key r} (hp : ∀ r ∈ t, p r = false)
    (hq : ∀ r ∈ t, (if q r then f r else r) = if q' r then f r else r) :
    (t.update p f hf).update q f hf = t.update q' f hf := by
  rw [update_eq_self hp, update_congr hq]

/-- Insert a row, in place of the one that has its key. -/
def put [DecidableEq κ] (t : Table α) (r : α) : Table α :=
  ⟨r :: (t.delete fun q => key q = key r).rows, by
    refine List.nodup_cons.mpr ⟨fun hmem => ?_, (t.delete _).nodup⟩
    obtain ⟨q, hq, hqk⟩ := List.mem_map.mp hmem
    simpa [hqk] using (mem_delete.mp hq).2⟩

@[simp] theorem mem_put [DecidableEq κ] {t : Table α} {r q : α} :
    q ∈ t.put r ↔ q = r ∨ (q ∈ t ∧ key q ≠ key r) := by
  rw [← mem_rows, put, List.mem_cons, mem_rows, mem_delete, decide_eq_false_iff_not]

/-- A lookup after a row is put. -/
theorem find?_put [DecidableEq κ] (t : Table α) (r : α) (k : κ) :
    (t.put r).find? k = if k = key r then some r else t.find? k := by
  split
  next heq => exact find?_eq_some_iff.mpr ⟨mem_put.mpr (Or.inl rfl), heq.symm⟩
  next hne =>
    refine Option.ext fun q => ?_
    rw [find?_eq_some_iff, find?_eq_some_iff, mem_put]
    constructor
    · rintro ⟨rfl | ⟨hq, -⟩, hkey⟩
      · exact absurd hkey.symm hne
      · exact ⟨hq, hkey⟩
    · rintro ⟨hq, hkey⟩
      exact ⟨Or.inr ⟨hq, fun heq => hne (hkey.symm.trans heq)⟩, hkey⟩

/-- A lookup after the row of a key is deleted. -/
theorem find?_delete_key [DecidableEq κ] (t : Table α) (k k' : κ) :
    (t.delete fun q => key q = k).find? k' = if k' = k then none else t.find? k' := by
  split
  next heq =>
    refine find?_eq_none_iff.mpr fun q hq hkey => ?_
    exact of_decide_eq_false (mem_delete.mp hq).2 (hkey.trans heq)
  next hne =>
    refine Option.ext fun q => ?_
    rw [find?_eq_some_iff, find?_eq_some_iff, mem_delete, decide_eq_false_iff_not]
    constructor
    · rintro ⟨⟨hq, -⟩, hkey⟩
      exact ⟨hq, hkey⟩
    · rintro ⟨hq, hkey⟩
      exact ⟨⟨hq, fun heq => hne (hkey.symm.trans heq)⟩, hkey⟩

/-! ## Rewritten tables -/

section Map

variable {β : Type u} {κ' : Type v} [HasKey β κ']

/-- The rows of a table, rewritten to rows of another type whose keys tell the old keys apart. -/
def map (t : Table α) (f : α → β) (rekey : κ → κ') (hkey : ∀ r, key (f r) = rekey (key r))
    (hrekey : Function.Injective rekey) : Table β :=
  ⟨t.rows.map f, by
    rw [List.map_map, show key ∘ f = rekey ∘ key from funext hkey, ← List.map_map]
    exact t.nodup.map hrekey⟩

theorem mem_map {t : Table α} {f : α → β} {rekey : κ → κ'} {hkey : ∀ r, key (f r) = rekey (key r)}
    {hrekey : Function.Injective rekey} {q : β} :
    q ∈ t.map f rekey hkey hrekey ↔ ∃ r ∈ t, f r = q := List.mem_map

end Map

/-! ## References -/

section References

variable {β : Type u} {κ' : Type v} [HasKey β κ'] {γ : Type v}

/-- **A foreign key**: every referencing column that is not null names a row of the parent table. -/
def References (child : Table α) (column : α → Option γ) (parent : Table β) (target : β → γ) : Prop :=
  ∀ r ∈ child.rows, ∀ k ∈ column r, ∃ p ∈ parent.rows, target p = k

instance [DecidableEq γ] (child : Table α) (column : α → Option γ) (parent : Table β)
    (target : β → γ) : Decidable (References child column parent target) :=
  inferInstanceAs (Decidable (∀ r ∈ child.rows, ∀ k ∈ column r, ∃ p ∈ parent.rows, target p = k))

variable {child : Table α} {column : α → Option γ} {parent : Table β} {target : β → γ}

/-- The row that a foreign key names. -/
theorem References.exists_parent (h : References child column parent target) {r : α} {k : γ}
    (hr : r ∈ child) (hk : column r = some k) : ∃ p ∈ parent, target p = k :=
  h r hr k hk

/-- A table without rows refers to nothing. -/
theorem references_empty : References (∅ : Table α) column parent target :=
  fun _ hr => absurd hr List.not_mem_nil

/-- **Deleting on both sides** keeps a foreign key when no remaining row names a deleted one. -/
theorem References.delete (h : References child column parent target) {p : α → Bool} {q : β → Bool}
    (hkeep : ∀ r ∈ child, p r = false → ∀ k, column r = some k → ∀ b ∈ parent, target b = k →
      q b = false) :
    References (child.delete p) column (parent.delete q) target := by
  intro r hr k hk
  obtain ⟨hmem, hp⟩ := mem_delete.mp hr
  obtain ⟨b, hb, rfl⟩ := h r hmem k hk
  exact ⟨b, mem_delete.mpr ⟨hb, hkeep r hmem hp _ hk b hb rfl⟩, rfl⟩

/-- Deleting referencing rows keeps a foreign key. -/
theorem References.delete_child (h : References child column parent target) {p : α → Bool} :
    References (child.delete p) column parent target :=
  fun r hr => h r (mem_delete.mp hr).1

/-- A new row whose columns name rows of the parent keeps a foreign key. -/
theorem References.insert_child (h : References child column parent target) {r : α} {t : Table α}
    [DecidableEq κ] (ht : child.insert? r = some t)
    (hnew : ∀ k, column r = some k → ∃ b ∈ parent, target b = k) : References t column parent target := by
  intro q hq k hk
  rcases (mem_insert? ht).mp hq with rfl | hold
  · exact hnew k hk
  · exact h q hold k hk

/-- Updates of other columns keep a foreign key. -/
theorem References.update (h : References child column parent target) {p : α → Bool} {f : α → α}
    {hf : ∀ r, key (f r) = key r} (hcolumn : ∀ r, column (f r) = column r) :
    References (child.update p f hf) column parent target := by
  intro r' hr' k hk
  obtain ⟨r, hr, rfl⟩ := mem_update.mp hr'
  refine h r hr k ?_
  split at hk
  · exact (hcolumn r) ▸ hk
  · exact hk

/-- Updates of other columns of the parent keep a foreign key. -/
theorem References.update_parent (h : References child column parent target) {p : β → Bool}
    {f : β → β} {hf : ∀ r, key (f r) = key r} (htarget : ∀ r, target (f r) = target r) :
    References child column (parent.update p f hf) target := by
  intro r hr k hk
  obtain ⟨b, hb, rfl⟩ := h r hr k hk
  refine ⟨_, mem_update.mpr ⟨b, hb, rfl⟩, ?_⟩
  split
  · exact htarget b
  · rfl

end References

end Table

end Keyed

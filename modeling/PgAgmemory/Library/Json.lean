import Mathlib.Data.List.TakeDrop
import PgAgmemory.Library.Digits

/-! # JSON values and their text

JSON values with ordered object members, and the text a serialiser writes for them under a `Style`
(separators with or without blanks, non-ASCII characters escaped or not). The text determines the
value: `dumps_injective`. Sorting the members of every object (`sortKeys`) changes no lookup
(`find?_sortKeys`), so a sorted text still determines every member. -/

namespace Json

/-- The characters of a JSON number. -/
def isNumberChar (c : Char) : Bool := c ∈ "0123456789+-.eE".toList

/-- The text of a **number**: nonempty, and made of number characters only. -/
structure Numeral where
  /-- The characters of the number. -/
  chars : List Char
  /-- The text is not empty. -/
  nonempty : chars ≠ []
  /-- Only number characters occur. -/
  numeric : ∀ c ∈ chars, isNumberChar c = true
  deriving DecidableEq

mutual
/-- A JSON **value**. -/
inductive Value where
  | null
  | bool (b : Bool)
  | number (n : Numeral)
  | text (s : String)
  | array (items : Items)
  | object (members : Members)
  deriving DecidableEq
/-- The items of an array. -/
inductive Items where
  | nil
  | cons (head : Value) (tail : Items)
  deriving DecidableEq
/-- The members of an object, in order. -/
inductive Members where
  | nil
  | cons (name : String) (value : Value) (rest : Members)
  deriving DecidableEq
end

/-! ## Building values -/

/-- Array items from a list. -/
def Items.ofList : List Value → Items
  | [] => .nil
  | v :: vs => .cons v (ofList vs)

/-- The list of an array's items. -/
def Items.toList : Items → List Value
  | .nil => []
  | .cons v vs => v :: toList vs

/-- Object members from a list. -/
def Members.ofList : List (String × Value) → Members
  | [] => .nil
  | (name, v) :: rest => .cons name v (ofList rest)

/-- The array of a list of values. -/
def Value.arr (items : List Value) : Value := .array (.ofList items)

/-- The object of a list of members. -/
def Value.obj (members : List (String × Value)) : Value := .object (.ofList members)

@[simp] theorem Items.toList_ofList (vs : List Value) : (Items.ofList vs).toList = vs := by
  induction vs with
  | nil => rfl
  | cons v vs ih => exact congrArg (v :: ·) ih

@[simp] theorem Value.arr_inj {vs ws : List Value} : Value.arr vs = Value.arr ws ↔ vs = ws := by
  refine ⟨fun h => ?_, congrArg _⟩
  have hitems : Items.ofList vs = Items.ofList ws := Value.array.inj h
  rw [← Items.toList_ofList vs, hitems, Items.toList_ofList]

@[simp] theorem Value.obj_nil_inj : Value.obj [] = Value.obj [] ↔ True := ⟨fun _ => trivial, fun _ => rfl⟩

@[simp] theorem Value.obj_cons_inj {name name' : String} {v v' : Value}
    {rest rest' : List (String × Value)} :
    Value.obj ((name, v) :: rest) = Value.obj ((name', v') :: rest')
      ↔ name = name' ∧ v = v' ∧ Value.obj rest = Value.obj rest' := by
  simp [Value.obj, Members.ofList]

/-! ## Rendering -/

/-- How a serialiser writes. -/
structure Style where
  /-- A blank after every comma and colon. -/
  spaced : Bool
  /-- Non-ASCII characters escaped. -/
  ensureAscii : Bool
  deriving DecidableEq

/-- The separator between items. -/
def Style.itemSeparator (style : Style) : List Char := if style.spaced then [',', ' '] else [',']

/-- The separator between a member's name and its value. -/
def Style.keySeparator (style : Style) : List Char := if style.spaced then [':', ' '] else [':']

/-- The quotation mark. -/
def quote : Char := '\x22'

/-- The backslash. -/
def backslash : Char := '\x5c'

/-- The opening brace. -/
def openBrace : Char := '\x7b'

/-- The closing brace. -/
def closeBrace : Char := '\x7d'

/-- The escape of one UTF-16 code unit. -/
def unitEscape (n : Nat) : List Char := backslash :: 'u' :: Digits.fixed 16 4 n

/-- The letter of a two-character escape. -/
def shortEscape (c : Char) : Option Char :=
  if c = quote then some quote
  else if c = backslash then some backslash
  else if c = '\n' then some 'n'
  else if c = '\r' then some 'r'
  else if c = '\t' then some 't'
  else if c = '\x08' then some 'b'
  else if c = '\x0c' then some 'f'
  else none

/-- The text of a character that has no two-character escape. -/
def longEscape (ensureAscii : Bool) (c : Char) : List Char :=
  if c.toNat < 0x20 then unitEscape c.toNat
  else if ensureAscii && 0x7e < c.toNat then
    if c.toNat < 0x10000 then unitEscape c.toNat
    else unitEscape (0xd800 + (c.toNat - 0x10000) / 1024)
      ++ unitEscape (0xdc00 + (c.toNat - 0x10000) % 1024)
  else [c]

/-- The text of one character inside a string. -/
def escape (ensureAscii : Bool) (c : Char) : List Char :=
  match shortEscape c with
  | some d => [backslash, d]
  | none => longEscape ensureAscii c

/-- The characters of a quoted string after its opening quote. -/
def quoted (ensureAscii : Bool) (cs : List Char) : List Char :=
  cs.flatMap (escape ensureAscii) ++ [quote]

mutual
/-- The text of a value. -/
def Value.chars (style : Style) : Value → List Char
  | .null => ['n', 'u', 'l', 'l']
  | .bool true => ['t', 'r', 'u', 'e']
  | .bool false => ['f', 'a', 'l', 's', 'e']
  | .number n => n.chars
  | .text s => quote :: quoted style.ensureAscii s.toList
  | .array .nil => ['[', ']']
  | .array (.cons v vs) => '[' :: (v.chars style ++ vs.chars style)
  | .object .nil => [openBrace, closeBrace]
  | .object (.cons name v rest) =>
    openBrace :: (quote :: quoted style.ensureAscii name.toList
      ++ (style.keySeparator ++ (v.chars style ++ rest.chars style)))
/-- The text of an array after an item. -/
def Items.chars (style : Style) : Items → List Char
  | .nil => [']']
  | .cons v vs => style.itemSeparator ++ (v.chars style ++ vs.chars style)
/-- The text of an object after a member. -/
def Members.chars (style : Style) : Members → List Char
  | .nil => [closeBrace]
  | .cons name v rest => style.itemSeparator
      ++ (quote :: quoted style.ensureAscii name.toList
        ++ (style.keySeparator ++ (v.chars style ++ rest.chars style)))
end

theorem Value.chars_array_nil (style : Style) : (Value.array .nil).chars style = ['[', ']'] := rfl

theorem Value.chars_array_cons (style : Style) (v : Value) (vs : Items) :
    (Value.array (.cons v vs)).chars style = '[' :: (v.chars style ++ vs.chars style) := rfl

theorem Value.chars_object_cons (style : Style) (name : String) (v : Value) (ms : Members) :
    (Value.object (.cons name v ms)).chars style = openBrace :: (quote ::
      quoted style.ensureAscii name.toList ++ (style.keySeparator
        ++ (v.chars style ++ ms.chars style))) := rfl

theorem Items.chars_cons (style : Style) (v : Value) (vs : Items) :
    (Items.cons v vs).chars style = style.itemSeparator ++ (v.chars style ++ vs.chars style) := rfl

theorem Members.chars_cons (style : Style) (name : String) (v : Value) (ms : Members) :
    (Members.cons name v ms).chars style = style.itemSeparator
      ++ (quote :: quoted style.ensureAscii name.toList ++ (style.keySeparator
        ++ (v.chars style ++ ms.chars style))) := rfl

/-- **The text of a value** in the given style. -/
def dumps (style : Style) (v : Value) : String := String.ofList (v.chars style)

example : dumps ⟨true, true⟩ (.obj [("a", .arr [.text "é\n", .null]), ("b", .bool true)])
    = "\x7b\"a\": [\"\\u00e9\\n\", null], \"b\": true\x7d" := by decide +kernel

/-! ## Reading a text back -/

/-- Four hexadecimal digits off the front of a text. -/
def readUnit (cs : List Char) : Nat × List Char := (Digits.value 16 (cs.take 4), cs.drop 4)

/-- The character of a two-character escape. -/
def shortUnescape (d : Char) : Option Char :=
  if d = 'n' then some '\n'
  else if d = 'r' then some '\r'
  else if d = 't' then some '\t'
  else if d = 'b' then some '\x08'
  else if d = 'f' then some '\x0c'
  else if d = 'u' then none
  else some d

/-- The character that an escape denotes, from the text after its backslash. -/
def unescapeTail : List Char → Char × List Char
  | [] => (backslash, [])
  | d :: rest =>
    match shortUnescape d with
    | some c => (c, rest)
    | none =>
      let high := readUnit rest
      if high.1 < 0xd800 ∨ 0xdfff < high.1 then (Char.ofNat high.1, high.2)
      else
        let low := readUnit (high.2.drop 2)
        (Char.ofNat (0x10000 + (high.1 - 0xd800) * 1024 + (low.1 - 0xdc00)), low.2)

/-- One character off the front of a string's text. -/
def unescape : List Char → Char × List Char
  | [] => (quote, [])
  | c :: rest => if c = backslash then unescapeTail rest else (c, rest)

theorem readUnit_fixed {n : Nat} (h : n < 65536) (r : List Char) :
    readUnit (Digits.fixed 16 4 n ++ r) = (n, r) := by
  have hlen : (Digits.fixed 16 4 n).length = 4 := Digits.length_fixed 16 4 n
  rw [readUnit, List.take_left' hlen, List.drop_left' hlen,
    Digits.value_fixed (by decide) (by decide) h]

/-- Reading one escaped code unit. -/
theorem unescape_unitEscape {n : Nat} (h : n < 65536) (hunit : n < 0xd800 ∨ 0xdfff < n)
    (r : List Char) : unescape (unitEscape n ++ r) = (Char.ofNat n, r) := by
  have hlong : shortUnescape 'u' = none := rfl
  simp only [unitEscape, List.cons_append, unescape, if_true, unescapeTail, hlong,
    readUnit_fixed h, if_pos hunit]

/-- Reading an escaped surrogate pair. -/
theorem unescape_surrogates {n : Nat} (hn : n < 0x100000) (r : List Char) :
    unescape (unitEscape (0xd800 + n / 1024) ++ (unitEscape (0xdc00 + n % 1024) ++ r))
      = (Char.ofNat (0x10000 + n), r) := by
  have hhigh : 0xd800 + n / 1024 < 65536 := by omega
  have hlow : 0xdc00 + n % 1024 < 65536 := by omega
  have hsurrogate : ¬ (0xd800 + n / 1024 < 0xd800 ∨ 0xdfff < 0xd800 + n / 1024) := by omega
  have hjoin : 0x10000 + (0xd800 + n / 1024 - 0xd800) * 1024 + (0xdc00 + n % 1024 - 0xdc00)
      = 0x10000 + n := by omega
  have hlong : shortUnescape 'u' = none := rfl
  simp only [unitEscape, List.cons_append, unescape, if_true, unescapeTail, hlong,
    readUnit_fixed hhigh, List.drop_succ_cons, List.drop_zero, readUnit_fixed hlow, hjoin,
    if_neg hsurrogate]

/-- A character is no surrogate. -/
theorem toNat_scalar (c : Char) : c.toNat < 0xd800 ∨ 0xdfff < c.toNat ∧ c.toNat < 0x110000 := by
  rcases c.valid with h | ⟨h, h'⟩
  · exact Or.inl h
  · exact Or.inr ⟨h, h'⟩

/-- A two-character escape denotes its character. -/
theorem shortUnescape_shortEscape {c d : Char} (h : shortEscape c = some d) :
    shortUnescape d = some c := by
  unfold shortEscape at h
  repeat' split at h
  all_goals first | (cases h; done) | (cases h; subst_vars; rfl)

/-- A character without a two-character escape is read back. -/
theorem unescape_longEscape (ensureAscii : Bool) {c : Char} (hc : shortEscape c = none)
    (r : List Char) : unescape (longEscape ensureAscii c ++ r) = (c, r) := by
  have hscalar := toNat_scalar c
  have hof : Char.ofNat c.toNat = c := Char.ofNat_toNat c
  have hbackslash : c ≠ backslash := by
    rintro rfl
    exact absurd hc (by decide)
  unfold longEscape
  split
  next h => rw [unescape_unitEscape (by omega) (by omega), hof]
  next h =>
    split
    · split
      next h' => rw [unescape_unitEscape (by omega) (by omega), hof]
      next h' =>
        rw [List.append_assoc, unescape_surrogates (by omega),
          show 0x10000 + (c.toNat - 0x10000) = c.toNat by omega, hof]
    · exact if_neg hbackslash

/-- **One character can be read back** from in front of any text. -/
theorem unescape_escape (ensureAscii : Bool) (c : Char) (r : List Char) :
    unescape (escape ensureAscii c ++ r) = (c, r) := by
  unfold escape
  split
  next d hd =>
    simp only [List.cons_append, List.nil_append, unescape, if_true, unescapeTail,
      shortUnescape_shortEscape hd]
  next hnone => exact unescape_longEscape ensureAscii hnone r

/-- The text of a character never begins like the end of a string. -/
theorem head_escape (ensureAscii : Bool) (c : Char) :
    ∃ d l, escape ensureAscii c = d :: l ∧ d ≠ quote := by
  unfold escape
  split
  next d hd => exact ⟨backslash, [d], rfl, by decide⟩
  next hnone =>
    have hquote : c ≠ quote := by
      rintro rfl
      exact absurd hnone (by decide)
    unfold longEscape
    repeat' split
    all_goals first
      | exact ⟨backslash, _, rfl, by decide⟩
      | exact ⟨c, [], rfl, hquote⟩

/-- **A quoted string can be read off** the front of any text. -/
theorem quoted_append_inj (ensureAscii : Bool) {cs ds r s : List Char}
    (h : quoted ensureAscii cs ++ r = quoted ensureAscii ds ++ s) : cs = ds ∧ r = s := by
  induction cs generalizing ds with
  | nil =>
    cases ds with
    | nil => exact ⟨rfl, List.tail_eq_of_cons_eq h⟩
    | cons d ds =>
      obtain ⟨x, l, hx, hne⟩ := head_escape ensureAscii d
      rw [quoted, quoted, List.flatMap_cons, hx] at h
      exact absurd (List.head_eq_of_cons_eq h).symm hne
  | cons c cs ih =>
    cases ds with
    | nil =>
      obtain ⟨x, l, hx, hne⟩ := head_escape ensureAscii c
      rw [quoted, quoted, List.flatMap_cons, hx] at h
      exact absurd (List.head_eq_of_cons_eq h) hne
    | cons d ds =>
      simp only [quoted, List.flatMap_cons, List.append_assoc] at h ih
      have hread := congrArg unescape h
      rw [unescape_escape, unescape_escape] at hread
      obtain ⟨hc, hrest⟩ := Prod.mk.inj hread
      obtain ⟨hcs, hr⟩ := ih hrest
      exact ⟨by rw [hc, hcs], hr⟩

/-- The digits of a numeral are no control characters. -/
theorem control_not_mem_digits : ∀ c ∈ Digits.digits, 0x20 ≤ c.toNat := by
  have h : Digits.digits.all (fun c => decide (0x20 ≤ c.toNat)) = true := by decide
  intro c hc
  exact of_decide_eq_true (List.all_eq_true.mp h c hc)

/-- The text of a character has no control character. -/
theorem control_not_mem_escape {ensureAscii : Bool} {c d : Char} (h : d ∈ escape ensureAscii c) :
    0x20 ≤ d.toNat := by
  have hunit : ∀ n : Nat, ∀ e ∈ unitEscape n, 0x20 ≤ e.toNat := by
    intro n e he
    rcases List.mem_cons.mp he with rfl | he
    · decide
    · rcases List.mem_cons.mp he with rfl | he
      · decide
      · exact control_not_mem_digits e (Digits.mem_digits_of_mem_fixed (by decide) he)
  unfold escape at h
  split at h
  next e he =>
    rcases List.mem_cons.mp h with rfl | h
    · decide
    · rw [List.mem_singleton.mp h]
      unfold shortEscape at he
      repeat' split at he
      all_goals first | (cases he; done) | (cases he; decide)
  next hnone =>
    unfold longEscape at h
    split at h
    next hlow => exact hunit _ d h
    next hlow =>
      repeat' split at h
      · exact hunit _ d h
      · rcases List.mem_append.mp h with h | h
        · exact hunit _ d h
        · exact hunit _ d h
      · rw [List.mem_singleton.mp h]
        exact Nat.le_of_not_lt hlow

/-- **A quoted string has no control character**, in particular no line feed. -/
theorem control_not_mem_quoted {ensureAscii : Bool} {cs : List Char} {d : Char}
    (h : d ∈ quoted ensureAscii cs) : 0x20 ≤ d.toNat := by
  rcases List.mem_append.mp h with h | h
  · obtain ⟨c, -, hd⟩ := List.mem_flatMap.mp h
    exact control_not_mem_escape hd
  · rw [List.mem_singleton.mp h]
    decide

/-- A text that cannot continue a number. -/
def Stops (r : List Char) : Prop := ∀ c ∈ r.head?, isNumberChar c = false

/-- **A number can be read off** a text that stops it. -/
theorem Numeral.append_inj {n m : Numeral} {r s : List Char} (hr : Stops r) (hs : Stops s)
    (h : n.chars ++ r = m.chars ++ s) : n = m ∧ r = s := by
  have hspan : ∀ (k : Numeral) (t : List Char), Stops t →
      (k.chars ++ t).span isNumberChar = (k.chars, t) := by
    intro k t ht
    rw [List.span_eq_takeWhile_dropWhile, List.takeWhile_append_of_pos k.numeric,
      List.dropWhile_append_of_pos k.numeric]
    cases t with
    | nil => simp
    | cons c t => simp [ht c rfl]
  have hboth := congrArg (List.span isNumberChar) h
  rw [hspan n r hr, hspan m s hs] at hboth
  obtain ⟨hchars, hrest⟩ := Prod.mk.inj hboth
  refine ⟨?_, hrest⟩
  cases n; cases m; cases hchars; rfl

/-- The opening character of a value that is not a number. -/
def Value.opening : Value → Option Char
  | .null => some 'n'
  | .bool true => some 't'
  | .bool false => some 'f'
  | .number _ => none
  | .text _ => some quote
  | .array _ => some '['
  | .object _ => some openBrace

/-- A value's text begins with its opening character, or with a number character. -/
theorem Value.head_chars (style : Style) (v : Value) :
    ∃ c l, v.chars style = c :: l ∧
      v.opening = (if isNumberChar c then none else some c) ∧ c ≠ ']' := by
  match v with
  | .null => exact ⟨_, _, rfl, by decide, by decide⟩
  | .bool true => exact ⟨_, _, rfl, by decide, by decide⟩
  | .bool false => exact ⟨_, _, rfl, by decide, by decide⟩
  | .text _ => exact ⟨quote, _, rfl, by simp [Value.opening, isNumberChar, quote], by decide⟩
  | .array .nil => exact ⟨'[', _, rfl, by simp [Value.opening, isNumberChar], by decide⟩
  | .array (.cons _ _) => exact ⟨'[', _, rfl, by simp [Value.opening, isNumberChar], by decide⟩
  | .object .nil =>
    exact ⟨openBrace, _, rfl, by simp [Value.opening, isNumberChar, openBrace], by decide⟩
  | .object (.cons _ _ _) =>
    exact ⟨openBrace, _, rfl, by simp [Value.opening, isNumberChar, openBrace], by decide⟩
  | .number n =>
    obtain ⟨c, l, hcl⟩ := List.exists_cons_of_ne_nil n.nonempty
    have hc : isNumberChar c = true := n.numeric c (by simp [hcl])
    refine ⟨c, l, hcl, by simp [Value.opening, hc], ?_⟩
    rintro rfl
    exact absurd hc (by decide)

/-- Values with one text open alike. -/
theorem Value.opening_eq {style : Style} {v w : Value} {r s : List Char}
    (h : v.chars style ++ r = w.chars style ++ s) : v.opening = w.opening := by
  obtain ⟨c, l, hv, hvo, -⟩ := v.head_chars style
  obtain ⟨d, m, hw, hwo, -⟩ := w.head_chars style
  rw [hv, hw] at h
  rw [hvo, hwo, List.head_eq_of_cons_eq h]

/-- A value's text is not the end of an array. -/
theorem Value.chars_append_ne {style : Style} (v : Value) {r s : List Char} :
    v.chars style ++ r ≠ ']' :: s := by
  obtain ⟨c, l, hv, -, hne⟩ := v.head_chars style
  rw [hv]
  exact fun h => hne (List.head_eq_of_cons_eq h)

theorem Items.stops_chars (style : Style) (vs : Items) (r : List Char) :
    Stops (vs.chars style ++ r) := by
  cases vs with
  | nil => rintro c ⟨⟩; decide
  | cons v vs =>
    simp only [Items.chars_cons, Style.itemSeparator]
    split <;> (rintro c ⟨⟩; decide)

theorem Members.stops_chars (style : Style) (ms : Members) (r : List Char) :
    Stops (ms.chars style ++ r) := by
  cases ms with
  | nil => rintro c ⟨⟩; decide
  | cons name v ms =>
    simp only [Members.chars_cons, Style.itemSeparator]
    split <;> (rintro c ⟨⟩; decide)

/-- A separator is no end of an array. -/
theorem separator_ne (style : Style) {c : Char} (hc : c ≠ ',') (r s : List Char) :
    style.itemSeparator ++ r ≠ c :: s := by
  unfold Style.itemSeparator
  split <;> exact fun h => hc (List.head_eq_of_cons_eq h).symm

mutual

/-- **A value can be read off** a text that does not continue it. -/
theorem Value.chars_append_inj (style : Style) : ∀ (v w : Value) (r s : List Char),
    Stops r → Stops s → v.chars style ++ r = w.chars style ++ s → v = w ∧ r = s := by
  intro v w r s hr hs h
  have hopen := Value.opening_eq h
  -- The opening character tells the kinds apart; only an empty collection needs its closing one.
  match v, w with
  | .null, .null => exact ⟨rfl, List.append_cancel_left h⟩
  | .bool true, .bool true => exact ⟨rfl, List.append_cancel_left h⟩
  | .bool false, .bool false => exact ⟨rfl, List.append_cancel_left h⟩
  | .number n, .number m =>
    obtain ⟨hn, hrs⟩ := Numeral.append_inj hr hs h
    exact ⟨congrArg Value.number hn, hrs⟩
  | .text a, .text b =>
    obtain ⟨hab, hrs⟩ := quoted_append_inj _ (List.tail_eq_of_cons_eq h)
    exact ⟨congrArg Value.text (String.toList_inj.mp hab), hrs⟩
  | .array .nil, .array .nil => exact ⟨rfl, List.append_cancel_left h⟩
  | .array .nil, .array (.cons b bs) =>
    simp only [Value.chars_array_nil, Value.chars_array_cons, List.cons_append, List.append_assoc,
      List.nil_append] at h
    exact absurd (List.tail_eq_of_cons_eq h).symm (Value.chars_append_ne b)
  | .array (.cons a as), .array .nil =>
    simp only [Value.chars_array_nil, Value.chars_array_cons, List.cons_append, List.append_assoc,
      List.nil_append] at h
    exact absurd (List.tail_eq_of_cons_eq h) (Value.chars_append_ne a)
  | .array (.cons a as), .array (.cons b bs) =>
    simp only [Value.chars_array_cons, List.cons_append, List.append_assoc] at h
    obtain ⟨hab, hrest⟩ := Value.chars_append_inj style a b _ _
      (Items.stops_chars style as r) (Items.stops_chars style bs s) (List.tail_eq_of_cons_eq h)
    obtain ⟨habs, hrs⟩ := Items.chars_append_inj style as bs r s hrest
    exact ⟨by rw [hab, habs], hrs⟩
  | .object .nil, .object .nil => exact ⟨rfl, List.append_cancel_left h⟩
  | .object .nil, .object (.cons name b bs) =>
    exact absurd (List.head_eq_of_cons_eq (List.tail_eq_of_cons_eq h)) (by decide)
  | .object (.cons name a as), .object .nil =>
    exact absurd (List.head_eq_of_cons_eq (List.tail_eq_of_cons_eq h)) (by decide)
  | .object (.cons name a as), .object (.cons name' b bs) =>
    simp only [Value.chars_object_cons, List.cons_append, List.append_assoc] at h
    obtain ⟨hname, hkey⟩ := quoted_append_inj _
      (List.tail_eq_of_cons_eq (List.tail_eq_of_cons_eq h))
    obtain ⟨hab, hrest⟩ := Value.chars_append_inj style a b _ _
      (Members.stops_chars style as r) (Members.stops_chars style bs s)
      (List.append_cancel_left hkey)
    obtain ⟨habs, hrs⟩ := Members.chars_append_inj style as bs r s hrest
    exact ⟨by rw [String.toList_inj.mp hname, hab, habs], hrs⟩

/-- The rest of an array can be read off any text. -/
theorem Items.chars_append_inj (style : Style) : ∀ (vs ws : Items) (r s : List Char),
    vs.chars style ++ r = ws.chars style ++ s → vs = ws ∧ r = s := by
  intro vs ws r s h
  match vs, ws with
  | .nil, .nil => exact ⟨rfl, List.append_cancel_left h⟩
  | .nil, .cons w ws =>
    simp only [Items.chars_cons, List.append_assoc] at h
    exact absurd h.symm (separator_ne style (by decide) _ _)
  | .cons v vs, .nil =>
    simp only [Items.chars_cons, List.append_assoc] at h
    exact absurd h (separator_ne style (by decide) _ _)
  | .cons v vs, .cons w ws =>
    simp only [Items.chars_cons, List.append_assoc] at h
    obtain ⟨hvw, hrest⟩ := Value.chars_append_inj style v w _ _
      (Items.stops_chars style vs r) (Items.stops_chars style ws s) (List.append_cancel_left h)
    obtain ⟨hvws, hrs⟩ := Items.chars_append_inj style vs ws r s hrest
    exact ⟨by rw [hvw, hvws], hrs⟩

/-- The rest of an object can be read off any text. -/
theorem Members.chars_append_inj (style : Style) : ∀ (ms ns : Members) (r s : List Char),
    ms.chars style ++ r = ns.chars style ++ s → ms = ns ∧ r = s := by
  intro ms ns r s h
  match ms, ns with
  | .nil, .nil => exact ⟨rfl, List.append_cancel_left h⟩
  | .nil, .cons name w ns =>
    simp only [Members.chars_cons, List.append_assoc] at h
    exact absurd h.symm (separator_ne style (by decide) _ _)
  | .cons name v ms, .nil =>
    simp only [Members.chars_cons, List.append_assoc] at h
    exact absurd h (separator_ne style (by decide) _ _)
  | .cons name v ms, .cons name' w ns =>
    simp only [Members.chars_cons, List.append_assoc] at h
    obtain ⟨hname, hkey⟩ := quoted_append_inj _
      (List.tail_eq_of_cons_eq (List.append_cancel_left h))
    obtain ⟨hvw, hrest⟩ := Value.chars_append_inj style v w _ _
      (Members.stops_chars style ms r) (Members.stops_chars style ns s)
      (List.append_cancel_left hkey)
    obtain ⟨hmns, hrs⟩ := Members.chars_append_inj style ms ns r s hrest
    exact ⟨by rw [String.toList_inj.mp hname, hvw, hmns], hrs⟩

end

/-- **The text determines the value.** -/
theorem dumps_injective (style : Style) {v w : Value} (h : dumps style v = dumps style w) :
    v = w := by
  have hchars : v.chars style ++ [] = w.chars style ++ [] := by
    rw [List.append_nil, List.append_nil]
    exact String.ofList_injective h
  exact (Value.chars_append_inj style v w [] [] (by rintro c ⟨⟩) (by rintro c ⟨⟩) hchars).1

mutual
/-- The strings inside a value, member names included. -/
def Value.strings : Value → List String
  | .text s => [s]
  | .array vs => vs.strings
  | .object ms => ms.strings
  | _ => []
/-- The strings inside the items of an array. -/
def Items.strings : Items → List String
  | .nil => []
  | .cons v vs => v.strings ++ vs.strings
/-- The strings inside the members of an object. -/
def Members.strings : Members → List String
  | .nil => []
  | .cons name v rest => name :: (v.strings ++ rest.strings)
end

/-! ## Sorted members -/

/-- The first member of a name. -/
def Members.find? (name : String) : Members → Option Value
  | .nil => none
  | .cons n v rest => if n = name then some v else rest.find? name

/-- The member of an object, if the value is an object that has it. -/
def Value.get? (v : Value) (name : String) : Option Value :=
  match v with
  | .object ms => ms.find? name
  | _ => none

/-- Whether the name of every member is as wanted. -/
def Members.allNames (wanted : String → Bool) : Members → Bool
  | .nil => true
  | .cons n _ rest => wanted n && rest.allNames wanted

/-- Whether a value is an object without a member of another name. -/
def Value.named (wanted : String → Bool) : Value → Bool
  | .object ms => ms.allNames wanted
  | _ => false

/-- The items of an array; no other value has any. -/
def Value.items : Value → List Value
  | .array vs => vs.toList
  | _ => []

/-- The items of an array, if the value is one. -/
def Value.items? : Value → Option (List Value)
  | .array vs => some vs.toList
  | _ => none

/-- A member in front of the first later name. -/
def Members.insert (name : String) (v : Value) : Members → Members
  | .nil => .cons name v .nil
  | .cons n w rest => if n < name then .cons n w (rest.insert name v) else .cons name v (.cons n w rest)

mutual
/-- **The value with the members of every object sorted by name.** -/
def Value.sortKeys : Value → Value
  | .array vs => .array vs.sortKeys
  | .object ms => .object ms.sortKeys
  | v => v
/-- Sorting inside every item. -/
def Items.sortKeys : Items → Items
  | .nil => .nil
  | .cons v vs => .cons v.sortKeys vs.sortKeys
/-- Sorting the members and inside every member. -/
def Members.sortKeys : Members → Members
  | .nil => .nil
  | .cons name v rest => rest.sortKeys.insert name v.sortKeys
end

theorem Members.find?_insert (name key : String) (v : Value) (ms : Members) :
    (ms.insert name v).find? key = if name = key then some v else ms.find? key := by
  match ms with
  | .nil => rfl
  | .cons n w rest =>
    by_cases hlt : n < name
    · rw [Members.insert, if_pos hlt, Members.find?, Members.find?, find?_insert name key v rest]
      by_cases hn : n = key
      · rw [if_pos hn, if_pos hn, if_neg]
        rintro rfl
        exact String.lt_irrefl _ (hn ▸ hlt)
      · rw [if_neg hn, if_neg hn]
    · rw [Members.insert, if_neg hlt, Members.find?]

/-- **Sorting keeps every lookup.** -/
theorem Members.find?_sortKeys (name : String) : ∀ ms : Members,
    ms.sortKeys.find? name = (ms.find? name).map Value.sortKeys
  | .nil => rfl
  | .cons n v rest => by
    rw [Members.sortKeys, find?_insert, find?_sortKeys name rest, Members.find?]
    by_cases hn : n = name
    · rw [if_pos hn, if_pos hn]; rfl
    · rw [if_neg hn, if_neg hn]

theorem Value.get?_sortKeys (v : Value) (name : String) :
    v.sortKeys.get? name = (v.get? name).map Value.sortKeys := by
  cases v with
  | object ms => exact Members.find?_sortKeys name ms
  | _ => rfl

@[simp] theorem Value.get?_obj_nil (key : String) : (Value.obj []).get? key = none := rfl

@[simp] theorem Value.get?_obj_cons (name key : String) (v : Value) (rest : List (String × Value)) :
    (Value.obj ((name, v) :: rest)).get? key
      = if name = key then some v else (Value.obj rest).get? key := rfl

@[simp] theorem Value.sortKeys_null : Value.null.sortKeys = .null := rfl

@[simp] theorem Value.sortKeys_bool (b : Bool) : (Value.bool b).sortKeys = .bool b := rfl

@[simp] theorem Value.sortKeys_number (n : Numeral) : (Value.number n).sortKeys = .number n := rfl

@[simp] theorem Value.sortKeys_text (s : String) : (Value.text s).sortKeys = .text s := rfl

@[simp] theorem Value.sortKeys_arr (vs : List Value) :
    (Value.arr vs).sortKeys = Value.arr (vs.map Value.sortKeys) := by
  induction vs with
  | nil => rfl
  | cons v vs ih =>
    have hitems : (Items.ofList vs).sortKeys = Items.ofList (vs.map Value.sortKeys) :=
      Value.array.inj ih
    change Value.array (.cons v.sortKeys (Items.ofList vs).sortKeys) = _
    rw [hitems]
    rfl

/-- Sorting keeps the items of an array in place. -/
theorem Items.toList_sortKeys : ∀ vs : Items, vs.sortKeys.toList = vs.toList.map Value.sortKeys
  | .nil => rfl
  | .cons v vs => congrArg (v.sortKeys :: ·) (toList_sortKeys vs)

theorem Value.items?_sortKeys (v : Value) : v.sortKeys.items? = v.items?.map (List.map Value.sortKeys) := by
  cases v with
  | array vs => exact congrArg some vs.toList_sortKeys
  | _ => rfl

@[simp] theorem Value.items?_arr (vs : List Value) : (Value.arr vs).items? = some vs :=
  congrArg some (Items.toList_ofList vs)

theorem Members.allNames_insert (wanted : String → Bool) (name : String) (v : Value) (ms : Members) :
    (ms.insert name v).allNames wanted = (wanted name && ms.allNames wanted) := by
  match ms with
  | .nil => rfl
  | .cons n w rest =>
    by_cases hlt : n < name
    · rw [Members.insert, if_pos hlt, Members.allNames, Members.allNames,
        allNames_insert wanted name v rest, Bool.and_left_comm]
    · rw [Members.insert, if_neg hlt, Members.allNames]

/-- Sorting keeps the names. -/
theorem Members.allNames_sortKeys (wanted : String → Bool) : ∀ ms : Members,
    ms.sortKeys.allNames wanted = ms.allNames wanted
  | .nil => rfl
  | .cons n v rest => by
    rw [Members.sortKeys, allNames_insert, allNames_sortKeys wanted rest, Members.allNames]

theorem Value.named_sortKeys (wanted : String → Bool) (v : Value) :
    v.sortKeys.named wanted = v.named wanted := by
  cases v with
  | object ms => exact ms.allNames_sortKeys wanted
  | _ => rfl

@[simp] theorem Value.named_obj (wanted : String → Bool) (members : List (String × Value)) :
    (Value.obj members).named wanted = members.all fun m => wanted m.1 := by
  induction members with
  | nil => rfl
  | cons m rest ih =>
    obtain ⟨name, v⟩ := m
    exact congrArg (wanted name && ·) ih

end Json

import Mathlib.Algebra.Group.Int.Defs
import Mathlib.Algebra.Group.Nat.Defs
import Mathlib.Data.List.DropRight
import Mathlib.Data.List.Infix
import Mathlib.Data.List.TakeWhile
import PgAgmemory.Library.Json

/-! # Identifiers, texts and times

The scalar values of the contract: UUIDs with their canonical text, bounded texts, instants in
microseconds, and aware datetimes with their ISO text. Bounds are fields, so an out-of-range text or
an impossible date cannot be built. Every value has the JSON form that the contract models write. -/

namespace PgAgmemory

open Json (Value Numeral)

/-! ## Numbers -/

/-- A decimal integer is a JSON number. -/
theorem isNumberChar_toDigits {n : Nat} {c : Char} (h : c ∈ Nat.toDigits 10 n) :
    Json.isNumberChar c = true := by
  have hdigit : c.isDigit = true := Nat.isDigit_of_mem_toDigits (by decide) (by decide) h
  obtain ⟨hlow, hhigh⟩ : 48 ≤ c.toNat ∧ c.toNat ≤ 57 := by
    simpa [Char.isDigit, UInt32.le_iff_toNat_le] using hdigit
  have key : ∀ k : Fin 10, Json.isNumberChar (Char.ofNat (48 + k)) = true := by decide +kernel
  have hchar : Char.ofNat (48 + (c.toNat - 48)) = c := by
    rw [Nat.add_sub_cancel' hlow, Char.ofNat_toNat]
  rw [← hchar]
  exact key ⟨c.toNat - 48, by omega⟩

/-- The decimal text of a natural number. -/
def Numeral.ofNat (n : Nat) : Numeral where
  chars := Nat.toDigits 10 n
  nonempty := Nat.toDigits_ne_nil
  numeric _ := isNumberChar_toDigits

theorem Numeral.ofNat_injective {m n : Nat} (h : Numeral.ofNat m = Numeral.ofNat n) : m = n := by
  have hchars : Nat.toDigits 10 m = Nat.toDigits 10 n := congrArg Numeral.chars h
  rw [← Nat.ofDigitChars_ten_toDigits (n := m), hchars, Nat.ofDigitChars_ten_toDigits]

/-- A natural number as JSON. -/
def jsonNat (n : Nat) : Value := .number (Numeral.ofNat n)

@[simp] theorem jsonNat_inj {m n : Nat} : jsonNat m = jsonNat n ↔ m = n :=
  ⟨fun h => Numeral.ofNat_injective (Value.number.inj h), congrArg _⟩

/-- An optional value as JSON, absent as `null`. -/
def jsonOption {α : Type} (dump : α → Value) : Option α → Value
  | none => .null
  | some a => dump a

theorem jsonOption_injective {α : Type} {dump : α → Value} (hnull : ∀ a, dump a ≠ .null)
    (hdump : ∀ a b, dump a = dump b → a = b) {x y : Option α}
    (h : jsonOption dump x = jsonOption dump y) : x = y := by
  cases x with
  | none =>
    cases y with
    | none => rfl
    | some b => exact absurd h.symm (hnull b)
  | some a =>
    cases y with
    | none => exact absurd h (hnull a)
    | some b => exact congrArg some (hdump a b h)

/-! ## UUIDs -/

/-- A **UUID** as its 128-bit number. -/
abbrev UUID := Fin (2 ^ 128)

instance lawfulBEq_uuid : LawfulBEq UUID := inferInstance

instance neZero_uuid : @NeZero Nat Zero.ofOfNat0 (2 ^ 128) := inferInstance

/-- The characters of the canonical text `xxxxxxxx-xxxx-xxxx-xxxx-xxxxxxxxxxxx`, from the five
groups of a UUID. -/
def groupChars (a b c d e : Nat) : List Char :=
  Digits.fixed 16 8 a ++ '-' :: (Digits.fixed 16 4 b ++ '-' :: (Digits.fixed 16 4 c
    ++ '-' :: (Digits.fixed 16 4 d ++ '-' :: (Digits.fixed 16 12 e ++ []))))

/-- The canonical text of a UUID. -/
def UUID.str (u : UUID) : String :=
  String.ofList (groupChars (u.val / 16 ^ 24) (u.val / 16 ^ 20 % 16 ^ 4) (u.val / 16 ^ 16 % 16 ^ 4)
    (u.val / 16 ^ 12 % 16 ^ 4) (u.val % 16 ^ 12))

/-- Groups can be read off the text. -/
theorem groupChars_inj {a b c d e a' b' c' d' e' : Nat}
    (ha : a < 16 ^ 8 ∧ a' < 16 ^ 8) (hb : b < 16 ^ 4 ∧ b' < 16 ^ 4) (hc : c < 16 ^ 4 ∧ c' < 16 ^ 4)
    (hd : d < 16 ^ 4 ∧ d' < 16 ^ 4) (he : e < 16 ^ 12 ∧ e' < 16 ^ 12)
    (h : groupChars a b c d e = groupChars a' b' c' d' e') :
    a = a' ∧ b = b' ∧ c = c' ∧ d = d' ∧ e = e' := by
  obtain ⟨h1, hrest⟩ := Digits.fixed_append_inj (by decide) (by decide) ha.1 ha.2 h
  obtain ⟨h2, hrest⟩ := Digits.fixed_append_inj (by decide) (by decide) hb.1 hb.2
    (List.tail_eq_of_cons_eq hrest)
  obtain ⟨h3, hrest⟩ := Digits.fixed_append_inj (by decide) (by decide) hc.1 hc.2
    (List.tail_eq_of_cons_eq hrest)
  obtain ⟨h4, hrest⟩ := Digits.fixed_append_inj (by decide) (by decide) hd.1 hd.2
    (List.tail_eq_of_cons_eq hrest)
  obtain ⟨h5, -⟩ := Digits.fixed_append_inj (by decide) (by decide) he.1 he.2
    (List.tail_eq_of_cons_eq hrest)
  exact ⟨h1, h2, h3, h4, h5⟩

/-- The five groups determine the number. -/
theorem groups_determine {m n : Nat} (h1 : m / 16 ^ 24 = n / 16 ^ 24)
    (h2 : m / 16 ^ 20 % 16 ^ 4 = n / 16 ^ 20 % 16 ^ 4)
    (h3 : m / 16 ^ 16 % 16 ^ 4 = n / 16 ^ 16 % 16 ^ 4)
    (h4 : m / 16 ^ 12 % 16 ^ 4 = n / 16 ^ 12 % 16 ^ 4) (h5 : m % 16 ^ 12 = n % 16 ^ 12) :
    m = n := by
  have split : ∀ (k : Nat) (j : Nat), m / 16 ^ (j + k) = n / 16 ^ (j + k) →
      m / 16 ^ j % 16 ^ k = n / 16 ^ j % 16 ^ k → m / 16 ^ j = n / 16 ^ j := by
    intro k j hhigh hlow
    rw [← Nat.div_add_mod (m / 16 ^ j) (16 ^ k), ← Nat.div_add_mod (n / 16 ^ j) (16 ^ k),
      Nat.div_div_eq_div_mul, Nat.div_div_eq_div_mul, ← Nat.pow_add, hhigh, hlow]
  have h12 := split 4 12 (split 4 16 (split 4 20 h1 h2) h3) h4
  rw [← Nat.div_add_mod m (16 ^ 12), ← Nat.div_add_mod n (16 ^ 12), h12, h5]

/-- **The text determines the UUID.** -/
theorem UUID.str_injective {u v : UUID} (h : UUID.str u = UUID.str v) : u = v := by
  have hbound : ∀ w : UUID, w.val / 16 ^ 24 < 16 ^ 8 := fun w =>
    Nat.div_lt_of_lt_mul (Nat.lt_of_lt_of_eq w.isLt (by decide))
  have hmod : ∀ (w : UUID) (k : Nat), w.val / 16 ^ k % 16 ^ 4 < 16 ^ 4 :=
    fun w k => Nat.mod_lt _ (Nat.pow_pos (by decide))
  have hlast : ∀ w : UUID, w.val % 16 ^ 12 < 16 ^ 12 :=
    fun w => Nat.mod_lt _ (Nat.pow_pos (by decide))
  obtain ⟨h1, h2, h3, h4, h5⟩ := groupChars_inj ⟨hbound u, hbound v⟩ ⟨hmod u 20, hmod v 20⟩
    ⟨hmod u 16, hmod v 16⟩ ⟨hmod u 12, hmod v 12⟩ ⟨hlast u, hlast v⟩ (String.ofList_injective h)
  exact Fin.ext (groups_determine h1 h2 h3 h4 h5)

/-- A UUID as JSON. -/
def jsonUUID (u : UUID) : Value := .text (UUID.str u)

@[simp] theorem jsonUUID_inj {u v : UUID} : jsonUUID u = jsonUUID v ↔ u = v :=
  ⟨fun h => UUID.str_injective (Value.text.inj h), congrArg _⟩

/-! ## Texts -/

/-- The characters that stripping removes at both ends of a text. -/
def isWhitespace (c : Char) : Bool :=
  (9 ≤ c.toNat && c.toNat ≤ 13) || (0x2000 ≤ c.toNat && c.toNat ≤ 0x200a)
    || [0x20, 0x85, 0xa0, 0x1680, 0x2028, 0x2029, 0x202f, 0x205f, 0x3000].contains c.toNat

/-- A text that stripping leaves alone. -/
def Stripped (s : String) : Prop :=
  (∀ c ∈ s.toList.head?, isWhitespace c = false) ∧ ∀ c ∈ s.toList.getLast?, isWhitespace c = false

instance (s : String) : Decidable (Stripped s) :=
  @instDecidableAnd _ _ (Option.decidableForallMem _) (Option.decidableForallMem _)

/-- A text without the whitespace at its ends (`str_strip_whitespace`). -/
def strip (s : String) : String :=
  String.ofList ((s.toList.dropWhile isWhitespace).rdropWhile isWhitespace)

/-- Stripping leaves a stripped text alone. -/
theorem strip_of_stripped {s : String} (h : Stripped s) : strip s = s := by
  have hfront : s.toList.dropWhile isWhitespace = s.toList := by
    refine List.dropWhile_eq_self_iff.mpr fun hlength hspace => ?_
    have hhead := h.1 s.toList[0] (by rw [List.head?_eq_getElem?, List.getElem?_eq_getElem hlength]; rfl)
    rw [hhead] at hspace
    cases hspace
  have hback : s.toList.rdropWhile isWhitespace = s.toList := by
    refine List.rdropWhile_eq_self_iff.mpr fun hne hspace => ?_
    have hlast := h.2 (s.toList.getLast hne) (by rw [List.getLast?_eq_some_getLast hne]; rfl)
    rw [hlast] at hspace
    cases hspace
  rw [strip, hfront, hback, String.ofList_toList]

/-- A stripped **text** with between `least` and `most` characters. -/
structure Text (least most : Nat) where
  /-- The characters. -/
  str : String
  /-- Long enough. -/
  least_le : least ≤ str.length := by decide +kernel
  /-- Short enough. -/
  le_most : str.length ≤ most := by decide +kernel
  /-- No whitespace at either end. -/
  stripped : Stripped str := by decide +kernel
  deriving DecidableEq

/-- Names, references and reasons. -/
abbrev ShortText := Text 1 256

/-- Episode content and assertion values. -/
abbrev Content := Text 1 65536

/-- Evidence quotes and state entries. -/
abbrev LongText := Text 1 4096

/-- A text as JSON. -/
def Text.dump {least most : Nat} (t : Text least most) : Value := .text t.str

@[simp] theorem Text.dump_inj {least most : Nat} {t t' : Text least most} :
    t.dump = t'.dump ↔ t = t' := by
  refine ⟨fun h => ?_, congrArg _⟩
  cases t; cases t'; cases h; rfl

/-- Whether a text is a predicate name: a lower-case letter, then up to 63 letters, digits and
underscores. -/
def isPredicate (s : String) : Bool :=
  match s.toList with
  | [] => false
  | c :: cs => c.isLower && cs.length ≤ 63
      && cs.all fun c => c.isLower || c.isDigit || c == '_'

/-- A **predicate** name. -/
structure Predicate where
  /-- The name. -/
  str : String
  /-- It has the form of a predicate. -/
  valid : isPredicate str = true := by decide +kernel
  deriving DecidableEq

/-- A predicate as JSON. -/
def Predicate.dump (p : Predicate) : Value := .text p.str

@[simp] theorem Predicate.dump_inj {p q : Predicate} : p.dump = q.dump ↔ p = q := by
  refine ⟨fun h => ?_, congrArg _⟩
  cases p; cases q; cases h; rfl

/-- Whether a text is a lower-case hexadecimal SHA-256 digest. -/
def isDigest (s : String) : Bool :=
  s.toList.length == 64 && s.toList.all fun c => Digits.digits.contains c

/-- A **digest** given by a client. -/
structure Digest where
  /-- The hexadecimal text. -/
  str : String
  /-- It has the form of a digest. -/
  valid : isDigest str = true := by decide +kernel
  deriving DecidableEq

/-- A numeral of 64 hexadecimal digits has the form of a digest. -/
theorem isDigest_fixed (n : Nat) : isDigest (String.ofList (Digits.fixed 16 64 n)) = true := by
  rw [isDigest, String.toList_ofList, Digits.length_fixed, Bool.and_eq_true, List.all_eq_true]
  exact ⟨rfl, fun c hc => List.contains_iff_mem.mpr (Digits.mem_digits_of_mem_fixed (by decide) hc)⟩

/-- The digest whose hexadecimal numeral is that of a number. -/
def Digest.ofNat (n : Nat) : Digest := ⟨String.ofList (Digits.fixed 16 64 n), isDigest_fixed n⟩

/-- A digest as JSON. -/
def Digest.dump (d : Digest) : Value := .text d.str

@[simp] theorem Digest.dump_inj {d e : Digest} : d.dump = e.dump ↔ d = e := by
  refine ⟨fun h => ?_, congrArg _⟩
  cases d; cases e; cases h; rfl

/-! ## Times -/

/-- An **instant**: microseconds since 1970-01-01 UTC. -/
abbrev Time := Int

/-- Microseconds in a second. -/
def second : Time := 1000000

/-- The instants of the years 1 to 9999, which a client's `datetime` can hold. -/
def readableTime (t : Int) : Prop := -62135596800000000 ≤ t ∧ t < 253402300800000000

instance readableTimeDecidable (t : Int) : Decidable (readableTime t) :=
  inferInstanceAs (Decidable (_ ∧ _))

/-- Whether a year has a 29th of February. -/
def isLeap (year : Nat) : Bool := year % 4 = 0 && (year % 100 ≠ 0 || year % 400 = 0)

/-- The days of a month. -/
def daysInMonth (year month : Nat) : Nat :=
  if month = 2 then (if isLeap year then 29 else 28)
  else if month = 4 ∨ month = 6 ∨ month = 9 ∨ month = 11 then 30 else 31

/-- Days from 1970-01-01 to a civil date. -/
def daysFromCivil (year month day : Nat) : Int :=
  let y : Nat := if month ≤ 2 then year - 1 else year
  let m : Nat := if month ≤ 2 then month + 9 else month - 3
  (y * 365 + y / 4 - y / 100 + y / 400 + (153 * m + 2) / 5 + (day - 1) : Nat) - (719468 : Int)

/-- A datetime **with a UTC offset**, as the contract accepts it. -/
structure AwareDatetime where
  year : Nat
  month : Nat
  day : Nat
  hour : Nat
  minute : Nat
  second : Nat
  microsecond : Nat
  /-- Minutes east of UTC. -/
  offset : Int
  /-- The date exists in years 1 to 9999. -/
  date : (1 ≤ year ∧ year ≤ 9999) ∧ (1 ≤ month ∧ month ≤ 12)
    ∧ (1 ≤ day ∧ day ≤ daysInMonth year month) := by decide +kernel
  /-- The time of day exists. -/
  time : hour < 24 ∧ minute < 60 ∧ second < 60 ∧ microsecond < 1000000 := by decide +kernel
  /-- The offset is below a day. -/
  zone : -1440 < offset ∧ offset < 1440 := by decide +kernel
  deriving DecidableEq

/-- The instant that a datetime denotes. -/
def AwareDatetime.instant (d : AwareDatetime) : Time :=
  ((daysFromCivil d.year d.month d.day * 86400 + d.hour * 3600 + d.minute * 60 + d.second
      - d.offset * 60) * 1000000) + d.microsecond

/-- The characters of the fraction of a second, absent when it is zero. -/
def AwareDatetime.fraction (d : AwareDatetime) : List Char :=
  if d.microsecond = 0 then [] else '.' :: Digits.fixed 10 6 d.microsecond

/-- The sign of the offset. -/
def AwareDatetime.sign (d : AwareDatetime) : Char := if d.offset < 0 then '-' else '+'

/-- The characters of the offset, `Z` for UTC. -/
def AwareDatetime.suffix (d : AwareDatetime) : List Char :=
  if d.offset = 0 then ['Z']
  else d.sign :: (Digits.fixed 10 2 (d.offset.natAbs / 60) ++ ':' :: Digits.fixed 10 2 (d.offset.natAbs % 60))

/-- The characters of the ISO text of a datetime. -/
def AwareDatetime.chars (d : AwareDatetime) : List Char :=
  Digits.fixed 10 4 d.year ++ '-' :: (Digits.fixed 10 2 d.month ++ '-' :: (Digits.fixed 10 2 d.day
    ++ 'T' :: (Digits.fixed 10 2 d.hour ++ ':' :: (Digits.fixed 10 2 d.minute
      ++ ':' :: (Digits.fixed 10 2 d.second ++ (d.fraction ++ d.suffix))))))

/-- A datetime as JSON. -/
def AwareDatetime.dump (d : AwareDatetime) : Value := .text (String.ofList d.chars)

/-- A fraction and an offset can be told apart. -/
theorem AwareDatetime.fraction_suffix_inj {d e : AwareDatetime}
    (h : d.fraction ++ d.suffix = e.fraction ++ e.suffix) :
    d.microsecond = e.microsecond ∧ d.suffix = e.suffix := by
  have hdot : ∀ d : AwareDatetime, ∃ c l, d.suffix = c :: l ∧ c ≠ '.' := by
    intro d
    unfold suffix sign
    repeat' split
    all_goals exact ⟨_, _, rfl, by decide⟩
  have hd := d.time
  have he := e.time
  unfold fraction at h
  split at h <;> split at h
  next hzero hzero' => exact ⟨by omega, h⟩
  next hzero hzero' =>
    obtain ⟨c, l, hc, hne⟩ := hdot d
    rw [hc] at h
    exact absurd (List.head_eq_of_cons_eq h) hne
  next hzero hzero' =>
    obtain ⟨c, l, hc, hne⟩ := hdot e
    rw [hc] at h
    exact absurd (List.head_eq_of_cons_eq h).symm hne
  next hzero hzero' =>
    exact Digits.fixed_append_inj (by decide) (by decide) (by omega) (by omega)
      (List.tail_eq_of_cons_eq h)

/-- The text of an offset determines it. -/
theorem AwareDatetime.suffix_inj {d e : AwareDatetime} (h : d.suffix = e.suffix) :
    d.offset = e.offset := by
  have hd := d.zone
  have he := e.zone
  have hsign : ∀ d : AwareDatetime, d.sign ≠ 'Z' := by
    intro d
    unfold sign
    split <;> decide
  unfold suffix at h
  split at h <;> split at h
  next hzero hzero' => rw [hzero, hzero']
  next hzero hzero' => exact absurd (List.head_eq_of_cons_eq h).symm (hsign e)
  next hzero hzero' => exact absurd (List.head_eq_of_cons_eq h) (hsign d)
  next hzero hzero' =>
    have hhours : d.offset.natAbs / 60 < 10 ^ 2 ∧ e.offset.natAbs / 60 < 10 ^ 2 := by omega
    have hminutes : d.offset.natAbs % 60 < 10 ^ 2 ∧ e.offset.natAbs % 60 < 10 ^ 2 := by omega
    obtain ⟨hhour, hrest⟩ := Digits.fixed_append_inj (by decide) (by decide) hhours.1 hhours.2
      (List.tail_eq_of_cons_eq h)
    have hminute : d.offset.natAbs % 60 = e.offset.natAbs % 60 :=
      (Digits.fixed_append_inj (r := []) (s := []) (by decide) (by decide) hminutes.1 hminutes.2
        (by rw [List.append_nil, List.append_nil]; exact List.tail_eq_of_cons_eq hrest)).1
    have hchar : d.sign = e.sign := List.head_eq_of_cons_eq h
    unfold sign at hchar
    split at hchar <;> split at hchar
    next hneg hneg' => omega
    next hneg hneg' => exact absurd hchar (by decide)
    next hneg hneg' => exact absurd hchar (by decide)
    next hneg hneg' => omega

/-- **The ISO text determines the datetime.** -/
theorem AwareDatetime.dump_inj {d e : AwareDatetime} : d.dump = e.dump ↔ d = e := by
  refine ⟨fun h => ?_, congrArg _⟩
  have hchars : d.chars = e.chars := String.ofList_injective (Value.text.inj h)
  obtain ⟨⟨hy, hy'⟩, ⟨hm, hm'⟩, hday, hday'⟩ := d.date
  obtain ⟨⟨ey, ey'⟩, ⟨em, em'⟩, eday, eday'⟩ := e.date
  have hmonth : ∀ y m, daysInMonth y m ≤ 31 := by
    intro y m
    unfold daysInMonth
    repeat' split
    all_goals decide
  have hd31 := hmonth d.year d.month
  have he31 := hmonth e.year e.month
  have hdt := d.time
  have het := e.time
  obtain ⟨h1, hrest⟩ := Digits.fixed_append_inj (by decide) (by decide) (by omega) (by omega) hchars
  obtain ⟨h2, hrest⟩ := Digits.fixed_append_inj (by decide) (by decide) (by omega) (by omega)
    (List.tail_eq_of_cons_eq hrest)
  obtain ⟨h3, hrest⟩ := Digits.fixed_append_inj (by decide) (by decide) (by omega) (by omega)
    (List.tail_eq_of_cons_eq hrest)
  obtain ⟨h4, hrest⟩ := Digits.fixed_append_inj (by decide) (by decide) (by omega) (by omega)
    (List.tail_eq_of_cons_eq hrest)
  obtain ⟨h5, hrest⟩ := Digits.fixed_append_inj (by decide) (by decide) (by omega) (by omega)
    (List.tail_eq_of_cons_eq hrest)
  obtain ⟨h6, hrest⟩ := Digits.fixed_append_inj (by decide) (by decide) (by omega) (by omega)
    (List.tail_eq_of_cons_eq hrest)
  obtain ⟨h7, hrest⟩ := fraction_suffix_inj hrest
  have h8 := suffix_inj hrest
  cases d; cases e
  simp only at h1 h2 h3 h4 h5 h6 h7 h8
  subst h1 h2 h3 h4 h5 h6 h7 h8
  rfl

example : (AwareDatetime.mk 2024 2 29 1 2 3 0 (-90)).dump = .text "2024-02-29T01:02:03-01:30" := by
  decide +kernel

example : (AwareDatetime.mk 1970 1 2 0 0 0 5 60).instant = 82800000005 := by decide +kernel

end PgAgmemory

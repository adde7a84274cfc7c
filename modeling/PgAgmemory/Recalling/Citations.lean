import PgAgmemory.Library.Calendar
import PgAgmemory.Recalling.Packing

/-! # Citations

The line of an item in a context cites it (`MemoryItem.citation`). The line can be read back whatever the
content is: identifiers and times have a fixed form, the content is a JSON string whose closing quote
cannot be forged, and no part of a line has a line feed, so the lines of a context can be told apart. -/

namespace PgAgmemory

/-! ## Times -/

section Civil

variable (days : Int)

/-- The day of its era. -/
def dayOfEra : Int := (days + 719468) % 146097

/-- The day of its year, from March on. -/
def dayOfYear : Int := dayOfEra days - Calendar.startOfYear (Calendar.yearOfEra (dayOfEra days))

/-- The month of a day, from March on. -/
def monthIndex : Int := (5 * dayOfYear days + 2) / 153

/-- The civil date, written by the parts above. -/
theorem civilFromDays_eq : civilFromDays days =
    (Calendar.yearOfEra (dayOfEra days) + (days + 719468) / 146097 * 400
        + (if (if monthIndex days < 10 then monthIndex days + 3 else monthIndex days - 9) ≤ 2
            then 1 else 0),
      if monthIndex days < 10 then monthIndex days + 3 else monthIndex days - 9,
      dayOfYear days - (153 * monthIndex days + 2) / 5 + 1) := rfl

theorem dayOfYear_spec : (0 ≤ Calendar.yearOfEra (dayOfEra days)
      ∧ Calendar.yearOfEra (dayOfEra days) < 400) ∧ 0 ≤ dayOfYear days ∧ dayOfYear days ≤ 365 :=
  Calendar.yearOfEra_spec (Int.emod_nonneg _ (by decide)) (Int.emod_lt_of_pos _ (by decide))

end Civil

/-- **The civil date determines the day.** -/
theorem civilFromDays_injective {a b : Int} (h : civilFromDays a = civilFromDays b) : a = b := by
  obtain ⟨hyear, hmonth, hday⟩ : _ ∧ _ ∧ _ := by
    simpa only [civilFromDays_eq, Prod.mk.injEq] using h
  obtain ⟨hyears, hdays⟩ := dayOfYear_spec a
  obtain ⟨hyears', hdays'⟩ := dayOfYear_spec b
  have hindex : monthIndex a = monthIndex b := by
    unfold monthIndex at hmonth ⊢
    split at hmonth <;> split at hmonth <;> omega
  have hoy : dayOfYear a = dayOfYear b := by
    apply Calendar.month_day_inj hindex
    unfold monthIndex at hday
    omega
  rw [hindex] at hyear
  have hera : (a + 719468) / 146097 = (b + 719468) / 146097 := by omega
  have hyoe : Calendar.yearOfEra (dayOfEra a) = Calendar.yearOfEra (dayOfEra b) := by omega
  have hdoe : dayOfEra a = dayOfEra b := by
    rw [dayOfYear, dayOfYear, hyoe] at hoy
    omega
  unfold dayOfEra at hdoe
  omega

/-- The civil date of a readable time has four digits for the year and two for month and day. -/
theorem civilFromDays_range (days : Int) (h : -719162 ≤ days ∧ days ≤ 2932896) :
    (0 ≤ (civilFromDays days).1 ∧ (civilFromDays days).1 < 10000)
      ∧ (0 ≤ (civilFromDays days).2.1 ∧ (civilFromDays days).2.1 < 100)
      ∧ 0 ≤ (civilFromDays days).2.2 ∧ (civilFromDays days).2.2 < 100 := by
  obtain ⟨hyears, hdays⟩ := dayOfYear_spec days
  have hindex : monthIndex days = (5 * dayOfYear days + 2) / 153 := rfl
  have hyear : dayOfEra days
      = dayOfYear days + Calendar.startOfYear (Calendar.yearOfEra (dayOfEra days)) := by
    rw [dayOfYear]
    omega
  have hdoe : dayOfEra days = (days + 719468) % 146097 := rfl
  rw [civilFromDays_eq]
  generalize Calendar.yearOfEra (dayOfEra days) = yoe at *
  unfold Calendar.startOfYear at hyear
  refine ⟨⟨?_, ?_⟩, ⟨?_, ?_⟩, ?_, ?_⟩
  · dsimp only
    split <;> split at * <;> omega
  · dsimp only
    split <;> split at * <;> omega
  · dsimp only
    split <;> omega
  · dsimp only
    split <;> omega
  · dsimp only
    omega
  · dsimp only
    omega

/-- The time of day of an instant, in microseconds. -/
def microsOfDay (t : Time) : Int := t % 86400000000

/-- The characters of the fraction of a second of a time, absent when it is zero. -/
def isoFraction (t : Time) : List Char :=
  if microsOfDay t % 1000000 = 0 then []
  else '.' :: Digits.fixed 10 6 (microsOfDay t % 1000000).toNat

/-- The characters of `isoformat`. -/
def isoChars (t : Time) : List Char :=
  Digits.fixed 10 4 (civilFromDays (t / 86400000000)).1.toNat ++ '-'
    :: (Digits.fixed 10 2 (civilFromDays (t / 86400000000)).2.1.toNat ++ '-'
      :: (Digits.fixed 10 2 (civilFromDays (t / 86400000000)).2.2.toNat ++ 'T'
        :: (Digits.fixed 10 2 (microsOfDay t / 3600000000).toNat ++ ':'
          :: (Digits.fixed 10 2 (microsOfDay t / 60000000 % 60).toNat ++ ':'
            :: (Digits.fixed 10 2 (microsOfDay t / 1000000 % 60).toNat
              ++ (isoFraction t ++ "+00:00".toList))))))

theorem isoformat_toList (t : Time) : (isoformat t).toList = isoChars t := by
  have hfraction : (if t % 86400000000 % 1000000 = 0 then "" else "." ++ String.ofList
      (Digits.fixed 10 6 (t % 86400000000 % 1000000).toNat)).toList = isoFraction t := by
    rw [isoFraction, microsOfDay]
    split
    · rfl
    · simp only [String.toList_append, String.toList_ofList]
      rfl
  simp only [isoformat, String.toList_append, String.toList_ofList, hfraction, isoChars, microsOfDay,
    List.append_assoc]
  rfl

/-- Fractions of a second can be told apart in front of a zone. -/
theorem isoFraction_append_inj {t u : Time} {r s : List Char}
    (h : isoFraction t ++ ("+00:00".toList ++ r) = isoFraction u ++ ("+00:00".toList ++ s)) :
    microsOfDay t % 1000000 = microsOfDay u % 1000000 ∧ r = s := by
  unfold isoFraction at h
  split at h <;> split at h
  next hzero hzero' => exact ⟨hzero.trans hzero'.symm, List.append_cancel_left h⟩
  next hzero hzero' => exact absurd (List.head_eq_of_cons_eq h) (by decide)
  next hzero hzero' => exact absurd (List.head_eq_of_cons_eq h) (by decide)
  next hzero hzero' =>
    obtain ⟨hmicros, hrest⟩ := Digits.fixed_append_inj (by decide) (by decide)
      (by omega)
      (by omega)
      (List.tail_eq_of_cons_eq h)
    exact ⟨by omega, List.append_cancel_left hrest⟩

/-- The parts of the time of day determine it. -/
theorem microsOfDay_inj {a b : Int} (ha : 0 ≤ a) (hb : 0 ≤ b)
    (hhour : (a / 3600000000).toNat = (b / 3600000000).toNat)
    (hminute : (a / 60000000 % 60).toNat = (b / 60000000 % 60).toNat)
    (hsecond : (a / 1000000 % 60).toNat = (b / 1000000 % 60).toNat)
    (hmicro : a % 1000000 = b % 1000000) : a = b := by
  have hsixty : ∀ m : Int, m / 60000000 = m / 1000000 / 60 := by omega
  have hmany : ∀ m : Int, m / 3600000000 = m / 1000000 / 60 / 60 := by omega
  rw [hmany, hmany] at hhour
  rw [hsixty, hsixty] at hminute
  have hseconds : a / 1000000 = b / 1000000 := by
    have hpos : 0 ≤ a / 1000000 := Int.ediv_nonneg ha (by decide)
    have hpos' : 0 ≤ b / 1000000 := Int.ediv_nonneg hb (by decide)
    omega
  omega

/-- **A readable time can be read off** the front of a text. -/
theorem isoChars_append_inj {t u : Time} (ht : readableTime t) (hu : readableTime u)
    {r s : List Char} (h : isoChars t ++ r = isoChars u ++ s) : t = u ∧ r = s := by
  unfold readableTime at ht hu
  obtain ⟨hy, hm, hd⟩ := civilFromDays_range (t / 86400000000) (by omega)
  obtain ⟨hy', hm', hd'⟩ := civilFromDays_range (u / 86400000000) (by omega)
  have htime : 0 ≤ microsOfDay t ∧ microsOfDay t < 86400000000 := by
    unfold microsOfDay
    omega
  have htime' : 0 ≤ microsOfDay u ∧ microsOfDay u < 86400000000 := by
    unfold microsOfDay
    omega
  simp only [isoChars, List.append_assoc, List.cons_append] at h
  obtain ⟨h1, hrest⟩ := Digits.fixed_append_inj (by decide) (by decide) (by omega) (by omega) h
  obtain ⟨h2, hrest⟩ := Digits.fixed_append_inj (by decide) (by decide) (by omega) (by omega)
    (List.tail_eq_of_cons_eq hrest)
  obtain ⟨h3, hrest⟩ := Digits.fixed_append_inj (by decide) (by decide) (by omega) (by omega)
    (List.tail_eq_of_cons_eq hrest)
  obtain ⟨h4, hrest⟩ := Digits.fixed_append_inj (by decide) (by decide) (by omega) (by omega)
    (List.tail_eq_of_cons_eq hrest)
  obtain ⟨h5, hrest⟩ := Digits.fixed_append_inj (by decide) (by decide) (by omega) (by omega)
    (List.tail_eq_of_cons_eq hrest)
  obtain ⟨h6, hrest⟩ := Digits.fixed_append_inj (by decide) (by decide) (by omega) (by omega)
    (List.tail_eq_of_cons_eq hrest)
  obtain ⟨h7, hrest⟩ := isoFraction_append_inj hrest
  have hdays : t / 86400000000 = u / 86400000000 := by
    apply civilFromDays_injective
    exact Prod.ext (by omega) (Prod.ext (by omega) (by omega))
  have hmicros : microsOfDay t = microsOfDay u := microsOfDay_inj htime.1 htime'.1 h4 h5 h6 h7
  refine ⟨?_, hrest⟩
  rw [← Int.mul_ediv_add_emod t 86400000000, ← Int.mul_ediv_add_emod u 86400000000, hdays]
  exact congrArg _ hmicros

/-! ## Citations -/

/-- **What a line cites** of an item. -/
structure Citation where
  memoryId : UUID
  revision : Nat
  recordedAt : Time
  content : String
  source : List UUID
  relation : Option RelationEndpoints
  deriving DecidableEq

/-- The citation of an item. -/
def MemoryItem.citation (item : MemoryItem) : Citation :=
  ⟨item.memoryId, item.revision, item.recordedAt, item.content, item.source, item.relation⟩

/-- The characters of a UUID. -/
def uuidChars (u : UUID) : List Char := (UUID.str u).toList

/-- The characters of the sources of an item. -/
def sourceChars (ids : List UUID) : List Char := [','].intercalate (ids.map uuidChars)

/-- The characters of the entities of an item. -/
def entityChars (relation : Option RelationEndpoints) : List Char :=
  relation.elim [] fun ends => " entities=".toList ++ (uuidChars ends.sourceEntity
    ++ ("->".toList ++ uuidChars ends.targetEntity))

theorem entityChars_none : entityChars none = [] := rfl

theorem entityChars_some (ends : RelationEndpoints) : entityChars (some ends)
    = " entities=".toList ++ (uuidChars ends.sourceEntity
      ++ ("->".toList ++ uuidChars ends.targetEntity)) := rfl

/-- The characters of the line that cites an item, without the line feed in front. -/
def Citation.chars (c : Citation) : List Char :=
  '[' :: (uuidChars c.memoryId ++ ("@".toList ++ (Nat.toDigits 10 c.revision
    ++ ("; reported; recorded=".toList ++ (isoChars c.recordedAt
      ++ ("; refresh_required] ".toList ++ (Json.quote :: (Json.quoted false c.content.toList
        ++ (" sources=".toList ++ (sourceChars c.source ++ entityChars c.relation))))))))))

/-- **The line of an item is a line feed and its citation.** -/
theorem MemoryItem.line_toList (item : MemoryItem) : item.line.toList = '\n' :: item.citation.chars := by
  have hrevision : (toString item.revision).toList = Nat.toDigits 10 item.revision := by
    rw [Nat.toString_eq_repr, Nat.repr_eq_ofList_toDigits, String.toList_ofList]
  have hcontent : (spacedText false (.text item.content)).toList
      = Json.quote :: Json.quoted false item.content.toList := by
    rw [spacedText, Json.dumps, String.toList_ofList, Json.Value.chars]
  have hends : (item.relation.elim "" fun ends => " entities=" ++ UUID.str ends.sourceEntity ++ "->"
      ++ UUID.str ends.targetEntity).toList = entityChars item.relation := by
    rcases item.relation with _ | ends
    · rw [entityChars_none, Option.elim_none, String.toList_empty]
    · rw [entityChars_some, Option.elim_some]
      simp only [String.toList_append, List.append_assoc, uuidChars]
  have hsource : (String.intercalate "," (item.source.map UUID.str)).toList
      = sourceChars item.source := by
    have hcomma : ",".toList = [','] := rfl
    rw [String.toList_intercalate, List.map_map, hcomma, sourceChars]
    rfl
  have hopen : "\n[".toList = ['\n', '['] := rfl
  simp only [MemoryItem.line, String.toList_append, hopen, hrevision, isoformat_toList, hcontent,
    hsource, hends, List.append_assoc, List.cons_append, List.nil_append, Citation.chars,
    MemoryItem.citation, uuidChars]

/-! ## One line each -/

/-- A digit is no control character. -/
theorem control_not_mem_toDigits {n : Nat} {c : Char} (h : c ∈ Nat.toDigits 10 n) :
    0x20 ≤ c.toNat := by
  have hdigit : c.isDigit = true := Nat.isDigit_of_mem_toDigits (by decide) (by decide) h
  obtain ⟨hlow, -⟩ : 48 ≤ c.toNat ∧ c.toNat ≤ 57 := by
    simpa [Char.isDigit, UInt32.le_iff_toNat_le] using hdigit
  exact Nat.le_trans (by decide) hlow

/-- A UUID is made of digits and dashes. -/
theorem mem_uuidChars {u : UUID} {c : Char} (h : c ∈ uuidChars u) :
    c ∈ Digits.digits ∨ c = '-' := by
  have hfixed : ∀ {width n : Nat}, c ∈ Digits.fixed 16 width n → c ∈ Digits.digits :=
    fun hc => Digits.mem_digits_of_mem_fixed (by decide) hc
  rw [uuidChars, UUID.str, String.toList_ofList, groupChars] at h
  simp only [List.mem_append, List.mem_cons, List.not_mem_nil, or_false] at h
  rcases h with h | h | h | h | h | h | h | h | h
  all_goals first
    | exact Or.inl (hfixed h)
    | exact Or.inr h

theorem sourceChars_cons_cons (u v : UUID) (ids : List UUID) :
    sourceChars (u :: v :: ids) = uuidChars u ++ ',' :: sourceChars (v :: ids) := by
  rw [sourceChars, List.map_cons, List.map_cons, List.intercalate_cons_cons, ← List.map_cons,
    List.append_assoc, List.singleton_append]
  rfl

theorem sourceChars_singleton (u : UUID) : sourceChars [u] = uuidChars u := List.intercalate_singleton

/-- Sources are written as UUIDs with commas between them. -/
theorem mem_sourceChars {ids : List UUID} {c : Char} (h : c ∈ sourceChars ids) :
    c = ',' ∨ ∃ u, c ∈ uuidChars u := by
  induction ids with
  | nil => exact absurd h List.not_mem_nil
  | cons u ids ih =>
    cases ids with
    | nil => exact Or.inr ⟨u, by rwa [sourceChars_singleton] at h⟩
    | cons v ids =>
      rw [sourceChars_cons_cons] at h
      rcases List.mem_append.mp h with h | h
      · exact Or.inr ⟨u, h⟩
      · rcases List.mem_cons.mp h with h | h
        · exact Or.inl h
        · exact ih h

/-- **A citation has no line feed**, whatever its content is. -/
theorem newline_not_mem_chars (c : Citation) : '\n' ∉ c.chars := by
  have hlow : ¬0x20 ≤ '\n'.toNat := by decide
  have huuid : ∀ u : UUID, '\n' ∉ uuidChars u := by
    intro u h
    rcases mem_uuidChars h with h | h
    · exact hlow (Json.control_not_mem_digits _ h)
    · exact absurd h (by decide)
  have hfixed : ∀ width n : Nat, '\n' ∉ Digits.fixed 10 width n := fun width n h =>
    hlow (Json.control_not_mem_digits _ (Digits.mem_digits_of_mem_fixed (by decide) h))
  have hdigits : '\n' ∉ Nat.toDigits 10 c.revision := fun h => hlow (control_not_mem_toDigits h)
  have hquoted : '\n' ∉ Json.quoted false c.content.toList := fun h =>
    hlow (Json.control_not_mem_quoted h)
  have hfraction : '\n' ∉ isoFraction c.recordedAt := by
    unfold isoFraction
    split
    · exact List.not_mem_nil
    · exact List.not_mem_cons_of_ne_of_not_mem (by decide) (hfixed _ _)
  have hsource : '\n' ∉ sourceChars c.source := by
    intro h
    rcases mem_sourceChars h with h | ⟨u, h⟩
    · exact absurd h (by decide)
    · exact huuid u h
  have hends : '\n' ∉ entityChars c.relation := by
    rcases c.relation with _ | ends
    · exact List.not_mem_nil
    · simp only [entityChars_some, List.mem_append, huuid, or_false, false_or]
      decide
  simp only [Citation.chars, isoChars, List.mem_cons, List.mem_append, huuid, hfixed, hdigits, hquoted,
    hfraction, hsource, hends, or_false, false_or]
  decide

/-! ## Reading a citation back -/

theorem length_uuidChars (u : UUID) : (uuidChars u).length = 36 := by
  simp only [uuidChars, UUID.str, String.toList_ofList, groupChars, List.length_append,
    List.length_cons, Digits.length_fixed, List.length_nil]

/-- A UUID can be read off the front of a text. -/
theorem uuidChars_append_inj {u v : UUID} {r s : List Char}
    (h : uuidChars u ++ r = uuidChars v ++ s) : u = v ∧ r = s := by
  obtain ⟨huuid, hrest⟩ := List.append_inj h (by rw [length_uuidChars, length_uuidChars])
  exact ⟨UUID.str_injective (String.toList_injective huuid), hrest⟩

/-- A UUID begins with a digit or a dash. -/
theorem uuidChars_cons (u : UUID) : ∃ c l, uuidChars u = c :: l ∧ c ≠ ' ' := by
  have hlength := length_uuidChars u
  cases huuid : uuidChars u with
  | nil =>
    rw [huuid] at hlength
    exact absurd hlength (by decide)
  | cons c l =>
    refine ⟨c, l, rfl, ?_⟩
    rintro rfl
    have hmem : ' ' ∈ uuidChars u := by
      rw [huuid]
      exact List.mem_cons_self
    rcases mem_uuidChars hmem with h | h
    · exact absurd h (by decide)
    · exact absurd h (by decide)

/-- A text that ends the sources of a line: nothing, or something after a blank. -/
def EndsSources (r : List Char) : Prop := ∀ c ∈ r.head?, c = ' '

theorem endsSources_entityChars (relation : Option RelationEndpoints) :
    EndsSources (entityChars relation) := by
  rcases relation with _ | ends
  · intro c hc
    exact absurd hc (by rw [entityChars_none]; exact Option.not_mem_none c)
  · intro c hc
    rw [entityChars_some] at hc
    exact (Option.some.inj hc).symm

/-- The sources of a line can be read off. -/
theorem sourceChars_append_inj {us vs : List UUID} {r s : List Char} (hr : EndsSources r)
    (hs : EndsSources s) (h : sourceChars us ++ r = sourceChars vs ++ s) : us = vs ∧ r = s := by
  have hblank : ∀ {t t' : List Char} {u : UUID}, EndsSources t → t ≠ uuidChars u ++ t' := by
    intro t t' u ht heq
    obtain ⟨c, l, huuid, hne⟩ := uuidChars_cons u
    rw [huuid] at heq
    exact hne (ht c (by rw [heq]; rfl))
  have hcomma : ∀ {t t' : List Char}, EndsSources t → t ≠ ',' :: t' := by
    intro t t' ht heq
    exact absurd (ht ',' (by rw [heq]; rfl)) (by decide)
  induction us generalizing vs with
  | nil =>
    rcases vs with _ | ⟨v, _ | ⟨w, vs⟩⟩
    · exact ⟨rfl, h⟩
    · rw [sourceChars_singleton] at h
      exact absurd h (hblank hr)
    · rw [sourceChars_cons_cons, List.append_assoc] at h
      exact absurd h (hblank hr)
  | cons u us ih =>
    rcases us with _ | ⟨x, us⟩ <;> rcases vs with _ | ⟨v, _ | ⟨w, vs⟩⟩
    · rw [sourceChars_singleton] at h
      exact absurd h.symm (hblank hs)
    · rw [sourceChars_singleton, sourceChars_singleton] at h
      obtain ⟨rfl, hrest⟩ := uuidChars_append_inj h
      exact ⟨rfl, hrest⟩
    · rw [sourceChars_singleton, sourceChars_cons_cons, List.append_assoc] at h
      exact absurd (uuidChars_append_inj h).2 (hcomma hr)
    · rw [sourceChars_cons_cons, List.append_assoc] at h
      exact absurd h.symm (hblank hs)
    · rw [sourceChars_singleton, sourceChars_cons_cons, List.append_assoc] at h
      exact absurd (uuidChars_append_inj h).2.symm (hcomma hs)
    · rw [sourceChars_cons_cons, sourceChars_cons_cons, List.append_assoc, List.append_assoc] at h
      obtain ⟨rfl, hrest⟩ := uuidChars_append_inj h
      obtain ⟨heq, hend⟩ := ih (List.tail_eq_of_cons_eq hrest)
      exact ⟨congrArg (List.cons u) heq, hend⟩

/-- The entities of a line can be read off its end. -/
theorem entityChars_injective {x y : Option RelationEndpoints} (h : entityChars x = entityChars y) :
    x = y := by
  have hempty : ∀ ends : RelationEndpoints, entityChars (some ends) ≠ [] := by
    intro ends
    rw [entityChars_some]
    exact List.cons_ne_nil _ _
  rcases x with _ | a <;> rcases y with _ | b
  · rfl
  · exact absurd h.symm (hempty b)
  · exact absurd h (hempty a)
  · rw [entityChars_some, entityChars_some] at h
    obtain ⟨hsource, hrest⟩ := uuidChars_append_inj (List.append_cancel_left h)
    have htarget : a.targetEntity = b.targetEntity := by
      apply And.left (uuidChars_append_inj (r := []) (s := []) _)
      rw [List.append_nil, List.append_nil]
      exact List.append_cancel_left hrest
    cases a; cases b
    cases hsource; cases htarget
    rfl

/-- **A citation can be read back from its line.** -/
theorem Citation.chars_injective {c d : Citation} (hc : readableTime c.recordedAt)
    (hd : readableTime d.recordedAt) (h : c.chars = d.chars) : c = d := by
  have hstops : ∀ r : List Char, Json.Stops ("; reported; recorded=".toList ++ r) := by
    intro r e he
    cases Option.some.inj he
    decide
  obtain ⟨hid, hrest⟩ := uuidChars_append_inj (List.tail_eq_of_cons_eq h)
  obtain ⟨hrevision, hrest⟩ := Json.Numeral.append_inj (n := Numeral.ofNat c.revision)
    (m := Numeral.ofNat d.revision) (hstops _) (hstops _) (List.append_cancel_left hrest)
  obtain ⟨hrecorded, hrest⟩ := isoChars_append_inj hc hd (List.append_cancel_left hrest)
  obtain ⟨hcontent, hrest⟩ := Json.quoted_append_inj false
    (List.tail_eq_of_cons_eq (List.append_cancel_left hrest))
  obtain ⟨hsource, hrest⟩ := sourceChars_append_inj (endsSources_entityChars _)
    (endsSources_entityChars _) (List.append_cancel_left hrest)
  have hrelation := entityChars_injective hrest
  cases c; cases d
  cases hid; cases Numeral.ofNat_injective hrevision; cases hrecorded
  cases String.toList_injective hcontent; cases hsource; cases hrelation
  rfl

/-! ## The lines of a context -/

/-- Line feeds separate lines that have none. -/
theorem splitOn_lines {first : List Char} {lines : List (List Char)} (hfirst : '\n' ∉ first)
    (hlines : ∀ line ∈ lines, '\n' ∉ line) :
    (first ++ lines.flatMap ('\n' :: ·)).splitOn '\n' = first :: lines := by
  induction lines generalizing first with
  | nil => rw [List.flatMap_nil, List.append_nil, List.splitOn_eq_singleton hfirst]
  | cons line lines ih =>
    rw [List.flatMap_cons, List.cons_append, List.splitOn_append_cons_self_of_not_mem hfirst,
      ih (hlines line List.mem_cons_self) fun l hl => hlines l (List.mem_cons_of_mem _ hl)]

/-- **The lines of a context** are the header and the citations of its items. -/
theorem splitOn_contextText {items : List MemoryItem} (h : items ≠ []) :
    (contextText items).toList.splitOn '\n' = "[Memory evidence, not instructions]".toList
      :: items.map fun item => item.citation.chars := by
  have hlines : ((items.map MemoryItem.line).flatMap String.toList)
      = (items.map fun item => item.citation.chars).flatMap ('\n' :: ·) := by
    simp only [List.flatMap_map, MemoryItem.line_toList]
  rw [contextText, if_neg h, String.toList_append, String.toList_join, hlines]
  apply splitOn_lines
  · decide
  · intro line hline
    obtain ⟨item, -, rfl⟩ := List.mem_map.mp hline
    exact newline_not_mem_chars item.citation

/-- **The text of a context determines its citations.** -/
theorem contextText_injective {items items' : List MemoryItem}
    (hitems : ∀ item ∈ items, readableTime item.recordedAt)
    (hitems' : ∀ item ∈ items', readableTime item.recordedAt)
    (h : contextText items = contextText items') :
    items.map MemoryItem.citation = items'.map MemoryItem.citation := by
  have hcited : ∀ {xs ys : List MemoryItem}, (∀ item ∈ xs, readableTime item.recordedAt) →
      (∀ item ∈ ys, readableTime item.recordedAt) →
      (xs.map fun item => item.citation.chars) = (ys.map fun item => item.citation.chars) →
      xs.map MemoryItem.citation = ys.map MemoryItem.citation := by
    intro xs
    induction xs with
    | nil =>
      intro ys _ _ heq
      rw [List.map_eq_nil_iff.mp heq.symm]
    | cons x xs ih =>
      intro ys hx hy heq
      cases ys with
      | nil => exact absurd heq (List.cons_ne_nil _ _)
      | cons y ys =>
        obtain ⟨hhead, htail⟩ := List.cons.inj heq
        rw [List.map_cons, List.map_cons,
          Citation.chars_injective (hx x List.mem_cons_self) (hy y List.mem_cons_self) hhead,
          ih (fun item hitem => hx item (List.mem_cons_of_mem x hitem))
            (fun item hitem => hy item (List.mem_cons_of_mem y hitem)) htail]
  have hempty : ∀ {xs : List MemoryItem}, contextText xs = "" → xs = [] := by
    intro xs hxs
    by_contra hne
    rw [contextText, if_neg hne] at hxs
    exact absurd (String.append_eq_empty_iff.mp hxs).1 (by decide)
  by_cases hnil : items = []
  · subst hnil
    rw [hempty h.symm]
  · have hnil' : items' ≠ [] := by
      rintro rfl
      exact hnil (hempty h)
    have hsplit := congrArg (fun text : String => text.toList.splitOn '\n') h
    simp only [splitOn_contextText hnil, splitOn_contextText hnil'] at hsplit
    exact hcited hitems hitems' (List.cons.inj hsplit).2

end PgAgmemory

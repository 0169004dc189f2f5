import Chen.Library.FixedWidth
import Chen.Python.Bytes

/-!
# `datetime`

Instants in UTC and their `isoformat`, which leaves out the fraction of a whole second. The order of
the texts, byte for byte, is that of the instants.
-/

namespace Chen

namespace Calendar

/-- `_is_leap`. -/
def isLeap (year : ℕ) : Bool := year % 4 = 0 && (year % 100 ≠ 0 || year % 400 = 0)

/-- `_DAYS_IN_MONTH`, with the day of a leap year. -/
def daysInMonth (leap : Bool) (month : ℕ) : ℕ :=
  if month = 2 && leap then 29
  else [0, 31, 28, 31, 30, 31, 30, 31, 31, 30, 31, 30, 31].getD month 0

/-- `_days_before_month`. -/
def daysBeforeMonth (leap : Bool) (month : ℕ) : ℕ :=
  [0, 0, 31, 59, 90, 120, 151, 181, 212, 243, 273, 304, 334].getD month 0 +
    if 2 < month && leap then 1 else 0

/-- `_days_before_year`. -/
def daysBeforeYear (year : ℕ) : ℕ :=
  let y := year - 1
  y * 365 + y / 4 - y / 100 + y / 400

/-- `_ymd2ord`. -/
def ordinal (year month day : ℕ) : ℕ :=
  daysBeforeYear year + daysBeforeMonth (isLeap year) month + day

end Calendar

/-- A `datetime` in UTC. -/
structure DateTime where
  year : ℕ
  month : ℕ
  day : ℕ
  hour : ℕ
  minute : ℕ
  second : ℕ
  microsecond : ℕ
  year_mem : 1 ≤ year ∧ year ≤ 9999 := by decide
  month_mem : 1 ≤ month ∧ month ≤ 12 := by decide
  day_mem : 1 ≤ day ∧ day ≤ Calendar.daysInMonth (Calendar.isLeap year) month := by decide
  hour_lt : hour < 24 := by decide
  minute_lt : minute < 60 := by decide
  second_lt : second < 60 := by decide
  microsecond_lt : microsecond < 1000000 := by decide

namespace DateTime

open FixedWidth

/-- The microseconds since the beginning of the calendar. -/
def instant (t : DateTime) : ℕ :=
  (((Calendar.ordinal t.year t.month t.day * 24 + t.hour) * 60 + t.minute) * 60 + t.second) *
    1000000 + t.microsecond

/-- The end of a text: the fraction, if there is one, and the offset. -/
def fraction (microsecond : ℕ) : List Char :=
  (if microsecond = 0 then [] else '.' :: decimal 6 microsecond) ++ "+00:00".toList

/-- `isoformat()`. -/
def isoformat (t : DateTime) : String :=
  String.ofList (decimal 4 t.year ++ '-' :: (decimal 2 t.month ++ '-' :: (decimal 2 t.day ++
    'T' :: (decimal 2 t.hour ++ ':' :: (decimal 2 t.minute ++ ':' :: (decimal 2 t.second ++
      fraction t.microsecond))))))

end DateTime

/-! ## The calendar -/

namespace Calendar

open FixedWidth (lt_iff_of_separated)

/-- The days before a year and the days of the year are the days before the next. -/
theorem daysBeforeYear_succ {year : ℕ} (h : 1 ≤ year) :
    daysBeforeYear (year + 1) = daysBeforeYear year + (if isLeap year then 366 else 365) := by
  obtain ⟨y, rfl⟩ : ∃ y, year = y + 1 := ⟨year - 1, by omega⟩
  have hle : y / 100 ≤ y / 4 := Nat.div_le_div_left (by decide) (by decide)
  have hleap : isLeap (y + 1) = true ↔ 4 ∣ y + 1 ∧ (¬ 100 ∣ y + 1 ∨ 400 ∣ y + 1) := by
    simp [isLeap, Nat.dvd_iff_mod_eq_zero]
  have hfour (h : 100 ∣ y + 1) : 4 ∣ y + 1 := dvd_trans (by decide) h
  have hhundred (h : 400 ∣ y + 1) : 100 ∣ y + 1 := dvd_trans (by decide) h
  rw [daysBeforeYear, daysBeforeYear, Nat.add_sub_cancel, Nat.add_sub_cancel, Nat.succ_div,
    Nat.succ_div, Nat.succ_div]
  simp only [hleap]
  generalize y / 4 = a, y / 100 = b, y / 400 = c at hle ⊢
  by_cases h4 : 4 ∣ y + 1
  · by_cases h100 : 100 ∣ y + 1
    · by_cases h400 : 400 ∣ y + 1 <;> simp only [h4, h100, h400] <;> simp <;> omega
    · have h400 : ¬ 400 ∣ y + 1 := mt hhundred h100
      simp only [h4, h100, h400]
      simp
      omega
  · have h100 : ¬ 100 ∣ y + 1 := mt hfour h4
    have h400 : ¬ 400 ∣ y + 1 := mt hhundred h100
    simp only [h4, h100, h400]
    simp
    omega

/-- A later year has at least as many days before it. -/
theorem daysBeforeYear_mono {year year' : ℕ} (hpos : 1 ≤ year) (h : year ≤ year') :
    daysBeforeYear year ≤ daysBeforeYear year' := by
  induction year', h using Nat.le_induction with
  | base => exact le_rfl
  | succ year' h ih =>
    rw [daysBeforeYear_succ (hpos.trans h)]
    exact ih.trans (Nat.le_add_right ..)

/-- The months of a year lie one behind the other. -/
theorem daysBeforeMonth_add_le (leap : Bool) {month month' : ℕ} (hpos : 1 ≤ month)
    (h : month < month') (h' : month' ≤ 12) :
    daysBeforeMonth leap month + daysInMonth leap month ≤ daysBeforeMonth leap month' := by
  have hall : ∀ leap : Bool, ∀ month' ≤ 12, ∀ month < month', 1 ≤ month →
      daysBeforeMonth leap month + daysInMonth leap month ≤ daysBeforeMonth leap month' := by
    decide
  exact hall leap month' h' month h hpos

/-- The days up to the end of a month are within the year. -/
theorem daysBeforeMonth_add_le_year (leap : Bool) {month : ℕ} (hpos : 1 ≤ month) (h : month ≤ 12) :
    daysBeforeMonth leap month + daysInMonth leap month ≤ if leap then 366 else 365 := by
  have hall : ∀ leap : Bool, ∀ month ≤ 12, 1 ≤ month →
      daysBeforeMonth leap month + daysInMonth leap month ≤ if leap then 366 else 365 := by
    decide
  exact hall leap month h hpos

/-- A date of the calendar. -/
structure IsDate (year month day : ℕ) : Prop where
  year_pos : 1 ≤ year
  month_mem : 1 ≤ month ∧ month ≤ 12
  day_mem : 1 ≤ day ∧ day ≤ daysInMonth (isLeap year) month

section Ordinal

variable {year year' month month' day day' : ℕ}

/-- A year ends before the next ones begin. -/
theorem ordinal_lt_of_year (h : IsDate year month day) (h' : IsDate year' month' day')
    (hyear : year < year') : ordinal year month day < ordinal year' month' day' := by
  have hday := h.day_mem.2
  have hday' := h'.day_mem.1
  have hmonth := daysBeforeMonth_add_le_year (isLeap year) h.month_mem.1 h.month_mem.2
  have hnext := daysBeforeYear_succ h.year_pos
  have hmono := daysBeforeYear_mono (Nat.le_add_left 1 year) hyear
  rw [ordinal, ordinal]
  omega

/-- A month ends before the next ones of the year begin. -/
theorem ordinal_lt_of_month (h : IsDate year month day) (h' : IsDate year month' day')
    (hmonth : month < month') : ordinal year month day < ordinal year month' day' := by
  have hday := h.day_mem.2
  have hday' := h'.day_mem.1
  have hmonths := daysBeforeMonth_add_le (isLeap year) h.month_mem.1 hmonth h'.month_mem.2
  rw [ordinal, ordinal]
  omega

/-- Ordinals of dates are ordered by year, month and day. -/
theorem ordinal_lt_iff (h : IsDate year month day) (h' : IsDate year' month' day') :
    ordinal year month day < ordinal year' month' day' ↔
      year < year' ∨ year = year' ∧ (month < month' ∨ month = month' ∧ day < day') := by
  refine lt_iff_of_separated (ordinal_lt_of_year h h') (ordinal_lt_of_year h' h) ?_
  rintro rfl
  refine lt_iff_of_separated (ordinal_lt_of_month h h') (ordinal_lt_of_month h' h) ?_
  rintro rfl
  exact Nat.add_lt_add_iff_left

/-- Different dates have different ordinals. -/
theorem ordinal_inj (h : IsDate year month day) (h' : IsDate year' month' day') :
    ordinal year month day = ordinal year' month' day' ↔
      year = year' ∧ month = month' ∧ day = day' := by
  have hlt := ordinal_lt_iff h h'
  have hgt := ordinal_lt_iff h' h
  omega

end Ordinal

end Calendar

/-! ## The order of the texts -/

namespace Str

/-- ASCII is its own encoding. -/
theorem utf8_of_ascii {cs : List Char} (h : ∀ c ∈ cs, c.toNat < 0x80) :
    utf8 (String.ofList cs) = cs.map fun c => UInt8.ofNat c.toNat := by
  rw [utf8_ofList]
  induction cs with
  | nil => rfl
  | cons c cs ih =>
    obtain ⟨hc, hcs⟩ := List.forall_mem_cons.mp h
    have hbyte : String.utf8EncodeChar c = [UInt8.ofNat c.toNat] := by
      have hval : c.val.toNat ≤ 0x7f := Nat.le_of_lt_succ hc
      rw [String.utf8EncodeChar, if_pos hval]
      rfl
    rw [List.flatMap_cons, hbyte, ih hcs, List.map_cons, List.singleton_append]

/-- Texts in ASCII are in the order of their characters. -/
theorem utf8_lt_iff {cs cs' : List Char} (h : ∀ c ∈ cs, c.toNat < 0x80)
    (h' : ∀ c ∈ cs', c.toNat < 0x80) :
    utf8 (String.ofList cs) < utf8 (String.ofList cs') ↔ cs < cs' := by
  rw [utf8_of_ascii h, utf8_of_ascii h']
  induction cs generalizing cs' with
  | nil => cases cs' <;> simp
  | cons c cs ih =>
    cases cs' with
    | nil => simp
    | cons c' cs' =>
      obtain ⟨hc, hcs⟩ := List.forall_mem_cons.mp h
      obtain ⟨hc', hcs'⟩ := List.forall_mem_cons.mp h'
      have hlt : UInt8.ofNat c.toNat < UInt8.ofNat c'.toNat ↔ c < c' := by
        rw [UInt8.lt_iff_toNat_lt, UInt8.toNat_ofNat', UInt8.toNat_ofNat',
          Nat.mod_eq_of_lt (by omega), Nat.mod_eq_of_lt (by omega)]
        exact Iff.rfl
      have heq : UInt8.ofNat c.toNat = UInt8.ofNat c'.toNat ↔ c = c' := by
        rw [← UInt8.toNat_inj, UInt8.toNat_ofNat', UInt8.toNat_ofNat',
          Nat.mod_eq_of_lt (by omega), Nat.mod_eq_of_lt (by omega), Char.toNat_inj]
      rw [List.map_cons, List.map_cons, List.cons_lt_cons_iff, List.cons_lt_cons_iff, hlt, heq,
        ih hcs hcs']

end Str

namespace DateTime

open FixedWidth

/-- The date of a `datetime` is one of the calendar. -/
theorem isDate (t : DateTime) : Calendar.IsDate t.year t.month t.day :=
  ⟨t.year_mem.1, t.month_mem, t.day_mem⟩

/-- The instants are in the order of the fields. -/
theorem instant_lt_iff (t t' : DateTime) : t.instant < t'.instant ↔
    t.year < t'.year ∨ t.year = t'.year ∧ (t.month < t'.month ∨ t.month = t'.month ∧
      (t.day < t'.day ∨ t.day = t'.day ∧ (t.hour < t'.hour ∨ t.hour = t'.hour ∧
        (t.minute < t'.minute ∨ t.minute = t'.minute ∧ (t.second < t'.second ∨
          t.second = t'.second ∧ t.microsecond < t'.microsecond))))) := by
  rw [instant, instant, mul_add_lt_iff t.microsecond_lt t'.microsecond_lt,
    mul_add_lt_iff t.second_lt t'.second_lt, mul_add_inj t.second_lt t'.second_lt, lex_assoc,
    mul_add_lt_iff t.minute_lt t'.minute_lt, mul_add_inj t.minute_lt t'.minute_lt, lex_assoc,
    mul_add_lt_iff t.hour_lt t'.hour_lt, mul_add_inj t.hour_lt t'.hour_lt, lex_assoc,
    Calendar.ordinal_lt_iff t.isDate t'.isDate, Calendar.ordinal_inj t.isDate t'.isDate]
  rw [lex_assoc, lex_assoc]

/-- A fraction comes after none, for `+` comes before the point. -/
theorem fraction_lt_iff {n m : ℕ} (hn : n < 1000000) (hm : m < 1000000) :
    fraction n < fraction m ↔ n < m := by
  rw [fraction, fraction]
  by_cases hn' : n = 0
  · by_cases hm' : m = 0
    · simp [hn', hm']
    · rw [if_pos hn', if_neg hm']
      exact iff_of_true (List.cons_lt_cons_iff.mpr (.inl (by decide))) (by omega)
  · by_cases hm' : m = 0
    · rw [if_neg hn', if_pos hm']
      refine iff_of_false ?_ (by omega)
      exact lt_asymm (List.cons_lt_cons_iff.mpr (.inl (by decide)))
    · rw [if_neg hn', if_neg hm', List.cons_append, List.cons_append, List.cons_lt_cons_iff,
        decimal_append_lt_iff hn hm]
      simp

/-- The fraction of a second is written in ASCII. -/
theorem ascii_fraction (n : ℕ) : ∀ c ∈ fraction n, c.toNat < 0x80 := by
  have hoffset : ∀ c ∈ "+00:00".toList, c.toNat < 0x80 := by simp
  rw [fraction, List.forall_mem_append]
  refine ⟨?_, hoffset⟩
  split
  · exact List.forall_mem_nil _
  · exact List.forall_mem_cons.mpr ⟨by decide, ascii_decimal⟩

/-- A timestamp is written in ASCII. -/
theorem isoformat_ascii (t : DateTime) : ∀ c ∈ t.isoformat.toList, c.toNat < 0x80 := by
  rw [isoformat, String.toList_ofList]
  simp only [List.forall_mem_append, List.forall_mem_cons]
  exact ⟨ascii_decimal, by decide, ascii_decimal, by decide, ascii_decimal, by decide,
    ascii_decimal, by decide, ascii_decimal, by decide, ascii_decimal, ascii_fraction _⟩

/-- A day has at most two digits. -/
theorem day_lt (t : DateTime) : t.day < 100 := by
  have hall : ∀ leap : Bool, ∀ month ≤ 12, Calendar.daysInMonth leap month ≤ 31 := by decide
  have hmonth := hall (Calendar.isLeap t.year) t.month t.month_mem.2
  exact (t.day_mem.2.trans hmonth).trans_lt (by decide)

/-- The texts of instants are in their order, byte for byte. -/
theorem utf8_isoformat_lt_iff (t t' : DateTime) :
    Str.utf8 t.isoformat < Str.utf8 t'.isoformat ↔ t.instant < t'.instant := by
  have hyear (t : DateTime) : t.year < 10 ^ 4 := t.year_mem.2.trans_lt (by decide)
  have hmonth (t : DateTime) : t.month < 10 ^ 2 := t.month_mem.2.trans_lt (by decide)
  have hhour (t : DateTime) : t.hour < 10 ^ 2 := t.hour_lt.trans (by decide)
  have hminute (t : DateTime) : t.minute < 10 ^ 2 := t.minute_lt.trans (by decide)
  have hsecond (t : DateTime) : t.second < 10 ^ 2 := t.second_lt.trans (by decide)
  rw [← String.ofList_toList (s := t.isoformat), ← String.ofList_toList (s := t'.isoformat),
    Str.utf8_lt_iff t.isoformat_ascii t'.isoformat_ascii, instant_lt_iff, isoformat, isoformat,
    String.toList_ofList, String.toList_ofList, decimal_append_lt_iff (hyear t) (hyear t'),
    List.cons_lt_cons_self, decimal_append_lt_iff (hmonth t) (hmonth t'), List.cons_lt_cons_self,
    decimal_append_lt_iff t.day_lt t'.day_lt, List.cons_lt_cons_self,
    decimal_append_lt_iff (hhour t) (hhour t'), List.cons_lt_cons_self,
    decimal_append_lt_iff (hminute t) (hminute t'), List.cons_lt_cons_self,
    decimal_append_lt_iff (hsecond t) (hsecond t'),
    fraction_lt_iff t.microsecond_lt t'.microsecond_lt]

end DateTime

end Chen

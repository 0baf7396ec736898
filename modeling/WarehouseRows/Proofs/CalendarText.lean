import WarehouseRows.Proofs.Civil
import WarehouseRows.Proofs.DateTexts

/-!
# Calendar texts read back

Dates, times of day, dates with a time, and instants are written with filled-up numbers
between fixed marks. Each law says that the reader of a format takes the text of a value
back to the value, for the values that the format has room for. What the text does not
show is the minus sign of a zero, so a value comes back with plain zeros.
-/

namespace WarehouseRows

/-! ## Filled-up numbers -/

namespace Instant

@[simp] theorem digitsValue_pad (width : Nat) (n : Int) :
    Text.digitsValue (pad width n) = n.natAbs :=
  Text.digitsValue_padNat width n.natAbs

theorem isDigit_of_mem_pad {width : Nat} {n : Int} :
    ∀ c ∈ pad width n, c.isDigit = true :=
  fun _ => Text.isDigit_of_mem_padNat

theorem length_pad {width : Nat} {n : Int} (hw : 0 < width) (hn : n.natAbs < 10 ^ width) :
    (pad width n).length = width :=
  Text.length_padNat hw hn

/-- A filled-up number is read by a reader of its width. -/
theorem exactDigits?_pad {width : Nat} {n : Int} (rest : List Char) (hw : 0 < width)
    (hn : n.natAbs < 10 ^ width) :
    Text.exactDigits? width (pad width n ++ rest) = some (pad width n, rest) :=
  Text.exactDigits?_padNat rest hw hn

end Instant

/-! ## Dates -/

namespace LocalDate

open Text

/-- Whether a date is a day of the calendar, in the range of dates. -/
def IsReal : LocalDate → Prop
  | .invalid => False
  | .on year month day => isReal year.toInt month day = true

/-- The date without the minus sign of the year zero. -/
def plain : LocalDate → LocalDate
  | .invalid => .invalid
  | .on year month day => .on year.plain month day

/-- A real date is the date of its day number, so its month and day are in range. -/
theorem bounds_of_isReal {year month day : Int} (h : isReal year month day = true) :
    (1 ≤ month ∧ month ≤ 12) ∧ 1 ≤ day ∧ day ≤ 31 := by
  simp only [isReal, Bool.and_eq_true, beq_iff_eq] at h
  have hm := CivilDate.month_ofEpochDay (CivilDate.epochDay year month day)
  have hd := CivilDate.day_ofEpochDay (CivilDate.epochDay year month day)
  rw [h.2] at hm hd
  exact ⟨hm, hd⟩

theorem chars_on (year : Whole) (month day : Int) :
    chars (.on year month day) =
      yearText year.toInt ++ '-' :: Instant.pad 2 month ++ '-' :: Instant.pad 2 day := rfl

/-- The text of a real date is in the layout of dates and denotes the date. -/
theorem exists_dateText {date : LocalDate} (h : date.IsReal) :
    ∃ x : DateText, date.chars = x.chars ∧
      isReal x.civil.year x.civil.month x.civil.day = true ∧ x.date = date.plain := by
  cases date with
  | invalid => exact absurd h id
  | on year month day =>
    have hreal : isReal year.toInt month day = true := h
    obtain ⟨hm, hd⟩ := bounds_of_isReal hreal
    have hmonth : (month.natAbs : Int) = month := by omega
    have hday : (day.natAbs : Int) = day := by omega
    refine ⟨⟨decide (year.toInt < 0), Instant.pad 4 year.toInt, Instant.pad 2 month,
      Instant.pad 2 day, Instant.isDigit_of_mem_pad, le_length_padNat 4 _,
      ⟨Instant.length_pad (by decide) (by omega), Instant.isDigit_of_mem_pad⟩,
      ⟨Instant.length_pad (by decide) (by omega), Instant.isDigit_of_mem_pad⟩⟩, ?_, ?_, ?_⟩
    · by_cases hneg : year.toInt < 0 <;>
        simp [chars_on, yearText, hneg, DateText.chars, DateText.body, signChars]
    · simp only [DateText.civil, Instant.digitsValue_pad, Double.signed_natAbs, hmonth, hday,
        hreal]
    · simp only [DateText.date, Instant.digitsValue_pad, Whole.signed_natAbs, hmonth, hday]
      rfl

/-- The text of a real date is read as that date. -/
theorem parse_text {date : LocalDate} (h : date.IsReal) : parse date.text = .ok date.plain := by
  obtain ⟨x, hchars, hreal, hdate⟩ := exists_dateText h
  rw [parse, text, String.toList_ofList, ofChars?_eq_some.mpr ⟨x, hchars, hreal, hdate.symm⟩]

end LocalDate

/-! ## Times of day -/

namespace LocalTime

open Text

/-- A time of day whose parts are in their ranges. -/
structure InDay (t : LocalTime) : Prop where
  hour : 0 ≤ t.hour.toInt ∧ t.hour.toInt < 24
  minute : 0 ≤ t.minute.toInt ∧ t.minute.toInt < 60
  second : 0 ≤ t.second.toInt ∧ t.second.toInt < 60
  nano : 0 ≤ t.nano.toInt ∧ t.nano.toInt < nanosPerSecond

/-- The time without the minus signs of its zeros. -/
def plain (t : LocalTime) : LocalTime :=
  ⟨t.hour.plain, t.minute.plain, t.second.plain, t.nano.plain⟩

/-- The time cut to the microsecond, without the minus signs of its zeros. -/
def cut (t : LocalTime) : LocalTime :=
  ⟨t.hour.plain, t.minute.plain, t.second.plain, .ofInt (t.nano.toInt / 1000 * 1000)⟩

theorem cut_of_micro {t : LocalTime} (hmicro : t.nano.toInt % 1000 = 0) : t.cut = t.plain := by
  have hnano : t.nano.toInt / 1000 * 1000 = t.nano.toInt := by omega
  rw [cut, plain, hnano]
  rfl

theorem inBound_iff {bound : Nat} {n : Whole} :
    inBound bound n = true ↔ 0 ≤ n.toInt ∧ n.toInt < bound := by
  simp [inBound]

/-- A time inside a day can be made of its parts, with any nanoseconds of a second. -/
theorem ofWhole?_plain {t : LocalTime} (h : t.InDay) {nano : Int} (h0 : 0 ≤ nano)
    (h1 : nano < nanosPerSecond) :
    ofWhole? t.hour.plain t.minute.plain t.second.plain (.ofInt nano) =
      some ⟨t.hour.plain, t.minute.plain, t.second.plain, .ofInt nano⟩ := by
  have hh : inBound 24 t.hour.plain = true := inBound_iff.mpr h.hour
  have hm : inBound 60 t.minute.plain = true := inBound_iff.mpr h.minute
  have hs : inBound 60 t.second.plain = true := inBound_iff.mpr h.second
  have hn : inBound nanosPerSecond (.ofInt nano) = true := inBound_iff.mpr ⟨h0, h1⟩
  simp [ofWhole?, hh, hm, hs, hn]

/-- Up to nine digits behind the point are read, in nanoseconds. -/
theorem readFraction?_pad {width : Nat} {n : Int} (hw : 0 < width) (hle : width ≤ 9)
    (hn : n.natAbs < 10 ^ width) :
    readFraction? ('.' :: Instant.pad width n) = some (10 ^ (9 - width) * n.natAbs) := by
  have hlen := Instant.length_pad hw hn
  have hdigits : (Instant.pad width n).all Char.isDigit = true :=
    List.all_eq_true.mpr Instant.isDigit_of_mem_pad
  have hne : (Instant.pad width n).isEmpty = false := by
    rw [List.isEmpty_eq_false_iff]
    exact padNat_ne_nil _ _
  have hshort : decide (9 < width) = false := decide_eq_false (by omega)
  have hvalue : digitsValue (padRight '0' 9 (Instant.pad width n)) =
      10 ^ (9 - width) * n.natAbs := by
    rw [padRight, hlen, digitsValue_append_zeros, Instant.digitsValue_pad]
  simp only [readFraction?, hne, hlen, hdigits, hshort, hvalue]
  rfl

/-- The microseconds of a fraction are read back, in nanoseconds. -/
theorem readFraction?_micros {nano : Int} (h0 : 0 ≤ nano) (h1 : nano < nanosPerSecond) :
    readFraction? (if nano = 0 then [] else '.' :: Instant.pad 6 (nano / 1000)) =
      some (nano / 1000 * 1000).toNat := by
  simp only [nanosPerSecond] at h1
  by_cases hzero : nano = 0
  · subst hzero
    rfl
  · rw [if_neg hzero, readFraction?_pad (by decide) (by decide) (by omega)]
    congr 1
    omega

/-- The seconds of a time are read from its text, with the fraction behind them. -/
theorem readSeconds?_append {t : LocalTime} (h : t.InDay) {fraction : List Char} {nano : Nat}
    (hfraction : readFraction? fraction = some nano) :
    readSeconds? (':' :: (Instant.pad 2 t.second.toInt ++ fraction)) =
      some (t.second.toInt.natAbs, nano) := by
  have hsecond := Instant.exactDigits?_pad (n := t.second.toInt) fraction (by decide : 0 < 2)
    (by have := h.second; omega)
  simp only [readSeconds?, hsecond, hfraction, Option.bind_eq_bind, Option.bind_some,
    Instant.digitsValue_pad]
  rfl

/-- The hour and the minute of a time are read from its text, with the seconds behind them. -/
theorem ofChars?_append {t : LocalTime} (h : t.InDay) {seconds : List Char} {nano : Nat}
    (hseconds : readSeconds? seconds = some (t.second.toInt.natAbs, nano))
    (hnano : nano < nanosPerSecond) :
    ofChars? (Instant.pad 2 t.hour.toInt ++ ':' :: (Instant.pad 2 t.minute.toInt ++ seconds)) =
      some ⟨t.hour.plain, t.minute.plain, t.second.plain, .ofInt nano⟩ := by
  have hhour (rest : List Char) :=
    Instant.exactDigits?_pad (n := t.hour.toInt) rest (by decide : 0 < 2) (by have := h.hour; omega)
  have hminute (rest : List Char) :=
    Instant.exactDigits?_pad (n := t.minute.toInt) rest (by decide : 0 < 2)
      (by have := h.minute; omega)
  have hh : (t.hour.toInt.natAbs : Int) = t.hour.toInt := Int.natAbs_of_nonneg h.hour.1
  have hm : (t.minute.toInt.natAbs : Int) = t.minute.toInt := Int.natAbs_of_nonneg h.minute.1
  have hs : (t.second.toInt.natAbs : Int) = t.second.toInt := Int.natAbs_of_nonneg h.second.1
  have hwhole := ofWhole?_plain h (Int.natCast_nonneg nano) (by omega)
  simp only [ofChars?, hhour, hminute, expect?_cons, hseconds, Option.bind_eq_bind,
    Option.bind_some, Instant.digitsValue_pad, hh, hm, hs]
  exact hwhole

/-- The text of a time with its seconds is read as that time, cut to the microsecond. -/
theorem ofChars?_formatChars {t : LocalTime} (h : t.InDay) :
    ofChars? t.formatChars = some t.cut := by
  have hnano := h.nano
  have hcut : ((t.nano.toInt / 1000 * 1000).toNat : Int) = t.nano.toInt / 1000 * 1000 :=
    Int.toNat_of_nonneg (by omega)
  have hseconds := readSeconds?_append h (readFraction?_micros hnano.1 hnano.2)
  simp only [formatChars, List.append_assoc, List.cons_append]
  rw [ofChars?_append h hseconds (by omega), hcut]
  rfl

theorem parse_format_cut {t : LocalTime} (h : t.InDay) : parse t.format = .ok t.cut := by
  rw [parse, format, String.toList_ofList, ofChars?_formatChars h]

/-- The text of a time with its seconds is read as that time, if the time is one of whole
microseconds. -/
theorem parse_format {t : LocalTime} (h : t.InDay) (hmicro : t.nano.toInt % 1000 = 0) :
    parse t.format = .ok t.plain := by
  rw [parse_format_cut h, cut_of_micro hmicro]

end LocalTime

/-! ## Dates with a time of day -/

namespace LocalDateTime

open Text

/-- The date and the time without the minus signs of their zeros. -/
def plain (x : LocalDateTime) : LocalDateTime :=
  ⟨x.date.plain, x.time.plain⟩

/-- Whether characters follow a layout, in which a `d` stands for any digit. -/
def fits (layout cs : List Char) : Bool :=
  (layout.zip cs).all fun (l, c) => if l = 'd' then c.isDigit else l == c

/-- The layout of a date with a time, without a fraction. -/
def wholeLayout : List Char :=
  "dddd-dd-ddTdd:dd:dd".toList

/-- The layout of a fraction. -/
def fractionLayout : List Char :=
  ".dddddd".toList

theorem isFixed_eq (cs : List Char) :
    isFixed cs = ((cs.length == 19 && fits wholeLayout cs) ||
      (cs.length == 26 && fits (wholeLayout ++ fractionLayout) cs)) := rfl

/-- A run of digits fits as many places for digits. -/
theorem fits_digits {n : Nat} {ds : List Char} (layout cs : List Char) (hl : ds.length = n)
    (hd : ∀ c ∈ ds, c.isDigit = true) :
    fits (List.replicate n 'd' ++ layout) (ds ++ cs) = fits layout cs := by
  subst hl
  induction ds with
  | nil => rfl
  | cons c ds ih =>
    have hc := hd c List.mem_cons_self
    have hrest := ih fun x hx => hd x (List.mem_cons_of_mem c hx)
    rw [← hrest]
    simp [fits, List.replicate_succ, hc]

theorem fits_mark {c : Char} (layout cs : List Char) (h : c ≠ 'd') :
    fits (c :: layout) (c :: cs) = fits layout cs := by
  simp [fits, h]

theorem wholeLayout_eq (rest : List Char) :
    wholeLayout ++ rest = List.replicate 4 'd' ++ '-' :: (List.replicate 2 'd' ++
      '-' :: (List.replicate 2 'd' ++ 'T' :: (List.replicate 2 'd' ++
        ':' :: (List.replicate 2 'd' ++ ':' :: (List.replicate 2 'd' ++ rest))))) := rfl

theorem fractionLayout_eq : fractionLayout = '.' :: (List.replicate 6 'd' ++ []) := rfl

/-- The characters of a time with its seconds follow the layout. -/
theorem fits_formatChars {t : LocalTime} (h : t.InDay) (layout : List Char)
    (rest : List Char) :
    fits (List.replicate 2 'd' ++ ':' :: (List.replicate 2 'd' ++ ':' ::
        (List.replicate 2 'd' ++ layout)))
      (Instant.pad 2 t.hour.toInt ++ ':' :: (Instant.pad 2 t.minute.toInt ++ ':' ::
        (Instant.pad 2 t.second.toInt ++ rest))) = fits layout rest := by
  have hh : (Instant.pad 2 t.hour.toInt).length = 2 :=
    Instant.length_pad (by decide) (by have := h.hour; omega)
  have hm : (Instant.pad 2 t.minute.toInt).length = 2 :=
    Instant.length_pad (by decide) (by have := h.minute; omega)
  have hs : (Instant.pad 2 t.second.toInt).length = 2 :=
    Instant.length_pad (by decide) (by have := h.second; omega)
  rw [fits_digits _ _ hh Instant.isDigit_of_mem_pad, fits_mark _ _ (by decide),
    fits_digits _ _ hm Instant.isDigit_of_mem_pad, fits_mark _ _ (by decide),
    fits_digits _ _ hs Instant.isDigit_of_mem_pad]

/-- A date and time that the fixed layout has room for: a real date with a year of four
digits, and a time of whole microseconds. -/
structure IsFixable (x : LocalDateTime) : Prop where
  real : x.date.IsReal
  year : ∀ year month day, x.date = .on year month day → 0 ≤ year.toInt ∧ year.toInt ≤ 9999
  inDay : x.time.InDay
  micro : x.time.nano.toInt % 1000 = 0

/-- A date and time whose text follows the fixed layout: a real date with a year of four digits,
and a time inside a day. -/
structure IsLaidOut (x : LocalDateTime) : Prop where
  real : x.date.IsReal
  year : ∀ year month day, x.date = .on year month day → 0 ≤ year.toInt ∧ year.toInt ≤ 9999
  inDay : x.time.InDay

theorem IsFixable.isLaidOut {x : LocalDateTime} (h : x.IsFixable) : x.IsLaidOut :=
  ⟨h.real, h.year, h.inDay⟩

/-- The characters of a date with a year of four digits. -/
theorem chars_date {year : Whole} (month day : Int) (hy : 0 ≤ year.toInt) :
    (LocalDate.on year month day).chars =
      Instant.pad 4 year.toInt ++ '-' :: (Instant.pad 2 month ++ '-' :: Instant.pad 2 day) := by
  have hneg : ¬ year.toInt < 0 := by omega
  simp [LocalDate.chars_on, LocalDate.yearText, hneg]

/-- The characters of a date with a year of four digits are ten and follow the layout. -/
theorem fits_date {date : LocalDate} (hreal : date.IsReal)
    (hyear : ∀ year month day, date = .on year month day → 0 ≤ year.toInt ∧ year.toInt ≤ 9999) :
    date.chars.length = 10 ∧ ∀ layout rest, fits (List.replicate 4 'd' ++ '-' ::
      (List.replicate 2 'd' ++ '-' :: (List.replicate 2 'd' ++ layout))) (date.chars ++ rest) =
        fits layout rest := by
  cases date with
  | invalid => exact absurd hreal id
  | on year month day =>
    obtain ⟨hm, hd⟩ := LocalDate.bounds_of_isReal hreal
    obtain ⟨hy0, hy1⟩ := hyear year month day rfl
    have hyl : (Instant.pad 4 year.toInt).length = 4 := Instant.length_pad (by decide) (by omega)
    have hml : (Instant.pad 2 month).length = 2 := Instant.length_pad (by decide) (by omega)
    have hdl : (Instant.pad 2 day).length = 2 := Instant.length_pad (by decide) (by omega)
    rw [chars_date month day hy0]
    refine ⟨by simp [hyl, hml, hdl], fun layout rest => ?_⟩
    simp only [List.append_assoc, List.cons_append]
    rw [fits_digits _ _ hyl Instant.isDigit_of_mem_pad, fits_mark _ _ (by decide),
      fits_digits _ _ hml Instant.isDigit_of_mem_pad, fits_mark _ _ (by decide),
      fits_digits _ _ hdl Instant.isDigit_of_mem_pad]

theorem length_formatChars {t : LocalTime} (h : t.InDay) :
    t.formatChars.length = if t.nano.toInt = 0 then 8 else 15 := by
  have hh : (Instant.pad 2 t.hour.toInt).length = 2 :=
    Instant.length_pad (by decide) (by have := h.hour; omega)
  have hm : (Instant.pad 2 t.minute.toInt).length = 2 :=
    Instant.length_pad (by decide) (by have := h.minute; omega)
  have hs : (Instant.pad 2 t.second.toInt).length = 2 :=
    Instant.length_pad (by decide) (by have := h.second; omega)
  have hn : (Instant.pad 6 (t.nano.toInt / 1000)).length = 6 := by
    have hnano := h.nano
    simp only [LocalTime.nanosPerSecond] at hnano
    exact Instant.length_pad (by decide) (by omega)
  by_cases hzero : t.nano.toInt = 0 <;> simp [LocalTime.formatChars, hh, hm, hs, hn, hzero]

/-- The text of a date and time in the range of the fixed layout follows the layout. -/
theorem isFixed_format {x : LocalDateTime} (h : x.IsLaidOut) :
    isFixed (x.date.chars ++ 'T' :: x.time.formatChars) = true := by
  obtain ⟨hlen, hdate⟩ := fits_date h.real h.year
  have htime := length_formatChars h.inDay
  have hfits := fits_formatChars h.inDay
  have hn : (Instant.pad 6 (x.time.nano.toInt / 1000)).length = 6 := by
    have hnano := h.inDay.nano
    simp only [LocalTime.nanosPerSecond] at hnano
    exact Instant.length_pad (by decide) (by omega)
  rw [isFixed_eq]
  by_cases hzero : x.time.nano.toInt = 0
  · have hchars : fits wholeLayout (x.date.chars ++ 'T' :: x.time.formatChars) = true := by
      rw [← List.append_nil wholeLayout, wholeLayout_eq, hdate, fits_mark _ _ (by decide),
        LocalTime.formatChars]
      simp only [List.append_assoc, List.cons_append, hzero, if_true]
      exact hfits [] []
    have hcount : (x.date.chars ++ 'T' :: x.time.formatChars).length = 19 := by
      simp [hlen, htime, hzero]
    simp [hchars, hcount]
  · have hchars : fits (wholeLayout ++ fractionLayout)
        (x.date.chars ++ 'T' :: x.time.formatChars) = true := by
      rw [wholeLayout_eq, hdate, fits_mark _ _ (by decide), LocalTime.formatChars]
      simp only [List.append_assoc, List.cons_append, hzero, if_false]
      rw [hfits, fractionLayout_eq, fits_mark _ _ (by decide)]
      rw [← List.append_nil (Instant.pad 6 _)]
      exact (fits_digits [] [] hn Instant.isDigit_of_mem_pad).trans rfl
    have hcount : (x.date.chars ++ 'T' :: x.time.formatChars).length = 26 := by
      simp [hlen, htime, hzero]
    simp [hchars, hcount]

/-- The text of a date and time in the range of the fixed layout is read as that date and time,
cut to the microsecond. -/
theorem parseFixed_format_cut {x : LocalDateTime} (h : x.IsLaidOut) :
    parseFixed x.format = .ok ⟨x.date.plain, x.time.cut⟩ := by
  obtain ⟨hlen, _⟩ := fits_date h.real h.year
  have hdate : LocalDate.parse (String.ofList x.date.chars) = .ok x.date.plain :=
    LocalDate.parse_text h.real
  have htime : LocalTime.parse (String.ofList x.time.formatChars) = .ok x.time.cut :=
    LocalTime.parse_format_cut h.inDay
  have htake : (x.date.chars ++ 'T' :: x.time.formatChars).take 10 = x.date.chars := by
    rw [← hlen, List.take_left]
  have hdrop : (x.date.chars ++ 'T' :: x.time.formatChars).drop 11 = x.time.formatChars := by
    rw [show 11 = x.date.chars.length + 1 by rw [hlen], List.drop_append]
    simp
  rw [parseFixed, format, String.toList_ofList, if_pos (isFixed_format h), htake, hdrop, hdate,
    htime]
  rfl

/-- The text of a date and time in the range of the fixed layout is read as that date and time, if
the time is one of whole microseconds. -/
theorem parseFixed_format {x : LocalDateTime} (h : x.IsFixable) :
    parseFixed x.format = .ok x.plain := by
  rw [parseFixed_format_cut h.isLaidOut, LocalTime.cut_of_micro h.micro]
  rfl

end LocalDateTime

/-! ## Instants -/

namespace Timestamp

open Text

/-- The fields of a clock as the numbers that stand in its text. -/
def fieldsOf (c : Clock) : Fields where
  year := c.date.year.natAbs
  month := c.date.month.natAbs
  day := c.date.day.natAbs
  hour := c.hour.natAbs
  minute := c.minute.natAbs
  second := c.second.natAbs
  milli := c.milli.natAbs

theorem yearText_of_nonneg {year : Int} (h : 0 ≤ year) : yearText year = Instant.pad 4 year := by
  cases year with
  | ofNat n => rfl
  | negSucc n => exact absurd h (by omega)

/-- The parts of the time of day are in their ranges, whatever the day. -/
theorem clock_bounds (millis : Int) :
    (0 ≤ (Instant.clock millis).hour ∧ (Instant.clock millis).hour ≤ 23) ∧
    (0 ≤ (Instant.clock millis).minute ∧ (Instant.clock millis).minute ≤ 59) ∧
    (0 ≤ (Instant.clock millis).second ∧ (Instant.clock millis).second ≤ 59) ∧
    (0 ≤ (Instant.clock millis).milli ∧ (Instant.clock millis).milli ≤ 999) := by
  simp only [Instant.clock, Instant.millisPerDay]
  omega

/-- Three digits behind the point are read as milliseconds. -/
theorem readFraction?_milli {milli : Int} (h0 : 0 ≤ milli) (h1 : milli ≤ 999) :
    readFraction? ('.' :: (Instant.pad 3 milli ++ " UTC".toList)) =
      some (milli.natAbs, " UTC".toList) := by
  have hlen : (Instant.pad 3 milli).length = 3 := Instant.length_pad (by decide) (by omega)
  have hpoint : fractionChars (Instant.pad 3 milli) = '.' :: Instant.pad 3 milli :=
    fractionChars_of_ne_nil (padNat_ne_nil _ _)
  have htake : (padRight '0' 3 (Instant.pad 3 milli)).take 3 = Instant.pad 3 milli := by
    rw [padRight, List.take_append_of_le_length (by omega), List.take_of_length_le (by omega)]
  refine readFraction?_eq_some.mpr
    ⟨Instant.pad 3 milli, Instant.isDigit_of_mem_pad, by omega, ?_, ?_⟩
  · rw [hpoint, List.cons_append]
  · rw [htake, Instant.digitsValue_pad]

/-- The characters of a clock up to its seconds. -/
def frontChars (c : Clock) : List Char :=
  yearText c.date.year ++ '-' :: Instant.pad 2 c.date.month ++ '-' :: Instant.pad 2 c.date.day ++
    ' ' :: Instant.pad 2 c.hour ++ ':' :: Instant.pad 2 c.minute ++ ':' :: Instant.pad 2 c.second

/-- The fields of an instant with a year of four digits are read from its characters, whatever
the fraction in which they end. -/
theorem readFields?_append {millis : Int} {fraction : List Char} {milli : Nat}
    (h0 : 0 ≤ (Instant.clock millis).date.year) (h1 : (Instant.clock millis).date.year ≤ 9999)
    (hfraction : readFraction? fraction = some (milli, " UTC".toList)) :
    readFields? (frontChars (Instant.clock millis) ++ fraction) =
      some { fieldsOf (Instant.clock millis) with milli := milli } := by
  obtain ⟨hh, hm, hs, _⟩ := clock_bounds millis
  have hmonth := CivilDate.month_ofEpochDay (millis / Instant.millisPerDay)
  have hday := CivilDate.day_ofEpochDay (millis / Instant.millisPerDay)
  have hyear (rest : List Char) := Instant.exactDigits?_pad
    (n := (Instant.clock millis).date.year) rest (by decide : 0 < 4) (by omega)
  have htwo {n : Int} (hn : 0 ≤ n ∧ n ≤ 99) (rest : List Char) :=
    Instant.exactDigits?_pad (n := n) rest (by decide : 0 < 2) (by omega)
  have hmonth2 := htwo (n := (Instant.clock millis).date.month)
    ⟨by simp only [Instant.clock]; omega, by simp only [Instant.clock]; omega⟩
  have hday2 := htwo (n := (Instant.clock millis).date.day)
    ⟨by simp only [Instant.clock]; omega, by simp only [Instant.clock]; omega⟩
  have hhour2 := htwo (n := (Instant.clock millis).hour) ⟨hh.1, by omega⟩
  have hminute2 := htwo (n := (Instant.clock millis).minute) ⟨hm.1, by omega⟩
  have hsecond2 := htwo (n := (Instant.clock millis).second) ⟨hs.1, by omega⟩
  simp only [frontChars, yearText_of_nonneg h0, List.append_assoc, List.cons_append, readFields?,
    hyear, hmonth2, hday2, hhour2, hminute2, hsecond2, hfraction, expect?_cons,
    Option.bind_eq_bind, Option.bind_some, Instant.digitsValue_pad, if_true]
  rfl

/-- The fields of an instant with a year of four digits are read from its characters. -/
theorem readFields?_chars {millis : Int} (h0 : 0 ≤ (Instant.clock millis).date.year)
    (h1 : (Instant.clock millis).date.year ≤ 9999) :
    readFields? (chars millis) = some (fieldsOf (Instant.clock millis)) := by
  obtain ⟨_, _, _, hms⟩ := clock_bounds millis
  have hchars : chars millis = frontChars (Instant.clock millis) ++
      '.' :: (Instant.pad 3 (Instant.clock millis).milli ++ " UTC".toList) := by
    simp only [chars, frontChars, List.append_assoc, List.cons_append]
  rw [hchars, readFields?_append h0 h1 (readFraction?_milli hms.1 hms.2)]
  rfl

/-- The fields of an instant denote the instant. -/
theorem ofFields?_fieldsOf {millis : Int} (h0 : 0 ≤ (Instant.clock millis).date.year) :
    ofFields? (fieldsOf (Instant.clock millis)) = some (.at millis) := by
  obtain ⟨hh, hm, hs, hms⟩ := clock_bounds millis
  have hmonth := CivilDate.month_ofEpochDay (millis / Instant.millisPerDay)
  have hday := CivilDate.day_ofEpochDay (millis / Instant.millisPerDay)
  have hcount := CivilDate.epochDay_ofEpochDay (millis / Instant.millisPerDay)
  have hy : ((fieldsOf (Instant.clock millis)).year : Int) =
      (CivilDate.ofEpochDay (millis / Instant.millisPerDay)).year := Int.natAbs_of_nonneg h0
  have hmo : ((fieldsOf (Instant.clock millis)).month : Int) =
      (CivilDate.ofEpochDay (millis / Instant.millisPerDay)).month :=
    Int.natAbs_of_nonneg (by simp only [Instant.clock]; omega)
  have hd : ((fieldsOf (Instant.clock millis)).day : Int) =
      (CivilDate.ofEpochDay (millis / Instant.millisPerDay)).day :=
    Int.natAbs_of_nonneg (by simp only [Instant.clock]; omega)
  have htime : (fieldsOf (Instant.clock millis)).hour ≤ 23 ∧
      (fieldsOf (Instant.clock millis)).minute ≤ 59 ∧
      (fieldsOf (Instant.clock millis)).second ≤ 59 := by
    simp only [fieldsOf]
    omega
  have hmillis : Instant.millisOf (millis / Instant.millisPerDay)
      (fieldsOf (Instant.clock millis)).hour (fieldsOf (Instant.clock millis)).minute
      (fieldsOf (Instant.clock millis)).second (fieldsOf (Instant.clock millis)).milli =
      millis := by
    simp only [fieldsOf, Int.natAbs_of_nonneg hh.1, Int.natAbs_of_nonneg hm.1,
      Int.natAbs_of_nonneg hs.1, Int.natAbs_of_nonneg hms.1]
    simp only [Instant.millisOf, Instant.clock, Instant.millisPerDay]
    omega
  simp only [ofFields?, hy, hmo, hd, hcount, hmillis]
  rw [if_pos ⟨htime.1, htime.2.1, htime.2.2, rfl, rfl⟩]

/-- The text of an instant with a year of four digits is read as that instant. -/
theorem parse_format {millis : Int} (h0 : 0 ≤ (Instant.clock millis).date.year)
    (h1 : (Instant.clock millis).date.year ≤ 9999) :
    parse (String.ofList (chars millis)) = .ok (.at millis) := by
  rw [parse, String.toList_ofList, readFields?_chars h0 h1, Option.bind_some,
    ofFields?_fieldsOf h0]

end Timestamp

end WarehouseRows

import WarehouseRows.Proofs.GregorianDays

/-!
# The order of dates

A date comes before another one if its year does, in one year if its month does, and in one month if
its day does. The day numbers keep this order: a day that there is lies before the next month, and a
month before the next year. So the dates whose day numbers are at most one hundred million from zero
are those from the first to the last date of the calendar.

## Main definitions

* `CivilDate.Precedes`: the order of dates, by year, month and day.
* `CivilDate.InCalendar`: the dates that there are from the first to the last one.

## Main results

* `CivilDate.dayNumber_lt_iff`: day numbers are in the order of their dates.
* `CivilDate.inCalendar_iff`: the calendar as a range of day numbers.
-/

namespace WarehouseRows.CivilDate

/-! ## Earlier years and months -/

theorem yearStart_mono {y z : Int} (h : y ≤ z) : yearStart y ≤ yearStart z := by
  simp only [yearStart]
  omega

theorem daysInMonth_pos (year month : Int) : 0 < daysInMonth year month := by
  simp only [daysInMonth]
  grind

/-- The more months of a year, the more days. -/
theorem daysOfMonths_mono (year : Int) {m n : Nat} (h : m ≤ n) :
    daysOfMonths year m ≤ daysOfMonths year n := by
  induction h with
  | refl => exact Int.le_refl _
  | step _ ih =>
    apply Int.le_trans ih
    rw [daysOfMonths]
    exact Int.le_add_of_nonneg_right (Int.le_of_lt (daysInMonth_pos _ _))

/-! ## The order -/

/-- Whether a date comes before another one: by the year, then by the month, then by the day. -/
def Precedes (a b : CivilDate) : Prop :=
  a.year < b.year ∨
    a.year = b.year ∧ (a.month < b.month ∨ a.month = b.month ∧ a.day < b.day)

instance : DecidableRel Precedes := fun _ _ =>
  inferInstanceAs (Decidable (_ ∨ _ ∧ (_ ∨ _ ∧ _)))

/-- Of two dates one comes first, or they are the same date. -/
theorem precedes_trichotomy (a b : CivilDate) : a.Precedes b ∨ a = b ∨ b.Precedes a := by
  obtain ⟨y, m, d⟩ := a
  obtain ⟨y', m', d'⟩ := b
  simp only [Precedes, mk.injEq]
  omega

/-- The day number of a date. -/
def dayNumber (date : CivilDate) : Int :=
  epochDay date.year date.month date.day

/-- Whether there is the date. -/
def IsDate (date : CivilDate) : Prop :=
  IsDay date.year date.month date.day

instance : DecidablePred IsDate := fun _ =>
  inferInstanceAs (Decidable (IsDay _ _ _))

theorem isDate_ofEpochDay (n : Int) : (ofEpochDay n).IsDate :=
  isDay_ofEpochDay n

theorem dayNumber_ofEpochDay (n : Int) : (ofEpochDay n).dayNumber = n :=
  epochDay_ofEpochDay n

theorem ofEpochDay_dayNumber {date : CivilDate} (h : date.IsDate) :
    ofEpochDay date.dayNumber = date :=
  ofEpochDay_epochDay h

/-- The day number of a date that there is, by the start of its year, with the months and the days
of its month that have gone by. -/
theorem exists_dayNumber_eq {date : CivilDate} (h : date.IsDate) :
    ∃ months : Nat, date.month = (months + 1 : Nat) ∧ months < 12 ∧
      date.dayNumber =
        yearStart date.year + daysOfMonths date.year months + date.day - 719529 := by
  obtain ⟨year, month, day⟩ := date
  have h1 : 1 ≤ month := h.first_le_month
  have h2 : month ≤ 12 := h.month_le
  obtain ⟨months, rfl⟩ : ∃ months : Nat, month = (months + 1 : Nat) :=
    ⟨(month - 1).toNat, by omega⟩
  refine ⟨months, rfl, by omega, ?_⟩
  have hcount := epochDay_eq year (Nat.le_add_left 1 months) (by omega) day
  rwa [Nat.add_sub_cancel] at hcount

/-- A later date has a greater day number. -/
theorem dayNumber_lt {a b : CivilDate} (ha : a.IsDate) (hb : b.IsDate) (h : a.Precedes b) :
    a.dayNumber < b.dayNumber := by
  obtain ⟨m, hm, hm12, hcount⟩ := exists_dayNumber_eq ha
  obtain ⟨n, hn, hn12, hcount'⟩ := exists_dayNumber_eq hb
  have hday : a.day ≤ daysInMonth a.year (m + 1 : Nat) := hm ▸ ha.day_le
  have hfirst : 1 ≤ b.day := hb.first_le_day
  -- The day lies before the next month.
  have hnext : daysOfMonths a.year m + a.day ≤ daysOfMonths a.year (m + 1) := by
    rw [daysOfMonths]
    omega
  rw [hcount, hcount']
  rcases h with hyear | ⟨hyear, hmonth | ⟨hmonth, hless⟩⟩
  · have hmonths := daysOfMonths_mono a.year (show m + 1 ≤ 12 by omega)
    have hstart := yearStart_mono (show a.year + 1 ≤ b.year by omega)
    rw [yearStart_succ] at hstart
    have hpos : daysOfMonths b.year 0 ≤ daysOfMonths b.year n := daysOfMonths_mono _ (Nat.zero_le n)
    rw [daysOfMonths] at hpos
    omega
  · have hmonths := daysOfMonths_mono a.year (show m + 1 ≤ n by omega)
    rw [← hyear]
    omega
  · obtain rfl : m = n := by omega
    rw [← hyear]
    omega

/-- The day numbers of dates are in the order of the dates. -/
theorem dayNumber_lt_iff {a b : CivilDate} (ha : a.IsDate) (hb : b.IsDate) :
    a.dayNumber < b.dayNumber ↔ a.Precedes b := by
  refine ⟨fun hless => ?_, dayNumber_lt ha hb⟩
  rcases precedes_trichotomy a b with h | rfl | h
  · exact h
  · exact absurd hless (Int.lt_irrefl _)
  · exact absurd hless (Int.lt_asymm (dayNumber_lt hb ha h))

/-! ## The calendar -/

/-- The first date of the calendar. -/
def firstDate : CivilDate := ⟨-271821, 4, 20⟩

/-- The last date of the calendar. -/
def lastDate : CivilDate := ⟨275760, 9, 13⟩

/-- Whether there is a date, and it lies between the first and the last date of the calendar. -/
structure InCalendar (date : CivilDate) : Prop where
  isDate : date.IsDate
  first_le : ¬date.Precedes firstDate
  le_last : ¬lastDate.Precedes date

instance : DecidablePred InCalendar := fun date =>
  decidable_of_iff (date.IsDate ∧ ¬date.Precedes firstDate ∧ ¬lastDate.Precedes date)
    ⟨fun h => ⟨h.1, h.2.1, h.2.2⟩, fun h => ⟨h.isDate, h.first_le, h.le_last⟩⟩

/-- The calendar has one hundred million days before the start of 1970, and as many behind its
first day. -/
theorem inCalendar_iff {date : CivilDate} :
    date.InCalendar ↔ date.IsDate ∧ date.dayNumber.natAbs ≤ Instant.maxDays := by
  have hfirst : firstDate.dayNumber = -100000000 := rfl
  have hlast : lastDate.dayNumber = 100000000 := rfl
  have hfirst' : firstDate.IsDate := by decide
  have hlast' : lastDate.IsDate := by decide
  have hrange (h : date.IsDate) :
      (¬date.Precedes firstDate ∧ ¬lastDate.Precedes date) ↔
        date.dayNumber.natAbs ≤ Instant.maxDays := by
    rw [← dayNumber_lt_iff h hfirst', ← dayNumber_lt_iff hlast' h, hfirst, hlast, Instant.maxDays]
    omega
  constructor
  · intro h
    exact ⟨h.isDate, (hrange h.isDate).mp ⟨h.first_le, h.le_last⟩⟩
  · intro h
    obtain ⟨hge, hle⟩ := (hrange h.1).mpr h.2
    exact ⟨h.1, hge, hle⟩

end WarehouseRows.CivilDate

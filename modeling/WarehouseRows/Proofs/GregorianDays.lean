import WarehouseRows.Proofs.Civil

/-!
# The days of the Gregorian calendar

The rule of leap years and the lengths of the months say which dates there are, and counting year by
year and month by month says how many days lie before a date. The day numbers are this count, and a
date is found from its own day number just if there is such a date. A month or a day that there is
not counts on into another date, and this one differs from it in the month or in the day.

## Main definitions

* `CivilDate.IsLeap`, `CivilDate.daysInMonth`: the rule of leap years and the lengths of the months.
* `CivilDate.IsDay`: the dates that there are.
* `CivilDate.dayCount`: the days before a date, counted from the start of the year zero.

## Main results

* `CivilDate.epochDay_eq_dayCount`: day numbers count days.
* `CivilDate.sameMonthDay_iff`: the dates that are found from their day numbers.
-/

namespace WarehouseRows.CivilDate

/-! ## Years and months -/

/-- Every fourth year is a leap year, of the full centuries only every fourth. -/
def IsLeap (year : Int) : Prop :=
  year % 4 = 0 ∧ (year % 100 ≠ 0 ∨ year % 400 = 0)

instance : DecidablePred IsLeap := fun _ =>
  inferInstanceAs (Decidable (_ ∧ _))

/-- The days of a month. -/
def daysInMonth (year month : Int) : Int :=
  if month = 2 then if IsLeap year then 29 else 28
  else if month = 4 ∨ month = 6 ∨ month = 9 ∨ month = 11 then 30
  else 31

/-- Whether there is the month in a year and the day in the month. -/
structure IsDay (year month day : Int) : Prop where
  first_le_month : 1 ≤ month
  month_le : month ≤ 12
  first_le_day : 1 ≤ day
  day_le : day ≤ daysInMonth year month

instance (year month day : Int) : Decidable (IsDay year month day) :=
  decidable_of_iff (1 ≤ month ∧ month ≤ 12 ∧ 1 ≤ day ∧ day ≤ daysInMonth year month)
    ⟨fun h => ⟨h.1, h.2.1, h.2.2.1, h.2.2.2⟩,
      fun h => ⟨h.first_le_month, h.month_le, h.first_le_day, h.day_le⟩⟩

/-! ## Counting -/

/-- The days of the first months of a year. -/
def daysOfMonths (year : Int) : Nat → Int
  | 0 => 0
  | months + 1 => daysOfMonths year months + daysInMonth year (months + 1 : Nat)

/-- The days of the first years, from the year zero on. -/
def daysOfYears : Nat → Int
  | 0 => 0
  | years + 1 => daysOfYears years + daysOfMonths years 12

/-- The days that lie before a date, from the start of the year zero on. -/
def dayCount (year month day : Nat) : Int :=
  daysOfYears year + daysOfMonths year (month - 1) + (day - 1)

/-- The lengths of the months from March on repeat after five months, whatever the year. -/
theorem daysOfMonths_eq (year : Int) {month : Nat} (h1 : 1 ≤ month) (h2 : month ≤ 12) :
    daysOfMonths year (month - 1) =
      if month ≤ 2 then 31 * ((month : Int) - 1)
      else daysBeforeMonth (month - 3) + (if IsLeap year then 60 else 59) := by
  have hmonth : month = 1 ∨ month = 2 ∨ month = 3 ∨ month = 4 ∨ month = 5 ∨ month = 6 ∨ month = 7 ∨
      month = 8 ∨ month = 9 ∨ month = 10 ∨ month = 11 ∨ month = 12 := by omega
  by_cases hleap : IsLeap year
  · rcases hmonth with rfl | rfl | rfl | rfl | rfl | rfl | rfl | rfl | rfl | rfl | rfl | rfl <;>
      simp [daysOfMonths, daysInMonth, daysBeforeMonth, hleap]
  · rcases hmonth with rfl | rfl | rfl | rfl | rfl | rfl | rfl | rfl | rfl | rfl | rfl | rfl <;>
      simp [daysOfMonths, daysInMonth, daysBeforeMonth, hleap]

/-- A leap year has one day more than the others. -/
theorem daysOfMonths_twelve (year : Int) :
    daysOfMonths year 12 = if IsLeap year then 366 else 365 := by
  by_cases hleap : IsLeap year <;> simp [daysOfMonths, daysInMonth, hleap]

/-- The days from the start of the year zero to the start of a year, which may lie before it. -/
def yearStart (year : Int) : Int :=
  365 * year + (year + 3) / 4 - (year + 99) / 100 + (year + 399) / 400

/-- A year ends where the next one starts. -/
theorem yearStart_succ (year : Int) :
    yearStart (year + 1) = yearStart year + daysOfMonths year 12 := by
  rw [daysOfMonths_twelve]
  by_cases hleap : IsLeap year
  · rw [if_pos hleap]
    simp only [yearStart, IsLeap] at *
    omega
  · rw [if_neg hleap]
    simp only [yearStart, IsLeap] at *
    omega

/-- The years have 365 days each, and one more for every leap year. -/
theorem daysOfYears_eq (years : Nat) : daysOfYears years = yearStart years := by
  induction years with
  | zero => rfl
  | succ years ih => rw [daysOfYears, ih, Int.natCast_succ, yearStart_succ]

/-- A day number counts the days of the years, of the months and of the month up to the day. -/
theorem epochDay_eq (year : Int) {month : Nat} (h1 : 1 ≤ month) (h2 : month ≤ 12) (day : Int) :
    epochDay year month day = yearStart year + daysOfMonths year (month - 1) + day - 719529 := by
  rw [daysOfMonths_eq year h1 h2]
  simp only [epochDay, daysBeforeYear, yearStart]
  -- January and February count with the year that began in the March before.
  by_cases hmarch : month ≤ 2
  · have hback : ((month : Int) - 3) / 12 = -1 ∧ ((month : Int) - 3) % 12 = month + 9 := by omega
    rw [if_pos hmarch, hback.1, hback.2]
    simp only [daysBeforeMonth]
    omega
  · have hsame : ((month : Int) - 3) / 12 = 0 ∧ ((month : Int) - 3) % 12 = month - 3 := by omega
    rw [if_neg hmarch, hsame.1, hsame.2]
    by_cases hleap : IsLeap year
    · rw [if_pos hleap]
      rw [IsLeap] at hleap
      omega
    · rw [if_neg hleap]
      rw [IsLeap] at hleap
      omega

/-- The day number of a date is the count of the days before it, less those before 1970. -/
theorem epochDay_eq_dayCount (year : Nat) {month : Nat} (h1 : 1 ≤ month) (h2 : month ≤ 12)
    (day : Nat) :
    epochDay year month day = dayCount year month day - dayCount 1970 1 1 := by
  have hstart : dayCount 1970 1 1 = 719528 := by
    simp only [dayCount, daysOfYears_eq]
    rfl
  rw [hstart, dayCount, daysOfYears_eq, epochDay_eq year h1 h2]
  omega

/-! ## Years that begin in March -/

theorem daysBeforeYear_mono {y z : Int} (h : y ≤ z) : daysBeforeYear y ≤ daysBeforeYear z := by
  simp only [daysBeforeYear]
  omega

/-- The year in which a day lies, counted from March, is the only one. -/
theorem year_unique {y z n : Int} (hy : daysBeforeYear y ≤ n) (hy' : n < daysBeforeYear (y + 1))
    (hz : daysBeforeYear z ≤ n) (hz' : n < daysBeforeYear (z + 1)) : y = z := by
  rcases Int.lt_trichotomy y z with hlt | heq | hgt
  · have := daysBeforeYear_mono (show y + 1 ≤ z by omega)
    omega
  · exact heq
  · have := daysBeforeYear_mono (show z + 1 ≤ y by omega)
    omega

theorem daysBeforeYear_inj {y z : Int} (h : daysBeforeYear y = daysBeforeYear z) : y = z := by
  have hnext (x : Int) : daysBeforeYear x < daysBeforeYear (x + 1) := by
    simp only [daysBeforeYear]
    omega
  exact year_unique (Int.le_refl _) (hnext y) (Int.le_of_eq h.symm) (h ▸ hnext z)

/-- The date of a day of a year that begins in March. -/
def ofMarch (y doy : Int) : CivilDate :=
  let mp := (5 * doy + 2) / 153
  ⟨y + (if mp < 10 then 0 else 1), if mp < 10 then mp + 3 else mp - 9, doy - daysBeforeMonth mp + 1⟩

/-- Whether a day lies in a year that begins in March. -/
structure InMarchYear (y doy : Int) : Prop where
  nonneg : 0 ≤ doy
  lt : daysBeforeYear y + doy < daysBeforeYear (y + 1)

/-- The date of a day number is the date of a day of such a year. -/
theorem exists_ofMarch (n : Int) :
    ∃ y doy, InMarchYear y doy ∧ n + 719468 = daysBeforeYear y + doy ∧
      ofEpochDay n = ofMarch y doy := by
  obtain ⟨era, yoe, doy, mp, hy0, hy1, hd0, _, rfl, hn, hnext, heq⟩ := exists_ofEpochDay n
  have hyear := daysBeforeYear_era era hy0 hy1
  have hafter : daysBeforeYear (yoe + era * 400 + 1) = era * 146097 +
      (365 * (yoe + 1) + (yoe + 1) / 4 - (yoe + 1) / 100 + (yoe + 1) / 400) := by
    simp only [daysBeforeYear]
    omega
  exact ⟨yoe + era * 400, doy, ⟨hd0, by omega⟩, by omega, heq⟩

/-- The months up to January have the same length in every year. -/
theorem daysInMonth_march (year : Int) {mp : Int} (h0 : 0 ≤ mp) (h1 : mp ≤ 10) :
    daysInMonth year (if mp < 10 then mp + 3 else mp - 9) =
      daysBeforeMonth (mp + 1) - daysBeforeMonth mp := by
  have hmp : mp = 0 ∨ mp = 1 ∨ mp = 2 ∨ mp = 3 ∨ mp = 4 ∨ mp = 5 ∨ mp = 6 ∨ mp = 7 ∨ mp = 8 ∨
      mp = 9 ∨ mp = 10 := by omega
  rcases hmp with rfl | rfl | rfl | rfl | rfl | rfl | rfl | rfl | rfl | rfl | rfl <;> rfl

/-- The last day of a year that begins in March is the leap day. -/
theorem InMarchYear.last {y doy : Int} (h : InMarchYear y doy) :
    doy ≤ 364 ∨ doy = 365 ∧ IsLeap (y + 1) := by
  have hlt := h.lt
  simp only [daysBeforeYear] at hlt
  simp only [IsLeap]
  omega

/-- The date of a day of a year is one that there is. -/
theorem isDay_ofMarch {y doy : Int} (h : InMarchYear y doy) :
    IsDay (ofMarch y doy).year (ofMarch y doy).month (ofMarch y doy).day := by
  have h0 := h.nonneg
  have hlast := h.last
  simp only [ofMarch]
  generalize hmp : (5 * doy + 2) / 153 = mp
  refine ⟨by split <;> omega, by split <;> omega, by simp only [daysBeforeMonth]; omega, ?_⟩
  by_cases hfebruary : mp = 11
  · subst hfebruary
    have hlength : daysInMonth (y + 1) 2 = if IsLeap (y + 1) then 29 else 28 := rfl
    change doy - 337 + 1 ≤ daysInMonth (y + 1) 2
    rw [hlength]
    rcases hlast with hless | ⟨hlast, hleap⟩
    · split <;> omega
    · rw [if_pos hleap]
      omega
  -- every other month ends where the next one begins
  · rw [daysInMonth_march _ (by omega) (by omega)]
    simp only [daysBeforeMonth]
    omega

/-! ## Dates of day numbers -/

theorem isDay_ofEpochDay (n : Int) :
    IsDay (ofEpochDay n).year (ofEpochDay n).month (ofEpochDay n).day := by
  obtain ⟨y, doy, hin, _, heq⟩ := exists_ofMarch n
  rw [heq]
  exact isDay_ofMarch hin

/-- A day that there is lies before the next month, and before the leap day if there is none. -/
theorem IsDay.lt_next {year mp day : Int} (h0 : 0 ≤ mp) (h1 : mp ≤ 11)
    (h : IsDay year (if mp < 10 then mp + 3 else mp - 9) day) :
    daysBeforeMonth mp + day ≤ daysBeforeMonth (mp + 1) ∧
      (daysBeforeMonth mp + day ≤ 365 ∨
        mp = 11 ∧ daysBeforeMonth mp + day = 366 ∧ IsLeap year) := by
  have hday := h.day_le
  by_cases hfebruary : mp = 11
  · subst hfebruary
    have hlength : daysInMonth year 2 = if IsLeap year then 29 else 28 := rfl
    change day ≤ daysInMonth year 2 at hday
    change 337 + day ≤ 367 ∧ (337 + day ≤ 365 ∨ (11 : Int) = 11 ∧ 337 + day = 366 ∧ IsLeap year)
    rw [hlength] at hday
    split at hday
    · rename_i hleap
      by_cases hlast : day = 29
      · exact ⟨by omega, Or.inr ⟨rfl, by omega, hleap⟩⟩
      · exact ⟨by omega, Or.inl (by omega)⟩
    · exact ⟨by omega, Or.inl (by omega)⟩
  · rw [daysInMonth_march _ h0 (by omega)] at hday
    simp only [daysBeforeMonth] at *
    omega

/-- A date that there is lies in the year that begins in the March before it. -/
theorem exists_march_of_isDay {year month day : Int} (h : IsDay year month day) :
    ∃ y doy, InMarchYear y doy ∧ epochDay year month day + 719468 = daysBeforeYear y + doy ∧
      ofMarch y doy = ⟨year, month, day⟩ := by
  have hm1 := h.first_le_month
  have hm2 := h.month_le
  have hd1 := h.first_le_day
  obtain ⟨mp, hmp⟩ : ∃ mp, (month - 3) % 12 = mp := ⟨_, rfl⟩
  have hyear : (month - 3) / 12 = if mp < 10 then 0 else -1 := by
    split <;> omega
  obtain rfl : month = if mp < 10 then mp + 3 else mp - 9 := by
    split <;> omega
  obtain ⟨hnext, hlast⟩ := IsDay.lt_next (by omega) (by omega) h
  have hfound : (5 * (daysBeforeMonth mp + day - 1) + 2) / 153 = mp := by
    simp only [daysBeforeMonth] at *
    omega
  have hpos : 0 ≤ daysBeforeMonth mp := by
    simp only [daysBeforeMonth]
    omega
  refine ⟨year + (if mp < 10 then 0 else -1), daysBeforeMonth mp + day - 1, ⟨by omega, ?_⟩, ?_, ?_⟩
  · simp only [daysBeforeYear, IsLeap] at *
    split <;> omega
  · simp only [epochDay, hmp, hyear]
    omega
  · simp only [ofMarch, hfound, mk.injEq, true_and]
    split <;> omega

/-- A date that there is, is found from its day number. -/
theorem ofEpochDay_epochDay {year month day : Int} (h : IsDay year month day) :
    ofEpochDay (epochDay year month day) = ⟨year, month, day⟩ := by
  obtain ⟨y, doy, hin, hn, hdate⟩ := exists_march_of_isDay h
  obtain ⟨z, doz, hin', hn', hfound⟩ := exists_ofMarch (epochDay year month day)
  have hy0 := hin.nonneg
  have hy1 := hin.lt
  have hz0 := hin'.nonneg
  have hz1 := hin'.lt
  obtain rfl : y = z := year_unique (n := epochDay year month day + 719468) (by omega) (by omega)
    (by omega) (by omega)
  obtain rfl : doy = doz := by omega
  rw [hfound, hdate]

/-- A month and a day are found again from the day number just if there is such a date: from every
other month or day one counts on to another month or another day. -/
theorem sameMonthDay_iff {year month day : Int} :
    (ofEpochDay (epochDay year month day)).month = month ∧
      (ofEpochDay (epochDay year month day)).day = day ↔ IsDay year month day := by
  constructor
  · rintro ⟨hmonth, hday⟩
    have hisDay := isDay_ofEpochDay (epochDay year month day)
    have hcount := epochDay_ofEpochDay (epochDay year month day)
    rw [hmonth, hday] at hisDay hcount
    generalize ofEpochDay (epochDay year month day) = found at *
    have hyear : found.year = year := by
      simp only [epochDay] at hcount
      have := daysBeforeYear_inj (y := found.year + (month - 3) / 12) (z := year + (month - 3) / 12)
        (by omega)
      omega
    rwa [hyear] at hisDay
  · intro h
    rw [ofEpochDay_epochDay h]
    exact ⟨rfl, rfl⟩

/-- The last day of February counts on to March in the full centuries that are no leap years. -/
example : IsDay 2000 2 29 ∧ ¬IsDay 1900 2 29 ∧ ofEpochDay (epochDay 1900 2 29) = ⟨1900, 3, 1⟩ := by
  decide

end WarehouseRows.CivilDate

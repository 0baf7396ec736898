import WarehouseRows.Proofs.AcceptedDates
import WarehouseRows.Proofs.NormalNumbers

/-!
# Dates and counts of days

A date is found from a count of days by way of an instant, and counted back by way of another one.
Within the range of instants every product on the way is an integer of 53 bits, so nothing is
rounded. The date of a count is then the date of the calendar with this day number, and the counts
and the dates of the calendar are numbered by each other in one order.

## Main definitions

* `LocalDate.ofCivil`: a calendar day as a date.
* `LocalDate.Precedes`: the order of dates.

## Main results

* `LocalDate.ofDayCount_eq`: the date of a count of days.
* `LocalDate.dayCount_isOrderIso`: counts to dates, dates to counts, and their orders.
-/

namespace WarehouseRows

/-! ## Exact products -/

namespace Double

theorem truncated?_of_whole? {x : Double} {n : Int} (h : x.whole? = some n) :
    x.truncated? = some n := by
  cases x with
  | nan => exact absurd h (by simp [whole?])
  | infinity => exact absurd h (by simp [whole?])
  | finite negative m e =>
    obtain ⟨-, rfl⟩ := whole?_eq_some.mp h
    rfl

/-- A fraction that is an integer of at most 53 bits is rounded to this integer. -/
theorem truncated?_ofRatio_mul {n den : Nat} (hden : 0 < den) (hbits : n < 2 ^ 53)
    (negative : Bool) : (ofRatio negative (n * den) den).truncated? = some (signed negative n) := by
  have hreduced : ofRatio negative (n * den) den = ofRatio negative n 1 := by
    have hnearest := nearest_mul_right n Nat.one_ne_zero hden
    rw [Nat.one_mul] at hnearest
    rw [ofRatio, ofRatio, hnearest]
  rw [hreduced]
  by_cases hzero : n = 0
  · have hnearest : binary64.nearest 0 1 = some (0, -1074) := rfl
    rw [hzero, ofRatio, hnearest, truncated?, ratio_zero_fst, Nat.zero_div]
  · rw [← ofInt_signed hzero]
    apply truncated?_of_whole?
    apply whole?_ofInt
    rwa [natAbs_signed]

/-- The product of two integers is exact as long as it has at most 53 bits. -/
theorem truncated?_timesNat {x : Double} {n : Int} (h : x.whole? = some n) {k : Nat}
    (hbits : n.natAbs * k < 2 ^ 53) : (x.timesNat k).truncated? = some (n * k) := by
  cases x with
  | nan => exact absurd h (by simp [whole?])
  | infinity => exact absurd h (by simp [whole?])
  | finite negative m e =>
    obtain ⟨hratio, rfl⟩ := whole?_eq_some.mp h
    rw [natAbs_signed] at hbits
    have hproduct :
        signed negative (integerPart m e) * k = signed negative (integerPart m e * k) := by
      cases negative with
      | false => rfl
      | true => exact Int.neg_mul _ _
    rw [timesNat, hratio, Nat.mul_right_comm, truncated?_ofRatio_mul (ratio_pos m e) hbits,
      hproduct]

end Double

namespace LocalDate

/-! ## Counting -/

/-- The date of a calendar day. -/
def ofCivil (date : CivilDate) : LocalDate :=
  .on (.ofInt date.year) date.month date.day

/-- Within the range, a count of days gives the calendar day with this day number. -/
theorem ofDayCount_eq {x : Double} {days : Int} (h : x.whole? = some days)
    (hrange : days.natAbs ≤ Instant.maxDays) :
    ofDayCount x = ofCivil (CivilDate.ofEpochDay days) := by
  simp only [Instant.maxDays] at hrange
  have hbits : days.natAbs * Instant.millisPerDay < 2 ^ 53 := by
    simp only [Instant.millisPerDay]
    omega
  have hmillis : Instant.ofMillis (days * Instant.millisPerDay) =
      .at (days * Instant.millisPerDay) := by
    apply if_pos
    simp only [Instant.millisPerDay, Instant.maxDays]
    omega
  have hday : days * Instant.millisPerDay / Instant.millisPerDay = days :=
    Int.mul_ediv_cancel _ (by decide)
  simp only [ofDayCount, Instant.ofNumber, Double.truncated?_timesNat h hbits, hmillis, ofInstant,
    Instant.clock, hday]
  rfl

/-- A calendar day is counted by its day number. -/
theorem toDayCount_ofCivil (date : CivilDate) :
    (ofCivil date).toDayCount = Double.ofInt date.dayNumber := rfl

/-- A date of the calendar is found again from its count, but for the minus sign of the year
zero. -/
theorem ofDayCount_toDayCount {year : Whole} {month day : Int}
    (h : CivilDate.InCalendar ⟨year.toInt, month, day⟩) :
    ofDayCount (toDayCount (.on year month day)) = plain (.on year month day) := by
  obtain ⟨hdate, hrange⟩ := CivilDate.inCalendar_iff.mp h
  have hbits : (CivilDate.dayNumber ⟨year.toInt, month, day⟩).natAbs < 2 ^ 53 := by
    simp only [Instant.maxDays] at hrange
    omega
  have hcount : toDayCount (.on year month day) =
      Double.ofInt (CivilDate.dayNumber ⟨year.toInt, month, day⟩) := rfl
  rw [hcount, ofDayCount_eq (Double.whole?_ofInt hbits) hrange,
    CivilDate.ofEpochDay_dayNumber hdate]
  rfl

/-! ## The order -/

/-- Whether a date comes before another one. The invalid date has no place among the others. -/
def Precedes : LocalDate → LocalDate → Prop
  | .on year month day, .on year' month' day' =>
    CivilDate.Precedes ⟨year.toInt, month, day⟩ ⟨year'.toInt, month', day'⟩
  | _, _ => False

/-- Each count of days within the range gives a date that there is and that is counted back to it.
Each date that is accepted has a count within the range, from which it is found again. And the
counts are in the order of their dates. -/
theorem dayCount_isOrderIso :
    (∀ {x : Double} {days : Int}, x.whole? = some days → days.natAbs ≤ Instant.maxDays →
      ∃ date : CivilDate, date.IsDate ∧ ofDayCount x = ofCivil date ∧
        (ofDayCount x).toDayCount = Double.ofInt days) ∧
    (∀ {x y z : Double} {date : LocalDate}, ofParts x y z = .ok date →
      ∃ days : Int, days.natAbs ≤ Instant.maxDays ∧ date.toDayCount = Double.ofInt days ∧
        (ofDayCount date.toDayCount).same date = true) ∧
    ∀ {x y : Double} {days days' : Int}, x.whole? = some days → y.whole? = some days' →
      days.natAbs ≤ Instant.maxDays → days'.natAbs ≤ Instant.maxDays →
      (days < days' ↔ (ofDayCount x).Precedes (ofDayCount y)) := by
  refine ⟨?_, ?_, ?_⟩
  · intro x days hx hrange
    refine ⟨CivilDate.ofEpochDay days, CivilDate.isDate_ofEpochDay days,
      ofDayCount_eq hx hrange, ?_⟩
    rw [ofDayCount_eq hx hrange, toDayCount_ofCivil, CivilDate.dayNumber_ofEpochDay]
  · intro x y z date h
    obtain ⟨year, month, day, -, -, -, hdate, rfl⟩ := ofParts_eq_ok.mp h
    refine ⟨CivilDate.dayNumber ⟨year.toInt, month.toInt, day.toInt⟩,
      (CivilDate.inCalendar_iff.mp hdate).2, rfl, ?_⟩
    rw [ofDayCount_toDayCount hdate]
    simp [plain, same]
  · intro x y days days' hx hy hrange hrange'
    rw [ofDayCount_eq hx hrange, ofDayCount_eq hy hrange']
    have hless := CivilDate.dayNumber_lt_iff (CivilDate.isDate_ofEpochDay days)
      (CivilDate.isDate_ofEpochDay days')
    rwa [CivilDate.dayNumber_ofEpochDay, CivilDate.dayNumber_ofEpochDay] at hless

/-- The leap day of the year 2000 and its count, 11016, and the day before the first of 1970, which
comes before it. -/
theorem dayCount_isOrderIso_leapDay :
    (Double.ofInt 11016).whole? = some 11016 ∧ (11016 : Int).natAbs ≤ Instant.maxDays ∧
      (ofDayCount (.ofInt 11016)).toDayCount = Double.ofInt 11016 ∧
      ofParts (.ofInt 2000) (.ofInt 2) (.ofInt 29) = .ok (.on (.ofInt 2000) 2 29) ∧
      (ofDayCount (toDayCount (.on (.ofInt 2000) 2 29))).same (.on (.ofInt 2000) 2 29) = true ∧
      (Double.ofInt (-1)).whole? = some (-1) ∧
      (ofDayCount (.ofInt (-1))).Precedes (ofDayCount (.ofInt 11016)) := by
  have hleap : (Double.ofInt 11016).whole? = some 11016 := Double.whole?_ofInt (by decide)
  have hbefore : (Double.ofInt (-1)).whole? = some (-1) := Double.whole?_ofInt (by decide)
  have hparts : ofParts (.ofInt 2000) (.ofInt 2) (.ofInt 29) = .ok (.on (.ofInt 2000) 2 29) :=
    ofParts_eq_ok.mpr ⟨.ofInt 2000, .ofInt 2, .ofInt 29, Double.ofDouble?_ofInt (by decide),
      Double.ofDouble?_ofInt (by decide), Double.ofDouble?_ofInt (by decide), by decide, rfl⟩
  obtain ⟨-, -, -, hcount⟩ := dayCount_isOrderIso.1 hleap (by decide)
  obtain ⟨-, -, -, hback⟩ := dayCount_isOrderIso.2.1 hparts
  exact ⟨hleap, by decide, hcount, hparts, hback, hbefore,
    (dayCount_isOrderIso.2.2 hbefore hleap (by decide) (by decide)).mp (by decide)⟩

end LocalDate

end WarehouseRows

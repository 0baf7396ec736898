import WarehouseRows.Calendar.LocalDate

/-!
# Counting days

A date found from a day number counts back to that number, and its month and day are
those of a calendar. The calendar repeats after an era of 400 years; within an era the
argument goes by centuries, of which the last has one day more.
-/

namespace WarehouseRows.CivilDate

/-- The day of the year, counted from March, for the day `doe` of an era. The quotient
that gives the year is off by less than the leap days that it leaves out. -/
theorem dayOfYear_bounds {doe yoe : Int} (h0 : 0 ≤ doe) (h1 : doe < 146097)
    (hy : yoe = (doe - doe / 1460 + doe / 36524 - doe / 146096) / 365) :
    0 ≤ doe - (365 * yoe + yoe / 4 - yoe / 100) ∧
      doe - (365 * yoe + yoe / 4 - yoe / 100) ≤ 365 := by
  -- Of the quotient only its two bounds are used.
  have hhigh : doe - doe / 1460 + doe / 36524 - doe / 146096 < 365 * (yoe + 1) := by omega
  have hlow : 365 * yoe ≤ doe - doe / 1460 + doe / 36524 - doe / 146096 := by omega
  clear hy
  have hcentury : doe / 36524 = 0 ∨ doe / 36524 = 1 ∨ doe / 36524 = 2 ∨ doe / 36524 = 3 ∨
      doe / 36524 = 4 := by omega
  rcases hcentury with h | h | h | h | h
  · have : yoe / 100 = 0 := by omega
    omega
  · have : yoe / 100 = 1 := by omega
    omega
  · have : yoe / 100 = 2 := by omega
    omega
  · have : yoe / 100 = 3 := by omega
    omega
  -- The last day of the era is the only one that lies four full centuries behind its start.
  · have : yoe / 100 = 3 := by omega
    omega

/-- The day `doe` of an era lies before the year that follows its own. -/
theorem lt_daysBefore_next {doe yoe : Int} (h0 : 0 ≤ doe) (h1 : doe < 146097)
    (hy : yoe = (doe - doe / 1460 + doe / 36524 - doe / 146096) / 365) :
    doe < 365 * (yoe + 1) + (yoe + 1) / 4 - (yoe + 1) / 100 + (yoe + 1) / 400 := by
  have hhigh : doe - doe / 1460 + doe / 36524 - doe / 146096 < 365 * (yoe + 1) := by omega
  have hlow : 365 * yoe ≤ doe - doe / 1460 + doe / 36524 - doe / 146096 := by omega
  clear hy
  have hleap : doe / 1460 ≤ (yoe + 1) / 4 := by omega
  have hcentury : (yoe + 1) / 100 ≤ doe / 36524 ∨ yoe + 1 = 100 ∨ yoe + 1 = 200 ∨ yoe + 1 = 300 ∨
      yoe + 1 = 400 := by omega
  have hera : doe / 146096 ≤ (yoe + 1) / 400 := by omega
  omega

theorem yearOfEra_bounds {doe yoe : Int} (h0 : 0 ≤ doe) (h1 : doe < 146097)
    (hy : yoe = (doe - doe / 1460 + doe / 36524 - doe / 146096) / 365) :
    0 ≤ yoe ∧ yoe ≤ 399 := by
  omega

/-- What the date of a day number is made of: an era, a year of the era, a day of that
year and a month counted from March. The day lies before the next year. -/
theorem exists_ofEpochDay (n : Int) :
    ∃ era yoe doy mp : Int, 0 ≤ yoe ∧ yoe ≤ 399 ∧ 0 ≤ doy ∧ doy ≤ 365 ∧ mp = (5 * doy + 2) / 153 ∧
      n + 719468 = era * 146097 + (365 * yoe + yoe / 4 - yoe / 100) + doy ∧
      n + 719468 < era * 146097 +
        (365 * (yoe + 1) + (yoe + 1) / 4 - (yoe + 1) / 100 + (yoe + 1) / 400) ∧
      ofEpochDay n = ⟨yoe + era * 400 + (if mp < 10 then 0 else 1),
        if mp < 10 then mp + 3 else mp - 9, doy - daysBeforeMonth mp + 1⟩ := by
  have hdoe : 0 ≤ (n + 719468) % 146097 ∧ (n + 719468) % 146097 < 146097 := by omega
  have hera : n + 719468 = (n + 719468) / 146097 * 146097 + (n + 719468) % 146097 := by omega
  generalize hdef : (n + 719468) % 146097 = doe at hdoe hera
  generalize hyoe : (doe - doe / 1460 + doe / 36524 - doe / 146096) / 365 = yoe
  obtain ⟨hy0, hy1⟩ := yearOfEra_bounds hdoe.1 hdoe.2 hyoe.symm
  obtain ⟨hd0, hd1⟩ := dayOfYear_bounds hdoe.1 hdoe.2 hyoe.symm
  have hnext := lt_daysBefore_next hdoe.1 hdoe.2 hyoe.symm
  generalize hdoy : doe - (365 * yoe + yoe / 4 - yoe / 100) = doy at hd0 hd1
  refine ⟨(n + 719468) / 146097, yoe, doy, (5 * doy + 2) / 153, hy0, hy1, hd0, hd1, rfl,
    ?_, ?_, ?_⟩
  · clear hyoe
    omega
  · clear hyoe
    omega
  simp only [ofEpochDay, hdef, hyoe, hdoy]
  clear hyoe
  have hmonth : (if (5 * doy + 2) / 153 < 10 then (5 * doy + 2) / 153 + 3
      else (5 * doy + 2) / 153 - 9) ≤ 2 ↔ ¬ (5 * doy + 2) / 153 < 10 := by
    split <;> omega
  by_cases hmp : (5 * doy + 2) / 153 < 10
  · simp [hmp]
    omega
  · simp [hmp]
    omega

theorem daysBeforeYear_era (era : Int) {yoe : Int} (h0 : 0 ≤ yoe) (h1 : yoe ≤ 399) :
    daysBeforeYear (yoe + era * 400) = era * 146097 + (365 * yoe + yoe / 4 - yoe / 100) := by
  simp only [daysBeforeYear]
  omega

/-- Counting to the date of a day number gives the number back. -/
theorem epochDay_ofEpochDay (n : Int) :
    epochDay (ofEpochDay n).year (ofEpochDay n).month (ofEpochDay n).day = n := by
  obtain ⟨era, yoe, doy, mp, hy0, hy1, hd0, hd1, hmp, hn, _, heq⟩ := exists_ofEpochDay n
  have hyear := daysBeforeYear_era era hy0 hy1
  have hmp0 : 0 ≤ mp ∧ mp ≤ 11 := by omega
  simp only [heq, epochDay]
  -- January and February belong to the year that began in the March before.
  by_cases hmonth : mp < 10
  · have hq : (mp + 3 - 3) / 12 = 0 ∧ (mp + 3 - 3) % 12 = mp := by omega
    simp only [hmonth, if_true, hq, Int.add_zero, hyear]
    omega
  · have hq : (mp - 9 - 3) / 12 = -1 ∧ (mp - 9 - 3) % 12 = mp := by omega
    have hback : yoe + era * 400 + 1 + -1 = yoe + era * 400 := by omega
    simp only [hmonth, if_false, hq, hback, hyear]
    omega

theorem month_ofEpochDay (n : Int) : 1 ≤ (ofEpochDay n).month ∧ (ofEpochDay n).month ≤ 12 := by
  obtain ⟨era, yoe, doy, mp, hy0, hy1, hd0, hd1, hmp, hn, _, heq⟩ := exists_ofEpochDay n
  simp only [heq]
  split <;> omega

theorem day_ofEpochDay (n : Int) : 1 ≤ (ofEpochDay n).day ∧ (ofEpochDay n).day ≤ 31 := by
  obtain ⟨era, yoe, doy, mp, hy0, hy1, hd0, hd1, hmp, hn, _, heq⟩ := exists_ofEpochDay n
  simp only [heq, daysBeforeMonth]
  omega

end WarehouseRows.CivilDate

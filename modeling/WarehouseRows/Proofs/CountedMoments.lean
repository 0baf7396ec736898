import WarehouseRows.Row.Format
import WarehouseRows.Proofs.AcceptedDates
import WarehouseRows.Proofs.CalendarRange
import WarehouseRows.Proofs.Rounding

/-!
# Instants and dates from counts

An instant is found from a count of milliseconds and a date from a count of days; nothing checks
the count, so beyond the range of instants the instant and the date are the invalid ones. Days and
seconds are first scaled to milliseconds, as binary64 numbers. The bound is an integer of 53 bits
there, so the rounded product is within it just if the count is: days are whole, and a number of
seconds beyond the bound is too far beyond for the product to be rounded back.

## Main definitions

* `Instant.IsValid`: the instants in the range.
* `LocalDate.IsAccepted`: the dates that their parts build again.
* `Double.Within`: numbers up to a bound.
-/

namespace WarehouseRows

/-- Whether an instant is in the range of instants. -/
def Instant.IsValid : Instant → Prop
  | .invalid => False
  | .at millis => millis.natAbs ≤ maxDays * millisPerDay

/-- Whether the parts of a date build this date. -/
def LocalDate.IsAccepted (date : LocalDate) : Prop :=
  ofParts date.parts.1 date.parts.2.1 date.parts.2.2 = .ok date

/-- Whether a number lies between an integer and its negative. -/
def Double.Within (bound : Nat) : Double → Prop
  | .finite _ m e => (ratio m e).1 ≤ bound * (ratio m e).2
  | _ => False

instance (bound : Nat) : DecidablePred (Double.Within bound)
  | .nan | .infinity _ => inferInstanceAs (Decidable False)
  | .finite _ m e =>
    inferInstanceAs (Decidable ((Double.ratio m e).1 ≤ bound * (Double.ratio m e).2))

/-! ## Milliseconds -/

namespace Instant

theorem isValid_ofMillis {millis : Int} :
    (ofMillis millis).IsValid ↔ millis.natAbs ≤ maxDays * millisPerDay := by
  rw [ofMillis]
  split
  · rfl
  · rename_i hbeyond
    exact iff_of_false id hbeyond

theorem isValid_ofNumber {negative : Bool} {m : Nat} {e : Int} :
    (ofNumber (.finite negative m e)).IsValid ↔
      Double.integerPart m e ≤ maxDays * millisPerDay := by
  change (ofMillis (Double.signed negative (Double.integerPart m e))).IsValid ↔ _
  rw [isValid_ofMillis, Double.natAbs_signed]

/-- An instant that a number gives is in the range if it is not the invalid one. -/
theorem isValid_of_ofNumber {x : Double} {millis : Int} (h : ofNumber x = .at millis) :
    (Instant.at millis).IsValid := by
  rw [ofNumber] at h
  split at h
  · rw [ofMillis] at h
    split at h
    · rename_i hrange
      rw [← h]
      exact hrange
    · exact absurd h (by simp)
  · exact absurd h (by simp)

/-- A fraction of milliseconds, not within a half above the bound, gives a valid instant just if
it is within the bound. -/
theorem isValid_ofRatio {negative : Bool} {num den : Nat} (hden : den ≠ 0)
    (hgap : num ≤ maxDays * millisPerDay * den ∨
      (2 * (maxDays * millisPerDay) + 1) * den < 2 * num) :
    (ofNumber (Double.ofRatio negative num den)).IsValid ↔
      num ≤ maxDays * millisPerDay * den := by
  have hlow : 4503599627370496 ≤ maxDays * millisPerDay := by decide
  have hhigh : maxDays * millisPerDay < 9007199254740992 := by decide
  rcases hgap with h | h
  · obtain ⟨m, e, hnearest, hpart⟩ := Double.integerPart_nearest_le hhigh hden h
    rw [Double.ofRatio, hnearest]
    exact iff_of_true (isValid_ofNumber.mpr hpart) h
  · have hbeyond : ¬ num ≤ maxDays * millisPerDay * den := by
      rw [Nat.add_mul, Nat.mul_assoc] at h
      omega
    rw [Double.ofRatio]
    cases hnearest : binary64.nearest num den with
    | none => exact iff_of_false id hbeyond
    | some number =>
      have hpart := Double.lt_integerPart_nearest hlow hhigh hden h hnearest
      exact iff_of_false (fun hvalid => absurd (isValid_ofNumber.mp hvalid) (Nat.not_le.mpr hpart))
        hbeyond

/-! ## Days and seconds -/

/-- A count of days gives a valid instant just if the count is in the range. -/
theorem isValid_ofDays {x : Double} {days : Int} (h : x.whole? = some days) :
    (ofNumber (x.timesNat millisPerDay)).IsValid ↔ days.natAbs ≤ maxDays := by
  cases x with
  | nan => exact absurd h (by simp [Double.whole?])
  | infinity => exact absurd h (by simp [Double.whole?])
  | finite negative m e =>
    have hpos := Double.ratio_pos m e
    have hparts := Nat.div_add_mod (Double.ratio m e).1 (Double.ratio m e).2
    simp only [Double.whole?] at h
    split at h
    · rename_i hwhole
      have hdays : days.natAbs = (Double.ratio m e).1 / (Double.ratio m e).2 := by
        rw [← Option.some.inj h, Double.natAbs_signed]
      rw [hwhole, ← hdays, Nat.add_zero] at hparts
      rw [Double.timesNat, ← hparts]
      generalize (Double.ratio m e).2 = den at hpos
      generalize days.natAbs = count
      have hproduct : den * count * millisPerDay = count * millisPerDay * den := by
        rw [Nat.mul_comm den, Nat.mul_right_comm]
      rw [hproduct, isValid_ofRatio (Nat.ne_of_gt hpos)]
      · rw [Nat.mul_le_mul_right_iff hpos]
        exact Nat.mul_le_mul_right_iff (by decide)
      · by_cases hcount : count ≤ maxDays
        · exact Or.inl (Nat.mul_le_mul_right _ (Nat.mul_le_mul_right _ hcount))
        · refine Or.inr ?_
          rw [← Nat.mul_assoc 2 (count * millisPerDay)]
          refine Nat.mul_lt_mul_of_pos_right ?_ hpos
          simp only [maxDays, millisPerDay] at hcount ⊢
          omega
    · exact absurd h (by simp)

/-- A finite number of seconds, with no more bits than a number has, gives a valid instant just
if it is in the range. -/
theorem isValid_ofSeconds {negative : Bool} {m : Nat} {e : Int} (hbits : m < 9007199254740992) :
    (ofNumber ((Double.finite negative m e).timesNat 1000)).IsValid ↔
      (Double.finite negative m e).Within (maxDays * 86400) := by
  have hpos := Double.ratio_pos m e
  have hunits : (Double.ratio m e).2 = 1 ∨ (Double.ratio m e).1 < 9007199254740992 := by
    rw [Double.ratio]
    split
    · exact Or.inl rfl
    · exact Or.inr hbits
  rw [Double.timesNat, Double.Within, isValid_ofRatio (Nat.ne_of_gt hpos)]
  · simp only [maxDays, millisPerDay]
    omega
  -- A number beyond the bound has few bits behind the point, so it is beyond by some of them.
  · simp only [maxDays, millisPerDay]
    omega

end Instant

/-! ## Real dates -/

namespace LocalDate

theorem isReal_of_ofParts {year month day : Double} {date : LocalDate}
    (h : ofParts year month day = .ok date) : date.IsReal := by
  obtain ⟨_, _, _, -, -, -, hcalendar, rfl⟩ := ofParts_eq_ok.mp h
  exact isReal_iff.mpr hcalendar

theorem year_of_isReal {year month day : Int} (h : isReal year month day = true) :
    year.natAbs < 1000000 := by
  simp only [isReal, Bool.and_eq_true, beq_iff_eq, decide_eq_true_eq] at h
  obtain ⟨hrange, hdate⟩ := h
  generalize CivilDate.epochDay year month day = n at hrange hdate
  obtain ⟨era, yoe, doy, mp, hy0, hy1, hd0, hd1, _, hn, _, heq⟩ := CivilDate.exists_ofEpochDay n
  obtain ⟨hyear, _, _⟩ := CivilDate.mk.inj (heq.symm.trans hdate)
  rw [← hyear]
  simp only [Instant.maxDays] at hrange
  split <;> omega

/-- The dates that are accepted are the real ones. -/
theorem isAccepted_iff_isReal {date : LocalDate} : date.IsAccepted ↔ date.IsReal := by
  refine ⟨isReal_of_ofParts, fun hreal => ?_⟩
  cases date with
  | invalid => exact absurd hreal id
  | on year month day =>
    have hdate : isReal year.toInt month day = true := hreal
    obtain ⟨hmonth, hday⟩ := bounds_of_isReal hdate
    have hyear := year_of_isReal hdate
    exact ofParts_eq_ok.mpr ⟨year, .ofInt month, .ofInt day,
      Whole.ofDouble?_toDouble (Nat.lt_trans hyear (by decide)), Double.ofDouble?_ofInt (by omega),
      Double.ofDouble?_ofInt (by omega), isReal_iff.mp hdate, rfl⟩

/-- The date of a valid instant is real. -/
theorem isReal_ofInstant {t : Instant} (h : t.IsValid) : (ofInstant t).IsReal := by
  cases t with
  | invalid => exact absurd h id
  | «at» millis =>
    simp only [Instant.IsValid, Instant.maxDays, Instant.millisPerDay] at h
    simp only [ofInstant, IsReal, Instant.clock, Whole.toInt_ofInt, isReal,
      CivilDate.epochDay_ofEpochDay, Bool.and_eq_true, beq_self_eq_true, and_true,
      decide_eq_true_eq, Instant.maxDays, Instant.millisPerDay]
    omega

/-- The date of a count of days is accepted just if the count is in the range. -/
theorem isAccepted_ofDayCount {x : Double} {days : Int} (h : x.whole? = some days) :
    (ofDayCount x).IsAccepted ↔ days.natAbs ≤ Instant.maxDays := by
  rw [← Instant.isValid_ofDays h, isAccepted_iff_isReal, ofDayCount]
  refine ⟨fun hreal => ?_, isReal_ofInstant⟩
  cases hinstant : Instant.ofNumber (x.timesNat Instant.millisPerDay) with
  | invalid =>
    rw [hinstant] at hreal
    exact hreal
  | «at» millis => exact Instant.isValid_of_ofNumber hinstant

end LocalDate

/-! ## Texts -/

namespace Timestamp

/-- The fixed text of an instant has a year of four digits, so it denotes a valid instant. -/
theorem isValid_of_parse {text : String} {t : Instant} (h : parse text = .ok t) : t.IsValid := by
  rw [parse] at h
  split at h
  · rename_i read hread
    obtain rfl := Except.ok.inj h
    obtain ⟨f, hf, hread⟩ := Option.bind_eq_some_iff.mp hread
    obtain ⟨hyear, hmilli⟩ := bounds_of_readFields? hf
    simp only [ofFields?] at hread
    split at hread
    · rename_i hbounds
      obtain rfl := Option.some.inj hread
      obtain ⟨hhour, hminute, hsecond, hmonth, hday⟩ := hbounds
      have hmonths := CivilDate.month_ofEpochDay
        (Instant.millisOf (CivilDate.epochDay f.year f.month f.day) f.hour f.minute f.second f.milli /
          Instant.millisPerDay)
      have hdays := CivilDate.day_ofEpochDay
        (Instant.millisOf (CivilDate.epochDay f.year f.month f.day) f.hour f.minute f.second f.milli /
          Instant.millisPerDay)
      simp only [Instant.clock] at hmonth hday
      rw [hmonth] at hmonths
      rw [hday] at hdays
      have hcount : -719528 ≤ CivilDate.epochDay f.year f.month f.day ∧
          CivilDate.epochDay f.year f.month f.day < 2932928 := by
        simp only [CivilDate.epochDay, CivilDate.daysBeforeYear, CivilDate.daysBeforeMonth]
        omega
      simp only [Instant.IsValid, Instant.millisOf, Instant.maxDays, Instant.millisPerDay]
      omega
    · exact absurd hread (by simp)
  · exact absurd h (by simp)

/-- The seconds in a text give a valid instant just if they are in the range. -/
theorem isValid_of_parseEpochSeconds {text : String} {t : Instant}
    (h : parseEpochSeconds text = .ok t) :
    t.IsValid ↔ (Double.ofText text).Within (Instant.maxDays * 86400) := by
  simp only [parseEpochSeconds] at h
  split at h
  · exact absurd h (by simp [Double.isFinite])
  · cases hseconds : Double.ofText text with
    | nan => exact absurd h (by simp [hseconds, Double.isFinite])
    | infinity => exact absurd h (by simp [hseconds, Double.isFinite])
    | finite negative m e =>
      rw [hseconds, Double.isFinite, if_pos rfl] at h
      obtain rfl := Except.ok.inj h
      exact Instant.isValid_ofSeconds (Double.significand_lt_of_ofText hseconds)

end Timestamp

end WarehouseRows

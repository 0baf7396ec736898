import WarehouseRows.Proofs.CalendarText
import WarehouseRows.Proofs.DateOrder

/-!
# Dates that are accepted

A year, a month and a day are accepted if they come back from their day number, and this is in the
range. No rule of the calendar is asked; still it is just the dates of the calendar that come back,
from its first to its last date. Text is read just if it is in the layout of dates and denotes one
of them.

## Main results

* `LocalDate.isReal_iff`: the dates that come back.
* `LocalDate.ofParts_eq_ok`, `LocalDate.parse_eq_ok`: the numbers and the texts that are accepted.
* `LocalDate.accepts_inCalendar`: numbers, texts, and the way from one to the other.
-/

namespace WarehouseRows.LocalDate

/-! ## Numbers -/

/-- The year, the month and the day are those of a date of the calendar, if they come back from
their day number. -/
theorem isReal_iff {year month day : Int} :
    isReal year month day = true ↔ CivilDate.InCalendar ⟨year, month, day⟩ := by
  rw [CivilDate.inCalendar_iff]
  simp only [CivilDate.dayNumber, isReal, Bool.and_eq_true, decide_eq_true_eq, beq_iff_eq]
  constructor
  · rintro ⟨hrange, hdate⟩
    have hisDate := CivilDate.isDate_ofEpochDay (CivilDate.epochDay year month day)
    rw [hdate] at hisDate
    exact ⟨hisDate, hrange⟩
  · rintro ⟨hisDate, hrange⟩
    exact ⟨hrange, CivilDate.ofEpochDay_epochDay hisDate⟩

/-- Three numbers are accepted just if they are integers and those of a date of the calendar. -/
theorem ofParts_eq_ok {x y z : Double} {date : LocalDate} :
    ofParts x y z = .ok date ↔
      ∃ year month day : Whole, Whole.ofDouble? x = some year ∧ Whole.ofDouble? y = some month ∧
        Whole.ofDouble? z = some day ∧
        CivilDate.InCalendar ⟨year.toInt, month.toInt, day.toInt⟩ ∧
        date = .on year month.toInt day.toInt := by
  constructor
  · intro h
    simp only [ofParts] at h
    split at h
    · rename_i built hbuilt
      obtain rfl := Except.ok.inj h
      obtain ⟨year, hyear, hbuilt⟩ := Option.bind_eq_some_iff.mp hbuilt
      obtain ⟨month, hmonth, hbuilt⟩ := Option.bind_eq_some_iff.mp hbuilt
      obtain ⟨day, hday, hbuilt⟩ := Option.bind_eq_some_iff.mp hbuilt
      rw [ofWhole?] at hbuilt
      split at hbuilt
      · rename_i hreal
        exact ⟨year, month, day, hyear, hmonth, hday, isReal_iff.mp hreal,
          (Option.some.inj hbuilt).symm⟩
      · exact absurd hbuilt (by simp)
    · exact absurd h (by simp)
  · rintro ⟨year, month, day, hyear, hmonth, hday, hdate, rfl⟩
    have hreal := isReal_iff.mpr hdate
    simp only [ofParts, hyear, hmonth, hday, Option.bind_eq_bind, Option.bind_some, ofWhole?,
      hreal, if_true]

/-! ## Texts -/

/-- Exactly the texts in the layout of dates are read that denote a date of the calendar. -/
theorem parse_eq_ok {text : String} {date : LocalDate} :
    parse text = .ok date ↔
      ∃ x : DateText, text = x.text ∧ x.civil.InCalendar ∧ date = x.date := by
  have hread : parse text = .ok date ↔ ofChars? text.toList = some date := by
    rw [parse]
    cases ofChars? text.toList <;> simp
  rw [hread, ofChars?_eq_some]
  constructor
  · rintro ⟨x, hchars, hreal, hdate⟩
    refine ⟨x, ?_, isReal_iff.mp hreal, hdate⟩
    rw [DateText.text, ← hchars, String.ofList_toList]
  · rintro ⟨x, rfl, hcalendar, hdate⟩
    exact ⟨x, String.toList_ofList, isReal_iff.mpr hcalendar, hdate⟩

/-- Every other text is refused. -/
theorem parse_eq_error {text : String} {e : ConversionError} :
    parse text = .error e ↔
      (¬∃ x : DateText, text = x.text ∧ x.civil.InCalendar) ∧ e = unreadable "date" text := by
  by_cases hex : ∃ x : DateText, text = x.text ∧ x.civil.InCalendar
  · obtain ⟨x, htext, hcalendar⟩ := hex
    rw [parse_eq_ok.mpr ⟨x, htext, hcalendar, rfl⟩]
    apply iff_of_false
    · simp
    · exact fun h => h.1 ⟨x, htext, hcalendar⟩
  · have hnone : ofChars? text.toList = none := by
      apply Option.eq_none_iff_forall_ne_some.mpr
      intro date hread
      have hok : parse text = .ok date := by rw [parse, hread]
      obtain ⟨x, htext, hcalendar, -⟩ := parse_eq_ok.mp hok
      exact hex ⟨x, htext, hcalendar⟩
    rw [parse, hnone, and_iff_right hex]
    constructor
    · intro h
      exact (Except.error.inj h).symm
    · rintro rfl
      rfl

/-- Three numbers are accepted just if they are integers, and those of a date of the calendar; the
text of such a date is read as the same date. And exactly the texts in the layout of dates are read
that denote a date of the calendar, each as this date, and all others are refused. -/
theorem accepts_inCalendar :
    (∀ (x y z : Double) (date : LocalDate), ofParts x y z = .ok date ↔
      ∃ year month day : Whole, Whole.ofDouble? x = some year ∧ Whole.ofDouble? y = some month ∧
        Whole.ofDouble? z = some day ∧
        CivilDate.InCalendar ⟨year.toInt, month.toInt, day.toInt⟩ ∧
        date = .on year month.toInt day.toInt) ∧
    (∀ {x y z : Double} {date : LocalDate}, ofParts x y z = .ok date →
      ∃ back, parse date.text = .ok back ∧ back.same date = true) ∧
    ∀ text : String,
      (∀ date, parse text = .ok date ↔
        ∃ x : DateText, text = x.text ∧ x.civil.InCalendar ∧ date = x.date) ∧
      ∀ e, parse text = .error e ↔
        (¬∃ x : DateText, text = x.text ∧ x.civil.InCalendar) ∧ e = unreadable "date" text := by
  refine ⟨fun x y z date => ofParts_eq_ok, ?_, fun text =>
    ⟨fun date => parse_eq_ok, fun e => parse_eq_error⟩⟩
  intro x y z date h
  obtain ⟨year, month, day, -, -, -, hcalendar, rfl⟩ := ofParts_eq_ok.mp h
  have hreal : IsReal (.on year month.toInt day.toInt) := isReal_iff.mpr hcalendar
  refine ⟨_, parse_text hreal, ?_⟩
  simp [plain, same]

/-- The first date of all is accepted, and its text, in which the year has six digits, is read. -/
theorem accepts_inCalendar_first :
    ofParts (.ofInt (-271821)) (.ofInt 4) (.ofInt 20) = .ok (.on (.ofInt (-271821)) 4 20) ∧
      ∃ back, parse (text (.on (.ofInt (-271821)) 4 20)) = .ok back ∧
        back.same (.on (.ofInt (-271821)) 4 20) = true := by
  have hparts : ofParts (.ofInt (-271821)) (.ofInt 4) (.ofInt 20) =
      .ok (.on (.ofInt (-271821)) 4 20) :=
    (accepts_inCalendar.1 _ _ _ _).mpr ⟨.ofInt (-271821), .ofInt 4, .ofInt 20,
      Double.ofDouble?_ofInt (by decide), Double.ofDouble?_ofInt (by decide),
      Double.ofDouble?_ofInt (by decide), by decide, rfl⟩
  exact ⟨hparts, accepts_inCalendar.2.1 hparts⟩

end WarehouseRows.LocalDate

import WarehouseRows.Proofs.FixedLayout
import WarehouseRows.Proofs.GregorianDays

/-!
# Instants in the fixed format

Text in the layout of instants is read just if there is the date in the Gregorian calendar, and the
time is one of a day. The reader counts on from a month or a day that there is not and then compares
the month and the day; this finds every such date.

## Main definitions

* `Timestamp.Fields.IsReal`: whether there is the date and the time of day.
* `Timestamp.Fields.millis`: the milliseconds, counted day by day.

## Main results

* `Timestamp.ofFields?_eq`: the numbers that are accepted.
* `Timestamp.FixedText.parse_text`: what is read from a text in the layout.
-/

namespace WarehouseRows

namespace Timestamp

open Text

/-! ## Dates and times of day -/

/-- Whether the numbers are those of a date that there is and of a time of day. -/
structure Fields.IsReal (f : Fields) : Prop where
  date : CivilDate.IsDay f.year f.month f.day
  hour_le : f.hour ≤ 23
  minute_le : f.minute ≤ 59
  second_le : f.second ≤ 59

instance (f : Fields) : Decidable f.IsReal :=
  decidable_of_iff
    (CivilDate.IsDay f.year f.month f.day ∧ f.hour ≤ 23 ∧ f.minute ≤ 59 ∧ f.second ≤ 59)
    ⟨fun h => ⟨h.1, h.2.1, h.2.2.1, h.2.2.2⟩,
      fun h => ⟨h.date, h.hour_le, h.minute_le, h.second_le⟩⟩

/-- The milliseconds from the start of 1970, by the days, hours, minutes and seconds before. -/
def Fields.millis (f : Fields) : Int :=
  let days := CivilDate.dayCount f.year f.month f.day - CivilDate.dayCount 1970 1 1
  (((days * 24 + f.hour) * 60 + f.minute) * 60 + f.second) * 1000 + f.milli

variable {f : Fields}

/-- With a time of day, the counted milliseconds fall on the day that was counted to. -/
theorem clock_date (hmilli : f.milli < 1000) (hhour : f.hour ≤ 23) (hminute : f.minute ≤ 59)
    (hsecond : f.second ≤ 59) (n : Int) :
    (Instant.clock (Instant.millisOf n f.hour f.minute f.second f.milli)).date =
      CivilDate.ofEpochDay n := by
  have hday : Instant.millisOf n f.hour f.minute f.second f.milli / Instant.millisPerDay = n := by
    simp only [Instant.millisOf, Instant.millisPerDay]
    omega
  rw [Instant.clock, hday]

/-- Numbers are accepted just if they are those of a date that there is and of a time of day. -/
theorem ofFields?_eq (hmilli : f.milli < 1000) :
    ofFields? f = if f.IsReal then some (.at f.millis) else none := by
  rw [ofFields?]
  by_cases htime : f.hour ≤ 23 ∧ f.minute ≤ 59 ∧ f.second ≤ 59
  · obtain ⟨hhour, hminute, hsecond⟩ := htime
    simp only [clock_date hmilli hhour hminute hsecond, hhour, hminute, hsecond, true_and,
      CivilDate.sameMonthDay_iff]
    by_cases hdate : CivilDate.IsDay f.year f.month f.day
    · rw [if_pos hdate, if_pos ⟨hdate, hhour, hminute, hsecond⟩]
      have hcount : CivilDate.epochDay f.year f.month f.day =
          CivilDate.dayCount f.year f.month f.day - CivilDate.dayCount 1970 1 1 := by
        have h1 := hdate.first_le_month
        have h2 := hdate.month_le
        exact CivilDate.epochDay_eq_dayCount f.year (by omega) (by omega) f.day
      rw [hcount, Fields.millis, Instant.millisOf, Instant.millisPerDay]
      congr 2
      omega
    · rw [if_neg hdate, if_neg fun hreal => hdate hreal.date]
  · rw [if_neg fun h => htime ⟨h.1, h.2.1, h.2.2.1⟩,
      if_neg fun h => htime ⟨h.hour_le, h.minute_le, h.second_le⟩]

/-! ## Texts -/

namespace FixedText

/-- The text. -/
def text (x : FixedText) : String :=
  String.ofList x.chars

/-- Whether there is the date and the time of day. -/
def IsReal (x : FixedText) : Prop :=
  x.fields.IsReal

/-- The milliseconds that the text denotes. -/
def millis (x : FixedText) : Int :=
  x.fields.millis

/-- A text in the layout is read just if there is its date and its time of day. -/
theorem parse_text (x : FixedText) :
    parse x.text = if x.fields.IsReal then .ok (.at x.millis)
      else .error (unreadableAs "a TIMESTAMP" x.text) := by
  have hread : readFields? x.chars = some x.fields := readFields?_eq_some.mpr ⟨x, rfl, rfl⟩
  have hmilli := (bounds_of_readFields? hread).2
  rw [parse, text, String.toList_ofList, hread, Option.bind_some, ofFields?_eq hmilli]
  by_cases hreal : x.fields.IsReal
  · rw [if_pos hreal, if_pos hreal]
    rfl
  · rw [if_neg hreal, if_neg hreal]

end FixedText

/-- A text without the layout is refused. -/
theorem parse_of_no_layout {text : String} (h : ¬∃ x : FixedText, text = x.text) :
    parse text = .error (unreadableAs "a TIMESTAMP" text) := by
  have hnone : readFields? text.toList = none := by
    refine Option.eq_none_iff_forall_ne_some.mpr fun f hread => ?_
    obtain ⟨x, hchars, _⟩ := readFields?_eq_some.mp hread
    exact h ⟨x, by rw [FixedText.text, ← hchars, String.ofList_toList]⟩
  rw [parse, hnone]
  rfl

/-- A text that denotes no date and time of day is refused. -/
theorem parse_of_not_real {text : String} (h : ¬∃ x : FixedText, x.IsReal ∧ text = x.text) :
    parse text = .error (unreadableAs "a TIMESTAMP" text) := by
  by_cases hlayout : ∃ x : FixedText, text = x.text
  · obtain ⟨x, rfl⟩ := hlayout
    have hreal : ¬x.fields.IsReal := fun hreal => h ⟨x, hreal, rfl⟩
    rw [x.parse_text, if_neg hreal]
  · exact parse_of_no_layout hlayout

/-- Exactly the texts in the fixed format with a real date and a time of day are read, each as the
instant that it denotes, and all others are refused. -/
theorem parse_fixed (text : String) :
    (∀ t, parse text = .ok t ↔ ∃ x : FixedText, x.IsReal ∧ text = x.text ∧ t = .at x.millis) ∧
    ∀ e, parse text = .error e ↔
      (¬∃ x : FixedText, x.IsReal ∧ text = x.text) ∧ e = unreadableAs "a TIMESTAMP" text := by
  have haccepted (x : FixedText) (hreal : x.IsReal) : parse x.text = .ok (.at x.millis) :=
    x.parse_text.trans (if_pos hreal)
  refine ⟨fun t => ⟨fun h => ?_, ?_⟩, fun e => ⟨fun h => ?_, ?_⟩⟩
  · by_cases hex : ∃ x : FixedText, x.IsReal ∧ text = x.text
    · obtain ⟨x, hreal, rfl⟩ := hex
      exact ⟨x, hreal, rfl, (Except.ok.inj ((haccepted x hreal).symm.trans h)).symm⟩
    · exact absurd ((parse_of_not_real hex).symm.trans h) (by simp)
  · rintro ⟨x, hreal, rfl, rfl⟩
    exact haccepted x hreal
  · have hnot : ¬∃ x : FixedText, x.IsReal ∧ text = x.text := by
      rintro ⟨x, hreal, rfl⟩
      exact absurd ((haccepted x hreal).symm.trans h) (by simp)
    exact ⟨hnot, (Except.error.inj ((parse_of_not_real hnot).symm.trans h)).symm⟩
  · rintro ⟨hnot, rfl⟩
    exact parse_of_not_real hnot

end Timestamp

end WarehouseRows

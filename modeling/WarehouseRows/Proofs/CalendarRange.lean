import WarehouseRows.Proofs.CalendarText
import WarehouseRows.Proofs.Outcome

/-!
# Dates and times that are read are in range

Whatever text a reader accepts, the date that it gives is a day of the calendar and the
time is one inside a day: both are only built behind a check.
-/

namespace WarehouseRows

namespace LocalDate

/-- A date that is read is real. -/
theorem isReal_of_parse {text : String} {date : LocalDate} (h : parse text = .ok date) :
    date.IsReal := by
  rw [parse] at h
  split at h
  · rename_i read hread
    obtain rfl := Except.ok.inj h
    obtain ⟨x, -, hreal, rfl⟩ := ofChars?_eq_some.mp hread
    simpa only [DateText.date, DateText.civil, IsReal, Whole.toInt_signed] using hreal
  · exact absurd h (by simp)

/-- Date text has digits and hyphens only. -/
theorem eq_hyphen_or_isDigit_of_parse {text : String} {date : LocalDate}
    (h : parse text = .ok date) : ∀ c ∈ text.toList, c = '-' ∨ c.isDigit = true := by
  rw [parse] at h
  split at h
  · rename_i read hread
    obtain ⟨x, hcs, -, -⟩ := ofChars?_eq_some.mp hread
    have hsign : ∀ c ∈ Text.signChars x.negative, c = '-' := by
      cases x.negative <;> simp [Text.signChars]
    intro c hc
    rw [hcs] at hc
    simp only [DateText.chars, DateText.body, List.mem_append, List.mem_cons] at hc
    rcases hc with hc | hc | rfl | hc | rfl | hc
    · exact Or.inl (hsign c hc)
    · exact Or.inr (x.isYear c hc)
    · exact Or.inl rfl
    · exact Or.inr (x.isMonth.digits c hc)
    · exact Or.inl rfl
    · exact Or.inr (x.isDay.digits c hc)
  · exact absurd h (by simp)

/-- A `T` behind date text is the first one. -/
theorem ne_mark_of_parse {text : String} {date : LocalDate} (h : parse text = .ok date) :
    ∀ c ∈ text.toList, c ≠ 'T' := by
  rintro c hc rfl
  exact absurd (eq_hyphen_or_isDigit_of_parse h _ hc) (by decide)

end LocalDate

namespace LocalTime

/-- Four integers make up a time just if it is inside a day. -/
theorem ofWhole?_eq_some {hour minute second nano : Whole} {t : LocalTime} :
    ofWhole? hour minute second nano = some t ↔ t = ⟨hour, minute, second, nano⟩ ∧ t.InDay := by
  rw [ofWhole?]
  by_cases hbounds : (inBound 24 hour && inBound 60 minute && inBound 60 second &&
      inBound nanosPerSecond nano) = true
  · rw [if_pos hbounds]
    simp only [Bool.and_eq_true, inBound_iff] at hbounds
    obtain ⟨⟨⟨hh, hm⟩, hs⟩, hn⟩ := hbounds
    constructor
    · intro h
      obtain rfl := Option.some.inj h
      exact ⟨rfl, hh, hm, hs, hn⟩
    · rintro ⟨rfl, -⟩
      rfl
  · rw [if_neg hbounds]
    refine iff_of_false (by simp) ?_
    rintro ⟨rfl, hh, hm, hs, hn⟩
    simp only [Bool.and_eq_true, inBound_iff] at hbounds
    exact hbounds ⟨⟨⟨hh, hm⟩, hs⟩, hn⟩

/-- A time that is read is inside a day. -/
theorem inDay_of_parse {text : String} {t : LocalTime} (h : parse text = .ok t) : t.InDay := by
  rw [parse] at h
  split at h
  · rename_i read hread
    obtain rfl := Except.ok.inj h
    obtain ⟨_, _, hread⟩ := Option.bind_eq_some_iff.mp hread
    obtain ⟨_, _, hread⟩ := Option.bind_eq_some_iff.mp hread
    obtain ⟨_, _, hread⟩ := Option.bind_eq_some_iff.mp hread
    obtain ⟨_, _, hparts⟩ := Option.bind_eq_some_iff.mp hread
    exact (ofWhole?_eq_some.mp hparts).2
  · exact absurd h (by simp)

theorem inDay_negMidnight : negMidnight.InDay :=
  ⟨by decide, by decide, by decide, by decide⟩

theorem inDay_ofNanos {n : Nat} (h : n < nanosPerDay) : (ofNanos n).InDay := by
  have hn : n < 86400 * 1000000000 := h
  refine ⟨?_, ?_, ?_, ?_⟩ <;>
    simp only [ofNanos, Whole.toInt_ofInt, nanosPerSecond] <;> omega

/-- The time of a count of nanoseconds is inside a day. -/
theorem inDay_of_ofNanoOfDay {nanos : Double} {t : LocalTime}
    (h : ofNanoOfDay nanos = .ok t) : t.InDay := by
  rw [ofNanoOfDay] at h
  split at h
  · obtain rfl := Except.ok.inj h
    exact inDay_negMidnight
  · split at h
    · rename_i n _ hn
      obtain rfl := Except.ok.inj h
      exact inDay_ofNanos (by omega)
    · exact absurd h (by simp [ofNanoOfDay.outOfRange])
  · exact absurd h (by simp [ofNanoOfDay.outOfRange])

end LocalTime

namespace LocalDateTime

/-- A date and time whose date is real and whose time is inside a day. -/
structure InRange (x : LocalDateTime) : Prop where
  real : x.date.IsReal
  inDay : x.time.InDay

theorem inRange_of_parts {dateText timeText : String} {x : LocalDateTime}
    (h : (do
      let date ← LocalDate.parse dateText
      let time ← LocalTime.parse timeText
      pure (⟨date, time⟩ : LocalDateTime)) = .ok x) : x.InRange := by
  obtain ⟨date, hdate, h⟩ := Outcome.bind_eq_ok.mp h
  obtain ⟨time, htime, h⟩ := Outcome.bind_eq_ok.mp h
  obtain rfl := Except.ok.inj h
  exact ⟨LocalDate.isReal_of_parse hdate, LocalTime.inDay_of_parse htime⟩

/-- A date and time that is read is in range. -/
theorem inRange_of_parse {text : String} {x : LocalDateTime} (h : parse text = .ok x) :
    x.InRange := by
  rw [parse] at h
  split at h
  · exact absurd h (by simp)
  · exact inRange_of_parts h

/-- A date and time in the fixed layout is in range. -/
theorem inRange_of_parseFixed {text : String} {x : LocalDateTime}
    (h : parseFixed text = .ok x) : x.InRange := by
  rw [parseFixed] at h
  split at h
  · exact inRange_of_parts h
  · exact absurd h (by simp)

end LocalDateTime

end WarehouseRows

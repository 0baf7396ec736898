import WarehouseRows.Proofs.CountedMoments
import WarehouseRows.Proofs.DefaultTexts
import WarehouseRows.Proofs.WrittenMoments

/-!
# Times, their counts and their texts

A time is made of four numbers, of a count of nanoseconds, or of text, and each way it is inside a
day. Such a time is found again from its count and from its default text, and from its text in the
fixed format but for the last three digits of its nanoseconds. The default text of a date with a
time divides at its first `T`, as the text of the date has none, so it is read part by part.

## Main definitions

* `LocalTime.IsMade`: the times that are made.

## Main results

* `LocalTime.isMade_iff_inDay`: these are the times inside a day.
* `LocalTime.ofNanos_nanoOfDay`, `LocalTime.nanoOfDay_ofNanos`: times and counts.
* `LocalDateTime.conversions_inverse`: counts and texts of times, and texts of dates with a time.
-/

namespace WarehouseRows

namespace LocalTime

/-! ## Times that are made -/

/-- The times that are made, of parts, of a count, and of text. -/
inductive IsMade : LocalTime → Prop
  | ofParts {hour minute second nano : Double} {t : LocalTime}
      (h : LocalTime.ofParts hour minute second nano = .ok t) : IsMade t
  | ofNanoOfDay {nanos : Double} {t : LocalTime} (h : LocalTime.ofNanoOfDay nanos = .ok t) :
      IsMade t
  | parse {text : String} {t : LocalTime} (h : LocalTime.parse text = .ok t) : IsMade t

/-- Four numbers are accepted just if they are integers, and the time of them is inside a day. -/
theorem ofParts_eq_ok {x y z w : Double} {t : LocalTime} :
    ofParts x y z w = .ok t ↔
      (Whole.ofDouble? x = some t.hour ∧ Whole.ofDouble? y = some t.minute ∧
        Whole.ofDouble? z = some t.second ∧ Whole.ofDouble? w = some t.nano) ∧ t.InDay := by
  constructor
  · intro h
    simp only [ofParts] at h
    split at h
    · rename_i built hbuilt
      obtain rfl := Except.ok.inj h
      obtain ⟨hour, hhour, hbuilt⟩ := Option.bind_eq_some_iff.mp hbuilt
      obtain ⟨minute, hminute, hbuilt⟩ := Option.bind_eq_some_iff.mp hbuilt
      obtain ⟨second, hsecond, hbuilt⟩ := Option.bind_eq_some_iff.mp hbuilt
      obtain ⟨nano, hnano, hbuilt⟩ := Option.bind_eq_some_iff.mp hbuilt
      obtain ⟨rfl, hday⟩ := ofWhole?_eq_some.mp hbuilt
      exact ⟨⟨hhour, hminute, hsecond, hnano⟩, hday⟩
    · exact absurd h (by simp)
  · rintro ⟨⟨hhour, hminute, hsecond, hnano⟩, hday⟩
    have hbuilt : ofWhole? t.hour t.minute t.second t.nano = some t :=
      ofWhole?_eq_some.mpr ⟨rfl, hday⟩
    simp only [ofParts, hhour, hminute, hsecond, hnano, Option.bind_eq_bind, Option.bind_some,
      hbuilt]

/-- The times that are made are those inside a day: each of them is made of its own parts. -/
theorem isMade_iff_inDay {t : LocalTime} : t.IsMade ↔ t.InDay := by
  constructor
  · intro h
    cases h with
    | ofParts h => exact (ofParts_eq_ok.mp h).2
    | ofNanoOfDay h => exact inDay_of_ofNanoOfDay h
    | parse h => exact inDay_of_parse h
  · intro h
    have hhour := h.hour
    have hminute := h.minute
    have hsecond := h.second
    have hnano := h.nano
    simp only [nanosPerSecond] at hnano
    exact .ofParts (ofParts_eq_ok.mpr
      ⟨⟨Whole.ofDouble?_toDouble (by omega), Whole.ofDouble?_toDouble (by omega),
        Whole.ofDouble?_toDouble (by omega), Whole.ofDouble?_toDouble (by omega)⟩, h⟩)

/-! ## Counts -/

theorem nanoOfDay_bounds {t : LocalTime} (h : t.InDay) :
    0 ≤ t.nanoOfDay ∧ t.nanoOfDay < nanosPerDay := by
  obtain ⟨hhour, hminute, hsecond, hnano⟩ := h
  simp only [nanosPerSecond] at hnano
  simp only [nanoOfDay, nanosPerDay, nanosPerSecond]
  omega

/-- The time of a count has this count. -/
theorem nanoOfDay_ofNanos (n : Nat) : (ofNanos n).nanoOfDay = n := by
  simp only [nanoOfDay, ofNanos, Whole.toInt_ofInt, nanosPerSecond]
  omega

/-- A time inside a day is the time of its count, without the minus signs of its zeros. -/
theorem ofNanos_nanoOfDay {t : LocalTime} (h : t.InDay) : ofNanos t.nanoOfDay.toNat = t.plain := by
  obtain ⟨hhour, hminute, hsecond, hnano⟩ := h
  simp only [nanosPerSecond] at hnano
  simp only [ofNanos, nanoOfDay, nanosPerSecond, plain, Whole.plain, mk.injEq, Whole.ofInt.injEq]
  omega

/-- A number within a day is the count of the time that it gives. -/
theorem exists_ofNanoOfDay {x : Double} {n : Whole} (h : Whole.ofDouble? x = some n)
    (h0 : 0 ≤ n.toInt) (h1 : n.toInt < nanosPerDay) :
    ∃ t, ofNanoOfDay x = .ok t ∧ t.toNanoOfDay = n.toDouble := by
  cases n with
  | negZero => exact ⟨negMidnight, by rw [ofNanoOfDay, h], rfl⟩
  | ofInt n =>
    refine ⟨ofNanos n.toNat, ?_, ?_⟩
    · rw [ofNanoOfDay, h]
      exact if_pos ⟨h0, h1⟩
    · have hne : ofNanos n.toNat ≠ negMidnight := by
        simp [ofNanos, negMidnight]
      have hcount : (n.toNat : Int) = n := Int.toNat_of_nonneg h0
      rw [toNanoOfDay, if_neg hne, nanoOfDay_ofNanos, hcount]
      rfl

/-- Every other number is refused. -/
theorem ofNanoOfDay_refused {x : Double}
    (h : ¬∃ n, Whole.ofDouble? x = some n ∧ 0 ≤ n.toInt ∧ n.toInt < nanosPerDay) :
    ofNanoOfDay x = ofNanoOfDay.outOfRange x := by
  cases hx : Whole.ofDouble? x with
  | none => rw [ofNanoOfDay, hx]
  | some n =>
    have hbeyond : ¬(0 ≤ n.toInt ∧ n.toInt < nanosPerDay) := fun hn => h ⟨n, hx, hn⟩
    cases n with
    | negZero => exact absurd (by decide) hbeyond
    | ofInt n =>
      rw [ofNanoOfDay, hx]
      exact if_neg hbeyond

/-- A time inside a day is found again from its count. -/
theorem exists_ofNanoOfDay_toNanoOfDay {t : LocalTime} (h : t.InDay) :
    ∃ back, ofNanoOfDay t.toNanoOfDay = .ok back ∧ back.same t = true := by
  obtain ⟨h0, h1⟩ := nanoOfDay_bounds h
  by_cases hmidnight : t = negMidnight
  · subst hmidnight
    exact ⟨negMidnight, rfl, rfl⟩
  · have hcount : Whole.ofDouble? (Double.ofInt t.nanoOfDay) = some (.ofInt t.nanoOfDay) := by
      apply Double.ofDouble?_ofInt
      simp only [nanosPerDay, nanosPerSecond] at h1
      omega
    refine ⟨t.plain, ?_, same_plain t⟩
    rw [toNanoOfDay, if_neg hmidnight, ofNanoOfDay, hcount, ← ofNanos_nanoOfDay h]
    exact if_pos ⟨h0, h1⟩

end LocalTime

namespace LocalDateTime

/-! ## Texts -/

/-- The default text of a date with a time is read as this date with this time. -/
theorem parse_text {x : LocalDateTime} (hdate : x.date.IsReal) (htime : x.time.InDay) :
    parse x.text = .ok x.plain := by
  have hmark : ∀ c ∈ x.date.chars, (c != 'T') = true := by
    intro c hc
    simpa using LocalDate.ne_mark_of_mem_chars c hc
  have htake : (x.date.chars ++ 'T' :: x.time.chars).takeWhile (· != 'T') = x.date.chars := by
    simp [List.takeWhile_append_of_pos hmark]
  have hdrop : (x.date.chars ++ 'T' :: x.time.chars).dropWhile (· != 'T') =
      'T' :: x.time.chars := by
    simp [List.dropWhile_append_of_pos hmark]
  have hdateText : LocalDate.parse (String.ofList x.date.chars) = .ok x.date.plain :=
    LocalDate.parse_text hdate
  have htimeText : LocalTime.parse (String.ofList x.time.chars) = .ok x.time.plain :=
    LocalTime.parse_text htime
  simp only [parse, text, String.toList_ofList, htake, hdrop, hdateText, htimeText]
  rfl

/-- Each integer within a day is the count of the time that it gives, and every other number is
refused. Each time that is made is found again from its count and from its default text, and from
its text in the fixed format cut to the microsecond. And each date that is accepted, with such a
time, is found again from the text of both. -/
theorem conversions_inverse :
    (∀ {x : Double} {n : Whole}, Whole.ofDouble? x = some n → 0 ≤ n.toInt →
      n.toInt < LocalTime.nanosPerDay →
        ∃ t, LocalTime.ofNanoOfDay x = .ok t ∧ t.toNanoOfDay = n.toDouble) ∧
    (∀ {x : Double}, (¬∃ n, Whole.ofDouble? x = some n ∧ 0 ≤ n.toInt ∧
      n.toInt < LocalTime.nanosPerDay) →
        ∃ e, LocalTime.ofNanoOfDay x = .error e ∧ e.code = .invalidValue) ∧
    (∀ {t : LocalTime}, t.IsMade →
      (∃ back, LocalTime.ofNanoOfDay t.toNanoOfDay = .ok back ∧ back.same t = true) ∧
      (∃ back, LocalTime.parse t.text = .ok back ∧ back.same t = true) ∧
      LocalTime.parse t.format = .ok t.cut) ∧
    ∀ {year month day : Double} {x : LocalDateTime},
      LocalDate.ofParts year month day = .ok x.date → x.time.IsMade →
        ∃ back, parse x.text = .ok back ∧ back.same x = true := by
  refine ⟨LocalTime.exists_ofNanoOfDay, ?_, ?_, ?_⟩
  · intro x h
    exact ⟨_, LocalTime.ofNanoOfDay_refused h, rfl⟩
  · intro t hmade
    have hday := LocalTime.isMade_iff_inDay.mp hmade
    exact ⟨LocalTime.exists_ofNanoOfDay_toNanoOfDay hday,
      ⟨t.plain, LocalTime.parse_text hday, LocalTime.same_plain t⟩,
      LocalTime.parse_format_cut hday⟩
  · intro year month day x hdate hmade
    have hreal := LocalDate.isReal_of_ofParts hdate
    exact ⟨x.plain, parse_text hreal (LocalTime.isMade_iff_inDay.mp hmade), same_plain hreal⟩

/-- A quarter past ten and 30.000001234 seconds, on the leap day of the year 2000. The nanoseconds
are cut in the fixed format only, and a whole day of nanoseconds is no time. -/
theorem conversions_inverse_leapDay :
    let time : LocalTime := ⟨.ofInt 10, .ofInt 15, .ofInt 30, .ofInt 1234⟩
    let x : LocalDateTime := ⟨.on (.ofInt 2000) 2 29, time⟩
    Whole.ofDouble? (Double.ofInt 36930000001234) = some (.ofInt 36930000001234) ∧
      (∃ t, LocalTime.ofNanoOfDay (Double.ofInt 36930000001234) = .ok t ∧
        t.toNanoOfDay = Double.ofInt 36930000001234) ∧
      (∃ e, LocalTime.ofNanoOfDay (Double.ofInt 86400000000000) = .error e ∧
        e.code = .invalidValue) ∧
      time.IsMade ∧
      LocalTime.parse time.format = .ok ⟨.ofInt 10, .ofInt 15, .ofInt 30, .ofInt 1000⟩ ∧
      LocalDate.ofParts (.ofInt 2000) (.ofInt 2) (.ofInt 29) = .ok x.date ∧
      ∃ back, parse x.text = .ok back ∧ back.same x = true := by
  intro time x
  have hcount : Whole.ofDouble? (Double.ofInt 36930000001234) = some (.ofInt 36930000001234) :=
    Double.ofDouble?_ofInt (by decide)
  have hbeyond : ¬∃ n, Whole.ofDouble? (Double.ofInt 86400000000000) = some n ∧
      0 ≤ n.toInt ∧ n.toInt < LocalTime.nanosPerDay := by
    rintro ⟨n, hn, -, hless⟩
    rw [Double.ofDouble?_ofInt (by decide)] at hn
    obtain rfl := Option.some.inj hn
    exact absurd hless (by decide)
  have hmade : time.IsMade :=
    LocalTime.isMade_iff_inDay.mpr ⟨by decide, by decide, by decide, by decide⟩
  have hdate : LocalDate.ofParts (.ofInt 2000) (.ofInt 2) (.ofInt 29) = .ok x.date :=
    LocalDate.ofParts_eq_ok.mpr ⟨.ofInt 2000, .ofInt 2, .ofInt 29,
      Double.ofDouble?_ofInt (by decide), Double.ofDouble?_ofInt (by decide),
      Double.ofDouble?_ofInt (by decide), by decide, rfl⟩
  exact ⟨hcount, conversions_inverse.1 hcount (by decide) (by decide),
    conversions_inverse.2.1 hbeyond, hmade, (conversions_inverse.2.2.1 hmade).2.2, hdate,
    conversions_inverse.2.2.2 hdate hmade⟩

end LocalDateTime

end WarehouseRows

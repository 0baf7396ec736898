import WarehouseRows.Proofs.CalendarRange
import WarehouseRows.Proofs.ScalarText

/-!
# Moments whose texts are read

Every date, every date with a time and every instant is written, whatever its year. The readers
are stricter: a date has to be a day of the calendar, and a date with a time and an instant need a
year of exactly four digits. A year after 9999 is written with more of them, and the minus sign of
a year before 0 stands where a digit has to be. So the texts of such moments are written, but no
reader takes them back.

## Main results

* `LocalDate.exists_parse_text`, `LocalDateTime.exists_parseFixed_format`,
  `PrimitiveKind.exists_parseInstant_chars`: which texts are read.
-/

namespace WarehouseRows

/-! ## Dates -/

namespace LocalDate

/-- Whether a date is one that is made: a real one, or the invalid one of a count of days that is
out of range. -/
def IsMade (date : LocalDate) : Prop :=
  date = .invalid ∨ date.IsReal

/-- The text of a real date is read, and that of the invalid date is not. -/
theorem exists_parse_text {date : LocalDate} (hmade : date.IsMade) :
    (∃ back, parse date.text = .ok back) ↔ date.IsReal := by
  constructor
  · rintro ⟨back, hback⟩
    refine hmade.resolve_left ?_
    rintro rfl
    have hrefused : parse (text .invalid) = .error (unreadable "date" "0NaN-NaN-NaN") := rfl
    exact absurd (hrefused.symm.trans hback) (by simp)
  · intro hreal
    exact ⟨date.plain, parse_text hreal⟩

/-- The characters of a date are ten at least. -/
theorem le_length_chars (date : LocalDate) : 10 ≤ date.chars.length := by
  cases date with
  | invalid => decide
  | on year month day =>
    have hyear := Text.le_length_padNat 4 year.toInt.natAbs
    have hmonth := Text.le_length_padNat 2 month.natAbs
    have hday := Text.le_length_padNat 2 day.natAbs
    simp only [chars_on, yearText, Instant.pad, List.length_append, List.length_cons]
    omega

/-- No date has a `T` in its text. -/
theorem ne_mark_of_mem_chars {date : LocalDate} : ∀ c ∈ date.chars, c ≠ 'T' := by
  cases date with
  | invalid =>
    have hall : (chars .invalid).all (· != 'T') = true := rfl
    intro c hc
    simpa using List.all_eq_true.mp hall c hc
  | on year month day =>
    have hdigit : ∀ width n, ∀ c ∈ Instant.pad width n, c ≠ 'T' := by
      rintro width n c hc rfl
      exact absurd (Instant.isDigit_of_mem_pad _ hc) (by decide)
    intro c hc
    simp only [chars_on, yearText, List.mem_append, List.mem_cons] at hc
    rcases hc with (((hc | hc) | rfl | hc) | rfl | hc)
    · split at hc
      · rw [List.mem_singleton.mp hc]
        decide
      · exact absurd hc List.not_mem_nil
    · exact hdigit _ _ c hc
    · decide
    · exact hdigit _ _ c hc
    · decide
    · exact hdigit _ _ c hc

/-- A real date with a text of ten characters has a year of four digits. -/
theorem fourDigit_of_length {year : Whole} {month day : Int}
    (h : (LocalDate.on year month day).chars.length = 10) :
    0 ≤ year.toInt ∧ year.toInt ≤ 9999 := by
  have hyear := Text.le_length_padNat 4 year.toInt.natAbs
  have hmonth := Text.le_length_padNat 2 month.natAbs
  have hday := Text.le_length_padNat 2 day.natAbs
  have hlt := Text.lt_pow_length_padNat 4 year.toInt.natAbs
  simp only [chars_on, yearText, Instant.pad, List.length_append, List.length_cons] at h
  have hfour : (Text.padNat 4 year.toInt.natAbs).length = 4 := by omega
  rw [hfour] at hlt
  by_cases hneg : year.toInt < 0
  · rw [if_pos hneg, List.length_singleton] at h
    omega
  · omega

end LocalDate

/-! ## Dates with a time of day -/

namespace LocalDateTime

/-- In the fixed layout, ten characters stand in front of the `T`. -/
theorem getElem?_of_isFixed {cs : List Char} (h : isFixed cs = true) : cs[10]? = some 'T' := by
  have hmark {layout : List Char} (hlayout : layout[10]? = some 'T') (hlen : 10 < cs.length)
      (hfits : fits layout cs = true) : cs[10]? = some 'T' := by
    obtain ⟨hlong, hat⟩ := List.getElem?_eq_some_iff.mp hlayout
    have hpair : ('T', cs[10]) ∈ layout.zip cs := by
      refine List.mem_iff_getElem.mpr ⟨10, ?_, ?_⟩
      · rw [List.length_zip]
        omega
      · rw [List.getElem_zip, hat]
    have hsame := List.all_eq_true.mp hfits _ hpair
    rw [List.getElem?_eq_getElem hlen]
    simpa using (beq_iff_eq.mp hsame).symm
  rw [isFixed_eq, Bool.or_eq_true, Bool.and_eq_true, Bool.and_eq_true, beq_iff_eq,
    beq_iff_eq] at h
  rcases h with ⟨hlen, hfits⟩ | ⟨hlen, hfits⟩
  · exact hmark rfl (by omega) hfits
  · exact hmark rfl (by omega) hfits

/-- If the text of a date with a time follows the fixed layout, the date has ten characters. -/
theorem length_date_of_isFixed {date : LocalDate} {rest : List Char}
    (h : isFixed (date.chars ++ 'T' :: rest) = true) : date.chars.length = 10 := by
  have hle := date.le_length_chars
  have hmark := getElem?_of_isFixed h
  by_cases hlt : 10 < date.chars.length
  · rw [List.getElem?_append_left hlt, List.getElem?_eq_some_iff] at hmark
    obtain ⟨_, hmark⟩ := hmark
    exact absurd hmark (LocalDate.ne_mark_of_mem_chars _ (List.getElem_mem hlt))
  · omega

/-- The text of a date with a time is read just if it follows the fixed layout. -/
theorem exists_parseFixed_format {x : LocalDateTime} (hdate : x.date.IsMade)
    (htime : x.time.InDay) : (∃ back, parseFixed x.format = .ok back) ↔ x.IsLaidOut := by
  constructor
  · rintro ⟨back, hback⟩
    rw [parseFixed] at hback
    split at hback
    · rename_i hfixed
      rw [format, String.toList_ofList] at hfixed
      have hlen := length_date_of_isFixed hfixed
      have hreal : x.date.IsReal := by
        refine hdate.resolve_left ?_
        intro hinvalid
        rw [hinvalid] at hlen
        exact absurd hlen (by decide)
      refine ⟨hreal, ?_, htime⟩
      intro year month day hon
      rw [hon] at hlen
      exact LocalDate.fourDigit_of_length hlen
    · exact absurd hback (by simp)
  · intro h
    exact ⟨_, parseFixed_format_cut h⟩

end LocalDateTime

/-! ## Instants -/

namespace Timestamp

open Text

/-- Filled up to four characters, the minus sign of a year is one of the first four. -/
theorem yearText_of_neg {year : Int} (h : year < 0) :
    ∃ k behind, yearText year = List.replicate k '0' ++ '-' :: behind ∧ k < 4 := by
  have hchars : (toString year).toList = '-' :: (Nat.repr year.natAbs).toList := by
    rw [toList_toString]
    simp [h, signChars]
  rw [yearText, padLeft, hchars]
  refine ⟨_, _, rfl, ?_⟩
  rw [List.length_cons]
  omega

/-- A year that is written with four digits in front of a hyphen is a year of four digits. -/
theorem fourDigit_of_yearText {year : Int} {ds tail rest : List Char}
    (h : yearText year ++ '-' :: tail = ds ++ '-' :: rest) (hd : ∀ c ∈ ds, c.isDigit = true)
    (hlen : ds.length = 4) : 0 ≤ year ∧ year ≤ 9999 := by
  -- both sides begin with the same run of digits
  have hrun := splitDigits_append hd (endsRun_cons rest (c := '-') rfl)
  rw [← h] at hrun
  by_cases hneg : year < 0
  · obtain ⟨k, behind, hyear, hk⟩ := yearText_of_neg hneg
    have hzeros : ∀ c ∈ List.replicate k '0', c.isDigit = true := by
      intro c hc
      rw [List.eq_of_mem_replicate hc]
      rfl
    rw [hyear, List.append_assoc, List.cons_append,
      splitDigits_append hzeros (endsRun_cons _ rfl)] at hrun
    have hsame := congrArg (fun p => p.1.length) hrun
    simp only [List.length_replicate] at hsame
    omega
  · rw [yearText_of_nonneg (by omega),
      splitDigits_append Instant.isDigit_of_mem_pad (endsRun_cons _ rfl)] at hrun
    have hsame : Instant.pad 4 year = ds := congrArg Prod.fst hrun
    have hlt := lt_pow_length_padNat 4 year.natAbs
    rw [← Instant.pad, hsame, hlen] at hlt
    omega

/-- Text in the format of instants begins with four digits and a hyphen. -/
theorem exists_year_of_readFields? {cs : List Char} {fields : Fields}
    (h : readFields? cs = some fields) :
    ∃ ds rest, cs = ds ++ '-' :: rest ∧ (∀ c ∈ ds, c.isDigit = true) ∧ ds.length = 4 := by
  obtain ⟨x, hchars, _⟩ := readFields?_eq_some.mp h
  exact ⟨x.year, _, hchars, x.isYear.digits, x.isYear.length_eq⟩

/-- The fields of an instant are read only if its year has four digits. -/
theorem fourDigit_of_readFields? {millis : Int} {fields : Fields}
    (h : readFields? (chars millis) = some fields) :
    0 ≤ (Instant.clock millis).date.year ∧ (Instant.clock millis).date.year ≤ 9999 := by
  obtain ⟨ds, rest, hchars, hd, hlen⟩ := exists_year_of_readFields? h
  simp only [chars, List.append_assoc, List.cons_append] at hchars
  exact fourDigit_of_yearText hchars hd hlen

end Timestamp

/-- The text of an instant is read just if the year of the instant has four digits. -/
theorem PrimitiveKind.exists_parseInstant_chars {millis : Int} :
    (∃ v, parseInstant (String.ofList (Timestamp.chars millis)) = .ok v) ↔
      (Instant.at millis).IsFourDigit := by
  constructor
  · rintro ⟨v, hv⟩
    obtain ⟨front, hfront⟩ : ∃ front, Timestamp.chars millis = front ++ " UTC".toList :=
      ⟨_, rfl⟩
    rw [hfront, parseInstant_of_suffix, ← hfront] at hv
    obtain ⟨t, ht, _⟩ := Outcome.map_eq_ok.mp hv
    rw [Timestamp.parse, String.toList_ofList] at ht
    split at ht
    · rename_i read hread
      obtain ⟨fields, hfields, _⟩ := Option.bind_eq_some_iff.mp hread
      exact ⟨millis, rfl, Timestamp.fourDigit_of_readFields? hfields⟩
    · exact absurd ht (by simp)
  · rintro ⟨millis', hsame, h0, h1⟩
    obtain rfl := Instant.at.inj hsame
    exact ⟨_, parseInstant_chars h0 h1⟩

end WarehouseRows

import WarehouseRows.Proofs.AvroConformance
import WarehouseRows.Proofs.CountedMoments
import WarehouseRows.Proofs.TimestampPolicy

/-!
# Instants that are finer than a millisecond

An instant in microseconds is cut to milliseconds in two places, and the two are not the same. The
reader of counts divides, so it cuts toward the start of 1970. The reader of texts drops the digits
behind the third one, so it cuts toward the past. From 1970 on this is the same direction. Before
1970 an instant with microseconds to be cut comes out one millisecond later when it is read from its
count.

## Main definitions

* `Timestamp.microText`: the text of a count of microseconds, with all its six digits.
-/

namespace WarehouseRows.Timestamp

open Text
open ConversionOptions (truncating)

/-! ## The text of a count of microseconds -/

/-- The microseconds of a day. -/
def microsPerDay : Nat := 86400000000

/-- The calendar day of a count of microseconds. -/
def microDate (micros : Int) : CivilDate :=
  CivilDate.ofEpochDay (micros / microsPerDay)

/-- The characters of a count of microseconds, with six digits behind the point. -/
def microChars (micros : Int) : List Char :=
  let date := microDate micros
  let ofDay := micros % microsPerDay
  yearText date.year ++ '-' :: Instant.pad 2 date.month ++ '-' :: Instant.pad 2 date.day ++
    ' ' :: Instant.pad 2 (ofDay / 3600000000) ++ ':' :: Instant.pad 2 (ofDay / 60000000 % 60) ++
    ':' :: Instant.pad 2 (ofDay / 1000000 % 60) ++ '.' :: Instant.pad 6 (ofDay % 1000000) ++
    " UTC".toList

/-- The text of a count of microseconds. -/
def microText (micros : Int) : String :=
  String.ofList (microChars micros)

/-- Up to the seconds, this is the text of the millisecond that lies below. -/
theorem microChars_eq (micros : Int) :
    microChars micros = frontChars (Instant.clock (micros / 1000)) ++
      '.' :: (Instant.pad 6 (micros % 1000000) ++ " UTC".toList) := by
  have hday : micros / 1000 / Instant.millisPerDay = micros / microsPerDay := by
    simp only [Instant.millisPerDay, microsPerDay]
    omega
  have hhour : micros / 1000 % Instant.millisPerDay / 3600000 =
      micros % microsPerDay / 3600000000 := by
    simp only [Instant.millisPerDay, microsPerDay]
    omega
  have hminute : micros / 1000 % Instant.millisPerDay / 60000 % 60 =
      micros % microsPerDay / 60000000 % 60 := by
    simp only [Instant.millisPerDay, microsPerDay]
    omega
  have hsecond : micros / 1000 % Instant.millisPerDay / 1000 % 60 =
      micros % microsPerDay / 1000000 % 60 := by
    simp only [Instant.millisPerDay, microsPerDay]
    omega
  have hfraction : micros % microsPerDay % 1000000 = micros % 1000000 := by
    simp only [microsPerDay]
    omega
  simp only [microChars, microDate, frontChars, Instant.clock, hday, hhour, hminute, hsecond,
    hfraction, List.append_assoc, List.cons_append]

/-- Of six digits behind the point the first three count. -/
theorem readFraction?_six {fraction : Int} (h0 : 0 ≤ fraction) (h1 : fraction < 1000000) :
    readFraction? ('.' :: (Instant.pad 6 fraction ++ " UTC".toList)) =
      some ((fraction / 1000).natAbs, " UTC".toList) := by
  have hlen : (Instant.pad 6 fraction).length = 6 := Instant.length_pad (by decide) (by omega)
  have hpoint : fractionChars (Instant.pad 6 fraction) = '.' :: Instant.pad 6 fraction :=
    fractionChars_of_ne_nil (padNat_ne_nil _ _)
  have hpadded : padRight '0' 3 (Instant.pad 6 fraction) = Instant.pad 6 fraction := by
    rw [padRight, hlen]
    exact List.append_nil _
  have hvalue := digitsValue_take 3 (@Instant.isDigit_of_mem_pad 6 fraction)
  rw [hlen, Instant.digitsValue_pad] at hvalue
  have hmillis : digitsValue ((Instant.pad 6 fraction).take 3) = (fraction / 1000).natAbs := by
    rw [hvalue]
    omega
  refine readFraction?_eq_some.mpr
    ⟨Instant.pad 6 fraction, Instant.isDigit_of_mem_pad, by omega, ?_, ?_⟩
  · rw [hpoint, List.cons_append]
  · rw [hpadded, hmillis]

/-- The text of a count of microseconds is read as the millisecond that lies below. -/
theorem parse_microText {micros : Int} (h0 : 0 ≤ (microDate micros).year)
    (h1 : (microDate micros).year ≤ 9999) :
    parse (microText micros) = .ok (.at (micros / 1000)) := by
  have hday : micros / microsPerDay = micros / 1000 / Instant.millisPerDay := by
    simp only [Instant.millisPerDay, microsPerDay]
    omega
  rw [microDate, hday] at h0 h1
  have hmilli : (micros % 1000000 / 1000).natAbs = (Instant.clock (micros / 1000)).milli.natAbs := by
    simp only [Instant.clock, Instant.millisPerDay]
    omega
  have hfraction := readFraction?_six (by omega : 0 ≤ micros % 1000000) (by omega)
  rw [hmilli] at hfraction
  have hfields : readFields? (microChars micros) =
      some (fieldsOf (Instant.clock (micros / 1000))) := by
    rw [microChars_eq, readFields?_append h0 h1 hfraction]
    rfl
  rw [parse, microText, String.toList_ofList, hfields, Option.bind_some, ofFields?_fieldsOf h0]

/-! ## Counts and texts -/

/-- Under the policy that cuts, a count of microseconds is read as the millisecond next to it on
the side of 1970, and the text of the same instant as the millisecond below. They are the same from
1970 on and for whole milliseconds; otherwise the count gives the millisecond after that of the
text. -/
theorem readAvro_eq_parse_iff {micros : Int} {value : Value} (nullable : Bool)
    (hvalue : Avro.IsLong value micros) (h0 : 0 ≤ (microDate micros).year)
    (h1 : (microDate micros).year ≤ 9999) :
    ∃ counted told,
      FieldType.readAvro truncating (.primitive .datetime) nullable value =
        .ok (.instant (.at counted)) ∧
      parse (microText micros) = .ok (.at told) ∧
      (counted = told ↔ 0 ≤ micros ∨ 1000 ∣ micros) ∧
      (counted ≠ told → counted = told + 1) := by
  have htold := parse_microText h0 h1
  have hvalid : (micros / 1000).natAbs ≤ Instant.maxDays * Instant.millisPerDay :=
    isValid_of_parse htold
  have hrange : micros.natAbs / 1000 ≤ 8640000000000000 := by
    simp only [Instant.maxDays, Instant.millisPerDay] at hvalid
    omega
  have hread : Avro.readInstant (.primitive .datetime) truncating value =
      .ok (.instant (.at (micros.tdiv 1000))) :=
    Avro.readInstant_of_isLong _ hvalue hrange (Or.inl rfl)
  have hcounted : FieldType.readAvro truncating (.primitive .datetime) nullable value =
      .ok (.instant (.at (micros.tdiv 1000))) := by
    rw [FieldType.readAvro, if_neg (by simp [Avro.isAbsent_of_isLong hvalue])]
    exact hread
  refine ⟨micros.tdiv 1000, micros / 1000, hcounted, htold, ?_⟩
  -- dividing toward zero is dividing downward, or one more
  have hone : Int.sign 1000 = 1 := rfl
  rw [Int.tdiv_eq_ediv, hone]
  split
  · rename_i hsame
    exact ⟨iff_of_true (by omega) hsame, fun hne => absurd (by omega) hne⟩
  · rename_i hdiffer
    exact ⟨iff_of_false (by omega) hdiffer, fun _ => rfl⟩

/-- Nearly a tenth of a second before 1970: the count is cut to 99 milliseconds before, and the text
is read as 100 milliseconds before. -/
theorem readAvro_eq_parse_iff_before :
    ∃ counted told,
      FieldType.readAvro truncating (.primitive .datetime) true (.number (Double.ofInt (-99007))) =
        .ok (.instant (.at counted)) ∧
      parse "1969-12-31 23:59:59.900993 UTC" = .ok (.at told) ∧ counted = told + 1 := by
  have hvalue : Avro.IsLong (.number (Double.ofInt (-99007))) (-99007) :=
    Or.inr ⟨_, rfl, Double.whole?_ofInt (by decide)⟩
  have htext : microText (-99007) = "1969-12-31 23:59:59.900993 UTC" := by decide
  obtain ⟨counted, told, hcounted, htold, hsame, hlater⟩ :=
    readAvro_eq_parse_iff true hvalue (by decide) (by decide)
  rw [htext] at htold
  exact ⟨counted, told, hcounted, htold, hlater fun h => absurd (hsame.mp h) (by decide)⟩

/-- The last microsecond before 1970 is the start of 1970 by its count, and the last millisecond
before by its text. -/
theorem readAvro_ne_parse_lastMicro :
    (microDate (-1)).year = 1969 ∧
      FieldType.readAvro truncating (.primitive .datetime) false (.integer (-1)) =
        .ok (.instant (.at 0)) ∧
      microText (-1) = "1969-12-31 23:59:59.999999 UTC" ∧
      parse "1969-12-31 23:59:59.999999 UTC" = .ok (.at (-1)) :=
  ⟨by decide, by rfl, by decide, by rfl⟩

end WarehouseRows.Timestamp

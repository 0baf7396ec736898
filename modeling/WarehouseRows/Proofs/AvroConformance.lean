import WarehouseRows.Avro.Reader
import WarehouseRows.Proofs.CalendarRange
import WarehouseRows.Proofs.Columns
import WarehouseRows.Proofs.DecimalText
import WarehouseRows.Proofs.TableRows

/-!
# Native values that conform to an Avro schema

An Avro schema says what native values there are at each place. A value passes at a
canonical type if it is read and what is read has a cell. For every keyword that is known,
all values that conform to the Avro type of the keyword pass at its canonical type.

## Main definitions

* `AvroSchema.Conforms`: the native values of a schema.
* `FieldType.Passes`: the native values that make it to a cell.
-/

namespace WarehouseRows

/-! ## Conforming values -/

namespace Avro

/-- Whether a value is a native integer: a big integer, or a number that is the integer. -/
def IsLong (value : Value) (n : Int) : Prop :=
  value = .integer n ∨ ∃ x, value = .number x ∧ x.whole? = some n

/-- Whether a value is a container of bytes. -/
def IsBytes (value : Value) : Prop :=
  ∃ content, value = .bytes content ∨ value = .buffer content

/-- Whether a value is one of a primitive type, by its name. -/
def PrimitiveConforms (name : String) (value : Value) : Prop :=
  match name with
  | "string" => ∃ s, value = .string s
  | "bytes" => IsBytes value
  | "long" => ∃ n, IsLong value n ∧ PrimitiveKind.fits 64 n = true
  | "double" => ∃ x, value = .number x
  | "boolean" => ∃ b, value = .bool b
  | _ => False

/-- Whether a value is one of a logical type, by its name: an instant in the range of
instants and as fine as the options allow, a day in the range of dates, a time of day. -/
def LogicalConforms (options : ConversionOptions) (name : String) (value : Value) : Prop :=
  match name with
  | "timestamp-micros" =>
    ∃ micros, IsLong value micros ∧ micros.natAbs ≤ 8640000000000000000 ∧
      (options.truncateTimestamps = .truncate ∨
        (options.truncateTimestamps = .reject ∧ (1000 : Int) ∣ micros))
  | "date" => ∃ x days, value = .number x ∧ x.whole? = some days ∧ days.natAbs ≤ 100000000
  | "time-micros" => ∃ micros, IsLong value micros ∧ 0 ≤ micros ∧ micros < 86400000000
  | _ => False

/-- Whether a value is the text of a date and a time with a `T` between. -/
def IsDateTimeText (value : Value) : Prop :=
  ∃ date time d t, value = .string (String.ofList (date.toList ++ 'T' :: time.toList)) ∧
    LocalDate.parse date = .ok d ∧ LocalTime.parse time = .ok t

end Avro

namespace AvroSchema

mutual

/-- Whether a native value is one of a schema; only a nullable place takes a missing one. -/
def Conforms (options : ConversionOptions) (schema : AvroSchema) (value : Value) : Prop :=
  match schema with
  | .primitive name => Avro.PrimitiveConforms name value
  | .logical _ logicalType => Avro.LogicalConforms options logicalType value
  | .decimal _ _ => Avro.IsBytes value
  | .sqlText sqlType => sqlType = "DATETIME" ∧ Avro.IsDateTimeText value
  | .array items => ∃ list, value = .list list ∧ ∀ item ∈ list, Conforms options items item
  | .nullable type => value.isAbsent = true ∨ Conforms options type value
  | .record _ fields _ _ => Avro.isRecord value = true ∧ FieldsConform options fields value

/-- Whether a native record has a value of its schema for every field. -/
def FieldsConform (options : ConversionOptions) (fields : List AvroField) (record : Value) :
    Prop :=
  match fields with
  | [] => True
  | f :: rest =>
    (∃ value, record.fieldOf f.name = .ok value ∧ Conforms options f.type value) ∧
      FieldsConform options rest record

end

end AvroSchema

/-! ## Values that pass -/

namespace FieldType

/-- Whether a native value is read at a place, and what is read has a cell. -/
def Passes (options : ConversionOptions) (type : FieldType) (nullable : Bool) (value : Value) :
    Prop :=
  ∃ v cell, readAvro options type nullable value = .ok v ∧ v.orNull = v ∧
    encode type nullable v = .ok cell

variable {options : ConversionOptions} {nullable : Bool} {value v cell : Value}

theorem passes_absent (type : FieldType) (h : value.isAbsent = true) :
    Passes options type true value := by
  refine ⟨.null, .null, ?_, rfl, ?_⟩
  · rw [readAvro.eq_def, if_pos h]
    rfl
  · exact encode_null type true

theorem passes_primitive {kind : PrimitiveKind} (hpresent : value.isAbsent = false)
    (hread : Avro.readPrimitive kind options value = .ok v) (hv : v.isAbsent = false)
    (hcell : Cell.ofPrimitive kind v = .ok cell) :
    Passes options (.primitive kind) nullable value := by
  refine ⟨v, cell, ?_, Value.orNull_of_present hv, ?_⟩
  · rw [readAvro, if_neg (by simp [hpresent]), hread]
  · rw [encode, if_neg (Cell.isNull_of_present hv), hcell]

theorem passes_logical {identifier : String} {base : FieldType}
    {representation : Representation} {labels : Option (List String)}
    (hread : readAvro options (.logical identifier base representation labels) nullable value =
      .ok v) (hv : v.isAbsent = false)
    (hcell : Cell.ofLogical (.logical identifier base representation labels) representation labels
      v = .ok cell) :
    Passes options (.logical identifier base representation labels) nullable value := by
  refine ⟨v, cell, hread, Value.orNull_of_present hv, ?_⟩
  rw [encode, if_neg (Cell.isNull_of_present hv), hcell]

end FieldType

namespace Avro

theorem isAbsent_of_isLong {value : Value} {n : Int} (h : IsLong value n) :
    value.isAbsent = false := by
  rcases h with rfl | ⟨x, rfl, _⟩ <;> rfl

theorem toLong_of_isLong {value : Value} {n : Int} (type : FieldType) (h : IsLong value n) :
    toLong type value = .ok n := by
  rcases h with rfl | ⟨x, rfl, hx⟩
  · rfl
  · rw [toLong, hx]

theorem isAbsent_of_isBytes {value : Value} (h : IsBytes value) : value.isAbsent = false := by
  obtain ⟨content, rfl | rfl⟩ := h <;> rfl

theorem toBytes_of_isBytes {value : Value} (type : FieldType) (h : IsBytes value) :
    ∃ content, toBytes type value = .ok content := by
  obtain ⟨content, rfl | rfl⟩ := h <;> exact ⟨content, rfl⟩

/-- A time of day in microseconds is a binary64 number in nanoseconds. -/
theorem readTime_of_isLong {value : Value} {micros : Int} (type : FieldType)
    (h : IsLong value micros) (h0 : 0 ≤ micros) (h1 : micros < 86400000000) :
    ∃ t, readTime type value = .ok (.time t) := by
  have hwhole : Whole.ofDouble? (Double.ofInt (micros * 1000)) = some (.ofInt (micros * 1000)) :=
    Double.ofDouble?_ofInt (by omega)
  have hday : 0 ≤ micros * 1000 ∧ micros * 1000 < LocalTime.nanosPerDay := by
    simp only [LocalTime.nanosPerDay, LocalTime.nanosPerSecond]
    omega
  refine ⟨LocalTime.ofNanos (micros * 1000).toNat, ?_⟩
  rw [readTime, toLong_of_isLong type h, Outcome.ok_bind, LocalTime.ofNanoOfDay]
  simp only [hwhole, hday]
  rfl

/-- A count of microseconds is cut to the range of instants if it is less than a millisecond
beyond it. -/
theorem ofMillis_tdiv {micros : Int} (hrange : micros.natAbs / 1000 ≤ 8640000000000000) :
    Instant.ofMillis (micros.tdiv 1000) = .at (micros.tdiv 1000) := by
  have habs : (micros.tdiv 1000).natAbs = micros.natAbs / 1000 := Int.natAbs_tdiv ..
  rw [Instant.ofMillis, if_pos]
  simp only [Instant.maxDays, Instant.millisPerDay, habs]
  exact hrange

/-- The instant of a count of microseconds in the range of instants is valid. -/
theorem readInstant_of_isLong {options : ConversionOptions} {value : Value} {micros : Int}
    (type : FieldType) (h : IsLong value micros) (hrange : micros.natAbs / 1000 ≤ 8640000000000000)
    (hfine : options.truncateTimestamps = .truncate ∨
      (options.truncateTimestamps = .reject ∧ (1000 : Int) ∣ micros)) :
    readInstant type options value = .ok (.instant (.at (micros.tdiv 1000))) := by
  rw [readInstant, toLong_of_isLong type h, Outcome.ok_bind]
  rcases hfine with hpolicy | ⟨hpolicy, hdvd⟩
  · simp only [hpolicy, ofMillis_tdiv hrange]
    rfl
  · simp only [hpolicy, ofMillis_tdiv hrange, Int.tmod_eq_zero_of_dvd hdvd, if_true]
    rfl

/-- Text of a date and a time is divided at the `T` between them. -/
theorem readDateTime_of_text {value : Value} (type : FieldType) (h : IsDateTimeText value) :
    ∃ x, readDateTime type value = .ok (.dateTime x) := by
  obtain ⟨date, time, d, t, rfl, hdate, htime⟩ := h
  have hmark : ∀ c ∈ date.toList, (c != 'T') = true := fun c hc =>
    bne_iff_ne.mpr (LocalDate.ne_mark_of_parse hdate c hc)
  have hbefore : (date.toList ++ 'T' :: time.toList).takeWhile (· != 'T') = date.toList := by
    rw [List.takeWhile_append_of_pos hmark]
    simp
  have hbehind : (date.toList ++ 'T' :: time.toList).dropWhile (· != 'T') = 'T' :: time.toList := by
    rw [List.dropWhile_append_of_pos hmark]
    simp
  have hparse : LocalDateTime.parse (String.ofList (date.toList ++ 'T' :: time.toList)) =
      .ok ⟨d, t⟩ := by
    simp only [LocalDateTime.parse, String.toList_ofList, hbefore, hbehind, String.ofList_toList,
      hdate, htime]
    rfl
  refine ⟨⟨d, t⟩, ?_⟩
  rw [readDateTime, toText, Outcome.ok_bind, hparse]
  rfl

end Avro

/-! ## The types of keywords -/

namespace AvroSchema

/-- Whether all values of a schema are present and pass at a type. -/
def Serves (schema : AvroSchema) (type : FieldType) : Prop :=
  ∀ options nullable value, schema.Conforms options value →
    value.isAbsent = false ∧ type.Passes options nullable value

theorem serves_string : (AvroSchema.primitive "string").Serves (.primitive .string) := by
  rintro options nullable value ⟨s, rfl⟩
  exact ⟨rfl, FieldType.passes_primitive rfl rfl rfl rfl⟩

theorem serves_bytes : (AvroSchema.primitive "bytes").Serves (.primitive .bytes) := by
  rintro options nullable value ⟨content, rfl | rfl⟩ <;>
    exact ⟨rfl, FieldType.passes_primitive rfl rfl rfl rfl⟩

theorem serves_long : (AvroSchema.primitive "long").Serves (.primitive .int64) := by
  rintro options nullable value ⟨n, hlong, _⟩
  have hread : Avro.readPrimitive .int64 options value = .ok (.integer (Avro.wrap 64 n)) := by
    simp only [Avro.readPrimitive, Avro.toLong_of_isLong _ hlong]
    rfl
  have hpresent := Avro.isAbsent_of_isLong hlong
  exact ⟨hpresent, FieldType.passes_primitive hpresent hread rfl rfl⟩

theorem serves_double : (AvroSchema.primitive "double").Serves (.primitive .float64) := by
  rintro options nullable value ⟨x, rfl⟩
  exact ⟨rfl, FieldType.passes_primitive rfl rfl rfl rfl⟩

theorem serves_boolean : (AvroSchema.primitive "boolean").Serves (.primitive .boolean) := by
  rintro options nullable value ⟨b, rfl⟩
  exact ⟨rfl, FieldType.passes_primitive rfl rfl rfl rfl⟩

theorem serves_decimal : (AvroSchema.decimal numericPrecision numericScale).Serves
    (.primitive .decimal) := by
  intro options nullable value h
  obtain ⟨content, hcontent⟩ := Avro.toBytes_of_isBytes (.primitive .decimal) h
  have hprintable : Decimal.IsPrintable
      ⟨Decimal.signedValue content, Scale.ofInt numericScale⟩ := by
    refine ⟨.ofInt numericScale, rfl, by decide, ?_⟩
    simp only [Decimal.textLength, numericScale, Whole.toInt_ofInt, Text.longest]
    split <;> omega
  obtain ⟨text, htext, _⟩ := Decimal.exists_text hprintable
  have hread : Avro.readPrimitive .decimal options value =
      .ok (.decimal ⟨Decimal.signedValue content, Scale.ofInt numericScale⟩) := by
    simp only [Avro.readPrimitive, hcontent]
    rfl
  have hcell : Cell.ofPrimitive .decimal
      (.decimal ⟨Decimal.signedValue content, Scale.ofInt numericScale⟩) =
        .ok (.string text) := by
    simp only [Cell.ofPrimitive, Cell.decimalText, htext]
    rfl
  have hpresent := Avro.isAbsent_of_isBytes h
  exact ⟨hpresent, FieldType.passes_primitive hpresent hread rfl hcell⟩

theorem serves_timestamp : (AvroSchema.logical "long" "timestamp-micros").Serves
    (.primitive .datetime) := by
  rintro options nullable value ⟨micros, hlong, hrange, hfine⟩
  have hread := Avro.readInstant_of_isLong (.primitive .datetime) hlong (by omega) hfine
  have hpresent := Avro.isAbsent_of_isLong hlong
  exact ⟨hpresent, FieldType.passes_primitive hpresent hread rfl rfl⟩

theorem serves_date : (AvroSchema.logical "int" "date").Serves .date := by
  rintro options nullable value ⟨x, days, rfl, hwhole, _⟩
  have hread : FieldType.readAvro options .date nullable (.number x) =
      .ok (.date (LocalDate.ofDayCount x)) := by
    simp only [FieldType.date, FieldType.readAvro, Avro.readDate, hwhole]
    rfl
  exact ⟨rfl, FieldType.passes_logical hread rfl rfl⟩

theorem serves_time : (AvroSchema.logical "long" "time-micros").Serves .time := by
  rintro options nullable value ⟨micros, hlong, h0, h1⟩
  obtain ⟨t, ht⟩ := Avro.readTime_of_isLong .time hlong h0 h1
  have hpresent := Avro.isAbsent_of_isLong hlong
  have hread : FieldType.readAvro options .time nullable value = .ok (.time t) := by
    rw [FieldType.time, FieldType.readAvro, if_neg (by simp [hpresent])]
    exact ht
  exact ⟨hpresent, FieldType.passes_logical hread rfl rfl⟩

theorem serves_datetime : (AvroSchema.sqlText "DATETIME").Serves .datetime := by
  rintro options nullable value ⟨_, htext⟩
  obtain ⟨x, hx⟩ := Avro.readDateTime_of_text .datetime htext
  have hpresent : value.isAbsent = false := by
    obtain ⟨_, _, _, _, rfl, _⟩ := htext
    rfl
  have hread : FieldType.readAvro options .datetime nullable value = .ok (.dateTime x) := by
    rw [FieldType.datetime, FieldType.readAvro, if_neg (by simp [hpresent])]
    exact hx
  exact ⟨hpresent, FieldType.passes_logical hread rfl rfl⟩

end AvroSchema

/-- The Avro type of a keyword serves its canonical type, and no keyword stands for a map. -/
theorem Column.exists_avroScalar {keyword : Option String} {type : FieldType}
    (h : scalarType keyword = .ok type) :
    type.isMap = false ∧ ∃ avro, avroScalar keyword = .ok avro ∧ avro.Serves type := by
  cases keyword with
  | none => exact absurd h (by simp [scalarType, lookUp])
  | some k =>
    rw [scalarType] at h
    split at h
    · rename_i found hfound
      obtain rfl := Except.ok.inj h
      have hmem : (k, found) ∈ scalarTypes := Keyword.mem_of_lookup hfound
      simp only [scalarTypes, List.mem_cons, Prod.mk.injEq, List.not_mem_nil, or_false] at hmem
      -- both tables of keywords, entry by entry
      rcases hmem with ⟨rfl, rfl⟩ | ⟨rfl, rfl⟩ | ⟨rfl, rfl⟩ | ⟨rfl, rfl⟩ | ⟨rfl, rfl⟩ |
        ⟨rfl, rfl⟩ | ⟨rfl, rfl⟩ | ⟨rfl, rfl⟩ | ⟨rfl, rfl⟩ | ⟨rfl, rfl⟩ | ⟨rfl, rfl⟩ |
        ⟨rfl, rfl⟩ | ⟨rfl, rfl⟩
      · exact ⟨rfl, _, rfl, AvroSchema.serves_string⟩
      · exact ⟨rfl, _, rfl, AvroSchema.serves_bytes⟩
      · exact ⟨rfl, _, rfl, AvroSchema.serves_long⟩
      · exact ⟨rfl, _, rfl, AvroSchema.serves_long⟩
      · exact ⟨rfl, _, rfl, AvroSchema.serves_double⟩
      · exact ⟨rfl, _, rfl, AvroSchema.serves_double⟩
      · exact ⟨rfl, _, rfl, AvroSchema.serves_boolean⟩
      · exact ⟨rfl, _, rfl, AvroSchema.serves_boolean⟩
      · exact ⟨rfl, _, rfl, AvroSchema.serves_decimal⟩
      · exact ⟨rfl, _, rfl, AvroSchema.serves_timestamp⟩
      · exact ⟨rfl, _, rfl, AvroSchema.serves_time⟩
      · exact ⟨rfl, _, rfl, AvroSchema.serves_date⟩
      · exact ⟨rfl, _, rfl, AvroSchema.serves_datetime⟩
    · exact absurd h (by simp)

end WarehouseRows

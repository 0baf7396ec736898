import WarehouseRows.Avro.Schema
import WarehouseRows.Options
import WarehouseRows.Schema.Describe
import WarehouseRows.Text.Utf8
import WarehouseRows.Value.Entries
import WarehouseRows.Value.Text

/-!
# Rows from Avro records

An Avro reader delivers native values: integers as numbers or big integers, text as
strings or UTF-8 bytes, bytes in either of two containers. This module takes such a
value to the canonical value of a declared type. Integers wrap to the width of
their type; an instant in microseconds is cut to milliseconds or refused, as the
options say.

The fields of a record are found by name, and a missing field reads as an absent
value. The two parts of a map entry are found by position.

## Main definitions

* `FieldType.readAvro`: the canonical value of a native value.
* `Row.ofAvro`: the row of a record.
-/

namespace WarehouseRows

namespace Avro

/-! ## Native values -/

/-- The refusal of a native value that a type cannot hold. -/
def unsupported (type : FieldType) (value : Value) : Failure :=
  .conversion
    { code := .unsupportedConversion
      message := s!"Does not support converting Avro value of type {value.kindName} " ++
        s!"to {type.describe}"
      fieldType := some type.describe
      valueType := some value.kindName }

/-- A native integer. -/
def toLong (type : FieldType) (value : Value) : Except Failure Int :=
  match value with
  | .integer n => .ok n
  | .number x =>
    match x.whole? with
    | some n => .ok n
    | none => .error (unsupported type value)
  | _ => .error (unsupported type value)

/-- The refusal of an heir of a container, which holds no bytes that can be copied. -/
def noCopy (value : Value) : Failure :=
  if value.isA .bytes then Operand.refusal "this is not a typed array."
  else if (value.held? "slice").isSome then Operand.noFunction "value.slice"
  else value.incompatible "ArrayBuffer.prototype.slice"

/-- Native bytes. -/
def toBytes (type : FieldType) (value : Value) : Except Failure (List UInt8) :=
  match value with
  | .bytes bytes => .ok bytes
  | .buffer bytes => .ok bytes
  | v => .error (if v.holdsBytes then noCopy v else unsupported type v)

/-- The refusal to decode an heir of a container. -/
def noDecoding : Failure :=
  Operand.refusal ("The \"list\" argument must be an instance of SharedArrayBuffer, " ++
    "ArrayBuffer or ArrayBufferView.")

/-- Native text. -/
def toText (type : FieldType) (value : Value) : Except Failure String :=
  match value with
  | .string s => .ok s
  | .bytes bytes => .ok (Utf8.decode bytes)
  | v => .error (if v.isA .bytes then noDecoding else unsupported type v)

/-- An integer reduced to a width, with its sign. -/
def wrap (bits : Nat) (n : Int) : Int :=
  Int.bmod n (Nat.pow 2 bits)

/-! ## Leaves -/

/-- The refusal of an instant that is finer than a millisecond. -/
def precisionLoss (type : FieldType) (value : Value) (micros : Int) : Failure :=
  .conversion
    { code := .precisionLoss
      message := s!"BigQuery data contained value {micros} with sub-millisecond precision, " ++
        "which is not supported. You can enable truncating timestamps to millisecond " ++
        "precision with truncateTimestamps: 'truncate'"
      fieldType := some type.describe
      valueType := some value.kindName
      suggestion :=
        some "Set ConversionOptions.truncateTimestamps to 'truncate' and retry the conversion" }

/-- The instant of a count of microseconds. -/
def readInstant (type : FieldType) (options : ConversionOptions) (value : Value) :
    Except Failure Value := do
  let micros ← toLong type value
  match options.truncateTimestamps with
  | .truncate => pure (.instant (Instant.ofMillis (micros.tdiv 1000)))
  | .reject =>
    if micros.tmod 1000 = 0 then pure (.instant (Instant.ofMillis (micros.tdiv 1000)))
    else .error (precisionLoss type value micros)
  | .unknown name => .error (.plain s!"Unknown timestamp truncation option: {name}")

/-- An integer of a bounded width, as a number. -/
def readBounded (type : FieldType) (bits : Nat) (value : Value) : Except Failure Value :=
  (toLong type value).map fun n => .number (Double.ofInt (wrap bits n))

/-- The value of a primitive kind. -/
def readPrimitive (kind : PrimitiveKind) (options : ConversionOptions) (value : Value) :
    Except Failure Value :=
  let type := FieldType.primitive kind
  match kind with
  | .byte => readBounded type 8 value
  | .int16 => readBounded type 16 value
  | .int32 => readBounded type 32 value
  | .int64 => (toLong type value).map fun n => .integer (wrap 64 n)
  | .float32 =>
    match value with
    | .number x => .ok (.number x.toSingle)
    | _ => .error (unsupported type value)
  | .float64 =>
    match value with
    | .number x => .ok (.number x)
    | _ => .error (unsupported type value)
  | .boolean =>
    match value with
    | .bool b => .ok (.bool b)
    | _ => .error (unsupported type value)
  | .string => (toText type value).map .string
  | .bytes => (toBytes type value).map .bytes
  | .decimal =>
    (toBytes type value).map fun bytes =>
      .decimal ⟨Decimal.signedValue bytes, Scale.ofInt AvroSchema.numericScale⟩
  | .datetime => readInstant type options value

/-- The date of a count of days, which has to be an integral number. -/
def readDate (type : FieldType) (value : Value) : Except Failure Value :=
  match value with
  | .number x =>
    if x.whole?.isSome then .ok (.date (LocalDate.ofDayCount x))
    else .error (unsupported type value)
  | _ => .error (unsupported type value)

/-- The time of day of a count of microseconds. -/
def readTime (type : FieldType) (value : Value) : Except Failure Value := do
  let micros ← toLong type value
  ((LocalTime.ofNanoOfDay (Double.ofInt (micros * 1000))).map .time).mapError .conversion

/-- The date and time of a text. -/
def readDateTime (type : FieldType) (value : Value) : Except Failure Value := do
  let text ← toText type value
  ((LocalDateTime.parse text).map .dateTime).mapError .conversion

/-- The refusal of a logical type that has no native values. -/
def unknownLogical (identifier : String) (type : FieldType) (value : Value) : Failure :=
  .conversion
    { code := .unknownLogicalType
      message := s!"Unknown logical type {identifier}"
      fieldType := some type.describe
      valueType := some value.kindName }

/-- An absent value where the type is `type`. -/
def readAbsent (type : FieldType) (nullable : Bool) : Except Failure Value :=
  if nullable then .ok .null
  else
    .error <| .conversion
      { code := .nonNullableNull
        message := s!"Field {type.describe} not nullable"
        fieldType := some type.describe
        valueType := some "null" }

/-! ## Composites -/

/-- Whether a native value is a record: an object that does not hold bytes. -/
def isRecord (value : Value) : Bool :=
  value.isObject && !value.holdsBytes

/-- The items of a native list. -/
def toItems (type : FieldType) (value : Value) : Except Failure (List Value) :=
  match value with
  | .list items => .ok items
  | _ => .error (unsupported type value)

/-- The raw key and the raw value of an entry: the first two values of a record. -/
def splitEntry (type : FieldType) (item : Value) : Except Failure (Value × Value) :=
  if isRecord item then
    match item.ownValues with
    | key :: value :: _ => .ok (key, value)
    | [key] => .ok (key, .missing)
    | [] => .ok (.missing, .missing)
  else .error (unsupported type item)

end Avro

namespace FieldType

mutual

/-- The canonical value of a native value. -/
def readAvro (options : ConversionOptions) (type : FieldType) (nullable : Bool) (value : Value) :
    Except Failure Value :=
  if value.isAbsent then Avro.readAbsent type nullable
  else
    match type with
    | .primitive kind => Avro.readPrimitive kind options value
    | .array element elementNullable => do
      let items ← Avro.toItems (.array element elementNullable) value
      let items ← items.mapM fun item => readAvro options element elementNullable item
      pure (.list items)
    | .map keyType valueType valueNullable => do
      let type := FieldType.map keyType valueType valueNullable
      let items ← Avro.toItems type value
      let entries ← Value.readEntries (Avro.splitEntry type)
        (fun key => readAvro options keyType false key)
        (fun entry => readAvro options valueType valueNullable entry)
        (Value.duplicateKey type) [] items
      pure (.map entries)
    | .row fields =>
      if Avro.isRecord value then do
        let row ← readAvroFields options fields value
        pure (.list row)
      else .error (Avro.unsupported (.row fields) value)
    | .logical identifier base representation labels =>
      let type := FieldType.logical identifier base representation labels
      match representation with
      | .date => Avro.readDate type value
      | .time => Avro.readTime type value
      | .datetime => Avro.readDateTime type value
      | .timeWithLocalTz => Avro.readInstant type options value
      | .passThrough => readAvro options base nullable value
      | .enumeration | .custom => .error (Avro.unknownLogical identifier type value)
      | .unknown name => .error (.plain s!"Unknown logical representation: {name}")
    | .unknown kind => .error (.plain s!"{kind} is not a primitive type")

/-- The canonical values of the fields of a native record, in the order of the
schema. -/
def readAvroFields (options : ConversionOptions) (fields : List Field) (record : Value) :
    Except Failure Row :=
  match fields with
  | [] => .ok []
  | f :: rest => do
    let first ← ((record.fieldOf f.name).bind (readAvro options f.type f.nullable)).mapError
      (Failure.inField f.name)
    let others ← readAvroFields options rest record
    pure (first :: others)

end

end FieldType

/-- The row of a native record, in the order of a schema. -/
def Row.ofAvro (options : ConversionOptions) (schema : Schema) (record : Value) :
    Except Failure Row :=
  FieldType.readAvroFields options schema record

end WarehouseRows

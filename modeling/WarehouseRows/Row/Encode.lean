import WarehouseRows.Json.Writer
import WarehouseRows.Row.CellText
import WarehouseRows.Schema.Describe
import WarehouseRows.Value.Record

/-!
# Table rows from canonical rows

A table row names the values of a row, and writes every scalar as text, so that no
JSON library on the way rounds a number. Arrays become lists, maps become lists of
records with a `key` and a `value`, nested rows become records.

Only dates, times, instants, bytes, arrays, maps and rows insist on the kind of the
value, where an heir counts as a value of the kind, except for arrays and rows; at all
other types the value is written with its default text. The cell of a field of the
reserved name becomes the parent of the table row, if it can be one.

## Main definitions

* `FieldType.encode`: the cell of a value.
* `Row.toTableRow`: the table row of a row.
-/

namespace WarehouseRows

namespace Cell

/-- The refusal of a value that a type cannot hold. -/
def unsupported (type : FieldType) (value : Value) : Failure :=
  .conversion
    { code := .unsupportedConversion
      message := s!"Cannot encode a {value.kindName} as {type.describe}"
      fieldType := some type.describe
      valueType := some value.kindName }

/-- A value written with its text. -/
def written (value : Value) : Except Failure Value :=
  (textOf value).map .string

/-- A value that has to be of a sort, itself or as an heir, written by a format. -/
def ofSort (sort : Archetype) (format : Value → Except Failure String) (type : FieldType)
    (value : Value) : Except Failure Value :=
  if value.isA sort then (format value).map .string else .error (unsupported type value)

/-- The cell of a value of a primitive kind. -/
def ofPrimitive (kind : PrimitiveKind) (value : Value) : Except Failure Value :=
  match kind, value with
  | .datetime, v => ofSort .instant instantText (.primitive .datetime) v
  | .bytes, v => ofSort .bytes bytesText (.primitive .bytes) v
  | .float32, .number x => .ok (.string (Single.format x))
  | .decimal, v => (decimalText v).map .string
  | _, v => written v

/-- The label of an ordinal, if the value is one. -/
def label? (labels : Option (List String)) (value : Value) : Option String :=
  match value with
  | .number x =>
    match x.whole? with
    | some n => if 0 ≤ n then (labels.getD [])[n.toNat]? else none
    | none => none
  | _ => none

/-- The cell of an enumeration value. -/
def ofOrdinal (type : FieldType) (labels : Option (List String)) (value : Value) :
    Except Failure Value :=
  match label? labels value with
  | some label => .ok (.string label)
  | none => do
    let text ← textOf value
    .error <| .conversion
      { code := .invalidValue
        message := s!"{text} is not an ordinal of enum {type.describe}"
        fieldType := some type.describe
        valueType := some value.kindName }

/-- The cell of a value of a logical type. -/
def ofLogical (type : FieldType) (representation : Representation)
    (labels : Option (List String)) (value : Value) : Except Failure Value :=
  match representation with
  | .date => ofSort .date dateText type value
  | .time => ofSort .time timeText type value
  | .datetime => ofSort .dateTime dateTimeText type value
  | .enumeration => ofOrdinal type labels value
  | .timeWithLocalTz | .passThrough | .custom => written value
  | .unknown name => .error (.plain s!"Unknown logical representation: {name}")

/-- The cell of a missing value. -/
def ofNull (type : FieldType) (nullable : Bool) : Except Failure Value :=
  if nullable then .ok .null
  else
    .error <| .conversion
      { code := .nonNullableNull
        message := "Field is not nullable."
        fieldType := some type.describe
        valueType := some "null" }

/-- The refusal of a value that has no entries: an heir of a map is taken for one, but
holds none. -/
def noEntries (type : FieldType) (value : Value) : Failure :=
  if value.isA .map then value.incompatible "Map.prototype.entries" else unsupported type value

/-- The record of a map entry. -/
def entry (key value : Value) : Value :=
  .record [(MapEntry.keyName, key), (MapEntry.valueName, value)]

/-- Whether a value is the missing one. -/
def isNull : Value → Bool
  | .null => true
  | _ => false

end Cell

namespace FieldType

mutual

/-- The cell of a value. -/
def encode (type : FieldType) (nullable : Bool) (value : Value) : Except Failure Value :=
  if Cell.isNull value then Cell.ofNull type nullable
  else
    match type with
    | .primitive kind => Cell.ofPrimitive kind value
    | .array element elementNullable =>
      match value with
      | .list items => do
        let cells ← items.mapM fun item => encode element elementNullable item
        pure (.list cells)
      | v => .error (Cell.unsupported (.array element elementNullable) v)
    | .map keyType valueType valueNullable =>
      match value with
      | .map entries => do
        let records ← entries.mapM fun e => do
          let key ← encode keyType false e.1
          let cell ← encode valueType valueNullable e.2
          pure (Cell.entry key cell)
        pure (.list records)
      | v => .error (Cell.noEntries (.map keyType valueType valueNullable) v)
    | .row fields =>
      match value with
      | .list items =>
        if items.length = fields.length then do
          let cells ← encodeFields fields items
          pure (Value.ofAssignments cells)
        else .error (.conversion (Row.widthError items fields))
      | v => .error (Cell.unsupported (.row fields) v)
    | .logical identifier base representation labels =>
      Cell.ofLogical (.logical identifier base representation labels) representation labels value
    | .unknown kind =>
      .error (.plain ("Unknown field type: " ++ (Json.object [("kind", .string kind)]).compact))

/-- The cells of the values of a row under the names of their fields; a missing
value counts as `null`. -/
def encodeFields (fields : List Field) (row : Row) : Except Failure (List (String × Value)) :=
  match fields with
  | [] => .ok []
  | f :: rest => do
    let cell ← (encode f.type f.nullable (row.headD .missing).orNull).mapError
      (Failure.inField f.name)
    let others ← encodeFields rest (row.drop 1)
    pure ((f.name, cell) :: others)

end

end FieldType

/-- The table row of a row. -/
def Row.toTableRow (row : Row) (schema : Schema) : Except Failure Value :=
  if row.length = schema.length then do
    let cells ← FieldType.encodeFields schema row
    pure (Value.ofAssignments cells)
  else .error (.conversion (Row.widthError row schema))

end WarehouseRows

import WarehouseRows.Row.Scalar
import WarehouseRows.Table.Column
import WarehouseRows.Value.Entries
import WarehouseRows.Value.Text

/-!
# Canonical rows from table rows

A table row holds its values under the names of the columns, every scalar as text.
The tabular interface delivers rows of another shape: under the name `f`, the cells in
the order of the table, each wrapped in a record with the single member `v`. Wrapped
cells may also stand inside arrays and maps, where the wrapping is taken off; an item
of an array of rows is unwrapped only if there is a record inside.

## Main definitions

* `FieldType.parse`: the canonical value of a cell.
* `Row.ofTableRow`: the row of a table row.
* `Row.ofCells`: the row of a row of the tabular interface.
-/

namespace WarehouseRows

namespace Cell

/-- The member that holds the value of a wrapped cell. -/
def wrapName : String := "v"

/-- The value inside a wrapped cell; any other value as it is. -/
def unwrap (value : Value) : Value :=
  if value.isObject then
    match value.ownMembers with
    | [(name, inner)] => if name = wrapName then inner else value
    | _ => value
  else value

/-- The value inside an item of an array with elements of a type. -/
def unwrapElement (element : FieldType) (item : Value) : Value :=
  match element with
  | .row _ => if (unwrap item).isObject then unwrap item else item
  | _ => unwrap item

/-- The refusal of a cell that a type cannot hold. -/
def unreadable (type : FieldType) (value : Value) : Failure :=
  .conversion
    { code := .unsupportedConversion
      message := s!"Converting BigQuery value of type '{value.kindName}' " ++
        s!"to '{type.describe}' is not supported"
      fieldType := some type.describe
      valueType := some value.kindName }

/-- The refusal of a missing value. -/
def missing (type : FieldType) : Failure :=
  .conversion
    { code := .nonNullableNull
      message := "Received null value for non-nullable field"
      fieldType := some type.describe
      valueType := some "null" }

/-- A missing value where the type is `type`. -/
def parseMissing (type : FieldType) (nullable : Bool) : Except Failure Value :=
  if nullable then .ok .null else .error (missing type)

/-- The ordinal of a label. -/
def parseLabel (type : FieldType) (labels : Option (List String)) (text : String) :
    Except Failure Value :=
  match (labels.getD []).idxOf? text with
  | some i => .ok (.number (Double.ofNat i))
  | none =>
    .error <| .conversion
      { code := .invalidValue
        message := s!"\"{text}\" is not a label of enum {type.describe}"
        fieldType := some type.describe
        valueType := some "string" }

/-- The value that text denotes at a type; `none` where the type has no text form. -/
def parseScalar (type : FieldType) (text : String) : Except Failure (Option Value) :=
  match type with
  | .primitive kind => ((kind.parseText text).map some).mapError .conversion
  | .logical identifier base representation labels =>
    match representation with
    | .datetime =>
      ((LocalDateTime.parseFixed text).map fun x => some (.dateTime x)).mapError .conversion
    | .date => ((LocalDate.parse text).map fun d => some (.date d)).mapError .conversion
    | .time => ((LocalTime.parse text).map fun t => some (.time t)).mapError .conversion
    | .passThrough => parseScalar base text
    | .enumeration =>
      (parseLabel (.logical identifier base representation labels) labels text).map some
    | .timeWithLocalTz | .custom => .ok none
    | .unknown name => .error (.plain s!"Unknown logical representation: {name}")
  | _ => .ok none

/-- The text of a cell that holds a scalar: a string, a number or a truth value. -/
def scalarText? : Value → Option String
  | .string s => some s
  | .number x => some x.text
  | .bool b => some (if b then "true" else "false")
  | _ => none

/-- The value of a cell that holds a scalar. -/
def parseText (type : FieldType) (nullable : Bool) (value : Value) (text : String) :
    Except Failure Value := do
  match ← parseScalar type text with
  | some parsed => if parsed.isAbsent then parseMissing type nullable else pure parsed
  | none => .error (unreadable type value)

/-- The raw key and the raw value of a map entry. -/
def splitEntry (type : FieldType) (item : Value) : Except Failure (Value × Value) :=
  let entry := unwrap item
  if entry.isObject then .ok (entry.member MapEntry.keyName, entry.member MapEntry.valueName)
  else .error (unreadable type entry.orNull)

end Cell

namespace FieldType

mutual

/-- The canonical value of a cell. -/
def parse (type : FieldType) (nullable : Bool) (value : Value) : Except Failure Value :=
  if value.isAbsent then Cell.parseMissing type nullable
  else
    match Cell.scalarText? value with
    | some text => Cell.parseText type nullable value text
    | none =>
      match type with
      | .array element elementNullable =>
        match value with
        | .list items => do
          let parsed ← items.mapM fun item =>
            parse element elementNullable (Cell.unwrapElement element item)
          pure (.list parsed)
        | v => .error (Cell.unreadable (.array element elementNullable) v)
      | .map keyType valueType valueNullable =>
        let type := FieldType.map keyType valueType valueNullable
        match value with
        | .list items => do
          let entries ← Value.readEntries (Cell.splitEntry type)
            (fun key => parse keyType false key)
            (fun entry => parse valueType valueNullable entry)
            (Value.duplicateKey type) [] items
          pure (.map entries)
        | v => .error (Cell.unreadable type v)
      | .row fields =>
        if value.isObject then do
          let row ← parseFields fields value
          pure (.list row)
        else .error (Cell.unreadable (.row fields) value)
      | type => .error (Cell.unreadable type value)

/-- The canonical values of fields that a table row holds, in the order of the
schema. -/
def parseFields (fields : List Field) (tableRow : Value) : Except Failure Row :=
  match fields with
  | [] => .ok []
  | f :: rest => do
    let first ← ((tableRow.fieldOf f.name).bind (parse f.type f.nullable)).mapError
      (Failure.inField f.name)
    let others ← parseFields rest tableRow
    pure (first :: others)

end

end FieldType

namespace Row

/-- The row of a table row, each value found by name. -/
def ofTableRow (schema : Schema) (tableRow : Value) : Except Failure Row :=
  FieldType.parseFields schema tableRow

/-- The last position of each column name. -/
def positionOf? (columns : TableSchema) (name : String) : Option Nat :=
  (columns.zipIdx.foldl (fun found p => if p.1.name = name then some p.2 else found) none)

/-- The value in the cell at a position; a position without a cell has none. -/
def cellAt (cells : Value) (position : Nat) : Except Failure Value := do
  let cell ← match cells with
    | .list items => pure (items.getD position .missing)
    | v => v.fieldOf (toString position)
  pure (if cell.isAbsent then .missing else cell.member Cell.wrapName)

/-- The refusal of a field that the table does not have. -/
def noColumn (f : Field) : Failure :=
  .conversion
    { code := .schemaMismatch
      message := s!"Field \"{f.name}\" is not part of the table schema"
      field := some f.name
      fieldType := some f.type.describe }

/-- The member that holds the cells of a row of the tabular interface. -/
def cellsName : String := "f"

/-- The row of cells that stand in the order of a table. -/
def ofCells (schema : Schema) (columns : TableSchema) (dataRow : Value) : Except Failure Row :=
  schema.mapM fun f =>
    match positionOf? columns f.name with
    | none => .error (noColumn f)
    | some position =>
      (((dataRow.fieldOf cellsName).bind (cellAt · position)).bind
        (f.type.parse f.nullable)).mapError (Failure.inField f.name)

end Row

end WarehouseRows

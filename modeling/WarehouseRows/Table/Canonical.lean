import WarehouseRows.Options
import WarehouseRows.Table.Column
import WarehouseRows.Table.Keyword

/-!
# Canonical schemas and table schemas

A canonical field becomes a column: an array becomes a repeated column, a map a
repeated struct of `key` and `value`, a row a struct. A column becomes a field the
other way round. Narrow integers and floats come back in their wide form, repeated
columns come back as fields that are not nullable, and a struct of `key` and
`value` comes back as a map only when the options say so.

## Main definitions

* `Schema.toTable`: the columns of a schema.
* `TableSchema.toSchema`: the schema of columns.
* `Schema.tableDocument`: the JSON form of the columns of a schema.
-/

namespace WarehouseRows

/-! ## From schemas to columns -/

namespace Field

/-- The mode of a field that is not repeated. -/
def mode (nullable : Bool) : Option Column.Mode :=
  if nullable then none else some .required

/-- The refusal of an array of arrays. -/
def arrayOfArrays (name : String) (type : FieldType) : ConversionError :=
  { code := .structuralMismatch
    message := "Array of collection is not supported in BigQuery"
    field := some name
    fieldType := some type.describe }

/-- The column of a field whose type has no columns inside. -/
def plainColumn (name : String) (type : FieldType) (mode : Option Column.Mode)
    (description : Option String) : Except ConversionError Column :=
  match type.keyword with
  | .ok keyword => .ok ⟨name, some keyword, mode, none, description⟩
  | .error e => .error (e.withField name)

end Field

namespace FieldType

mutual

/-- The column of a field, from the parts of the field. -/
def toColumn (name : String) (nullable : Bool) (description : Option String) :
    FieldType → Except ConversionError Column
  | .array (.array element inner) outer =>
    .error (Field.arrayOfArrays name (.array (.array element inner) outer))
  | .array (.row fields) _ => do
    let columns ← toColumns fields
    pure ⟨name, some "STRUCT", some .repeated, some columns, description⟩
  | .array (.map key value valueNullable) _ => do
    let keyColumn ← toColumn MapEntry.keyName false none key
    let valueColumn ← toColumn MapEntry.valueName valueNullable none value
    pure ⟨name, some "STRUCT", some .repeated, some [keyColumn, valueColumn], description⟩
  | .array element _ => Field.plainColumn name element (some .repeated) description
  | .row fields => do
    let columns ← toColumns fields
    pure ⟨name, some "STRUCT", Field.mode nullable, some columns, description⟩
  | .map key value valueNullable => do
    let keyColumn ← toColumn MapEntry.keyName false none key
    let valueColumn ← toColumn MapEntry.valueName valueNullable none value
    pure ⟨name, some "STRUCT", some .repeated, some [keyColumn, valueColumn], description⟩
  | type => Field.plainColumn name type (Field.mode nullable) description

/-- The columns of fields. -/
def toColumns : List Field → Except ConversionError (List Column)
  | [] => .ok []
  | f :: rest => do
    let column ← toColumn f.name f.nullable (ConversionError.present? f.description) f.type
    let columns ← toColumns rest
    pure (column :: columns)

end

end FieldType

/-- The columns of a schema. -/
def Schema.toTable (schema : Schema) : Except ConversionError TableSchema :=
  FieldType.toColumns schema

/-! ## The written form of those columns

A column is written with its mode before its nested columns, except that the mode
of a nullable map stands behind them. -/

namespace FieldType

/-- The fields of the struct that stores a type, if any. -/
def structFields : FieldType → List Field
  | .row fields => fields
  | .map key value valueNullable =>
    [⟨MapEntry.keyName, key, false, none⟩, ⟨MapEntry.valueName, value, valueNullable, none⟩]
  | .array (.row fields) _ => fields
  | .array (.map key value valueNullable) _ =>
    [⟨MapEntry.keyName, key, false, none⟩, ⟨MapEntry.valueName, value, valueNullable, none⟩]
  | _ => []

/-- Whether a type is a map. -/
def isMap : FieldType → Bool
  | .map .. => true
  | _ => false

end FieldType

mutual

/-- The written form of the column of a field. -/
def Column.documentOf (type : FieldType) (nullable : Bool) : Column → Json
  | ⟨name, keyword, mode, some fields, description⟩ =>
    Column.document name keyword description mode
      (some (Column.documentsOf type.structFields fields)) (nullable && type.isMap)
  | ⟨name, keyword, mode, none, description⟩ =>
    Column.document name keyword description mode none false

/-- The written forms of the columns of fields. -/
def Column.documentsOf : List Field → List Column → List Json
  | f :: fields, c :: columns =>
    Column.documentOf f.type f.nullable c :: Column.documentsOf fields columns
  | _, _ => []

end

/-- The written form of the columns of a schema. -/
def Schema.tableDocument (schema : Schema) (columns : TableSchema) : Json :=
  .object [("fields", .array (Column.documentsOf schema columns))]

/-! ## From columns to schemas -/

namespace Column

/-- The types of the keywords that stand for one type whatever is nested. -/
def scalarTypes : List (String × FieldType) :=
  [("STRING", .primitive .string), ("BYTES", .primitive .bytes), ("INT64", .primitive .int64),
    ("INTEGER", .primitive .int64), ("FLOAT64", .primitive .float64),
    ("FLOAT", .primitive .float64), ("BOOL", .primitive .boolean),
    ("BOOLEAN", .primitive .boolean), ("NUMERIC", .primitive .decimal),
    ("TIMESTAMP", .primitive .datetime), ("TIME", .time), ("DATE", .date),
    ("DATETIME", .datetime)]

/-- The refusal of a keyword that stands for no canonical type. -/
def noType (keyword : Option String) : ConversionError :=
  { code := .unsupportedType
    message :=
      s!"Converting BigQuery type {shownKeyword keyword} to a canonical type is unsupported"
    fieldType := keyword }

/-- The type of a keyword without a struct. -/
def scalarType (keyword : Option String) : Except ConversionError FieldType :=
  match lookUp scalarTypes keyword with
  | some type => .ok type
  | none => .error (noType keyword)

/-- The type of a column with its mode: repeated columns are arrays, save for maps. -/
def withMode (mode : Option Mode) (type : FieldType) : FieldType :=
  if mode = some .repeated ∧ !type.isMap then .array type false else type

mutual

/-- The type of a column, its mode aside. -/
def baseType (options : SchemaOptions) : Column → Except ConversionError FieldType
  | ⟨_, keyword, _, some [key, value], _⟩ =>
    if isStruct keyword then
      if options.inferMaps ∧ key.name = MapEntry.keyName ∧ value.name = MapEntry.valueName then do
        let keyType ← baseType options key
        let valueType ← baseType options value
        pure (.map keyType valueType false)
      else do
        let fields ← toFields options [key, value]
        let fields ← Schema.create fields
        pure (.row fields)
    else scalarType keyword
  | ⟨_, keyword, _, some columns, _⟩ =>
    if isStruct keyword then do
      let fields ← toFields options columns
      let fields ← Schema.create fields
      pure (.row fields)
    else scalarType keyword
  | ⟨_, keyword, _, none, _⟩ => if isStruct keyword then .ok (.row []) else scalarType keyword

/-- The fields of columns. -/
def toFields (options : SchemaOptions) : List Column → Except ConversionError (List Field)
  | [] => .ok []
  | c :: rest => do
    let type ← (baseType options c).mapError fun e => e.withField c.name
    let fields ← toFields options rest
    pure (⟨c.name, withMode c.mode type, c.isNullable, ConversionError.present? c.description⟩ ::
      fields)

end

end Column

/-- The schema of columns. -/
def TableSchema.toSchema (options : SchemaOptions) (columns : TableSchema) :
    Except ConversionError Schema := do
  let fields ← Column.toFields options columns
  Schema.create fields

end WarehouseRows

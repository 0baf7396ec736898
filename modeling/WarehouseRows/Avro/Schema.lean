import WarehouseRows.Error.Conversion
import WarehouseRows.Json.Basic
import WarehouseRows.Table.Column

/-!
# Avro schemas

The Avro schema of a table, as the warehouse writes it into its exports. A column
that may be missing is a union with `null`, a repeated column is an array, and a
struct is a nested record that is named after its column.

## Main definitions

* `AvroSchema`, `AvroField`: Avro schemas.
* `TableSchema.toAvro`: the Avro schema of a table.
* `AvroSchema.toJson`: the JSON form.
-/

namespace WarehouseRows

/-! ## Schemas -/

/-- A field of an Avro record. -/
structure AvroFieldOf (σ : Type) where
  name : String
  type : σ
  doc : Option String := none
  /-- Whether the default value is `null`; there is no other default. -/
  defaultNull : Bool := false
  deriving Repr, Inhabited

/-- An Avro schema, as far as exports use them. -/
inductive AvroSchema where
  /-- A primitive type by its name. -/
  | primitive (name : String)
  /-- A primitive type with a logical type on top. -/
  | logical (type logicalType : String)
  /-- A decimal in bytes. -/
  | decimal (precision scale : Nat)
  /-- A string that carries the text of a warehouse type. -/
  | sqlText (sqlType : String)
  | array (items : AvroSchema)
  | nullable (type : AvroSchema)
  | record (name : String) (fields : List (AvroFieldOf AvroSchema)) (space doc : Option String)
  deriving Repr, Inhabited

/-- A field of an Avro record. -/
abbrev AvroField := AvroFieldOf AvroSchema

namespace AvroSchema

/-- The digits of a warehouse decimal. -/
def numericPrecision : Nat := 38

/-- The digits after the point of a warehouse decimal. -/
def numericScale : Nat := 9

mutual

/-- The JSON form of a schema. -/
def toJson : AvroSchema → Json
  | .primitive name => .string name
  | .logical type logicalType =>
    .object [("type", .string type), ("logicalType", .string logicalType)]
  | .decimal precision scale =>
    .object [("type", .string "bytes"), ("logicalType", .string "decimal"),
      ("precision", .number (Double.ofNat precision)), ("scale", .number (Double.ofNat scale))]
  | .sqlText sqlType => .object [("type", .string "string"), ("sqlType", .string sqlType)]
  | .array items => .object [("type", .string "array"), ("items", toJson items)]
  | .nullable type => .array [.string "null", toJson type]
  | .record name fields space doc =>
    .object ([("type", .string "record"), ("name", .string name),
      ("fields", .array (fieldsToJson fields))] ++
      Json.optional "namespace" (space.map .string) ++ Json.optional "doc" (doc.map .string))

/-- The JSON forms of fields. -/
def fieldsToJson : List AvroField → List Json
  | [] => []
  | f :: rest =>
    .object ([("name", .string f.name), ("type", toJson f.type)] ++
      (if f.defaultNull then [("default", .null)] else []) ++
      Json.optional "doc" (f.doc.map .string)) :: fieldsToJson rest

end

end AvroSchema

/-! ## The schema of a table -/

namespace Column

/-- The Avro types of the keywords that stand for one type whatever is nested. -/
def avroScalars : List (String × AvroSchema) :=
  [("STRING", .primitive "string"), ("BYTES", .primitive "bytes"), ("INT64", .primitive "long"),
    ("INTEGER", .primitive "long"), ("FLOAT64", .primitive "double"),
    ("FLOAT", .primitive "double"), ("BOOL", .primitive "boolean"),
    ("BOOLEAN", .primitive "boolean"),
    ("NUMERIC", .decimal AvroSchema.numericPrecision AvroSchema.numericScale),
    ("TIMESTAMP", .logical "long" "timestamp-micros"), ("DATE", .logical "int" "date"),
    ("TIME", .logical "long" "time-micros"), ("DATETIME", .sqlText "DATETIME")]

/-- The Avro type of a keyword without a struct. -/
def avroScalar (keyword : Option String) : Except ConversionError AvroSchema :=
  match lookUp avroScalars keyword with
  | some type => .ok type
  | none =>
    .error
      { code := .unsupportedType
        message := s!"BigQuery type {shownKeyword keyword} has no Avro representation"
        fieldType := keyword }

/-- The field of a column whose own type is known. -/
def avroFieldOf (name : String) (mode : Option Mode) (description : Option String)
    (type : AvroSchema) : AvroField :=
  let doc := ConversionError.present? description
  match mode with
  | some .repeated => ⟨name, .array type, doc, false⟩
  | none | some .nullable => ⟨name, .nullable type, doc, true⟩
  | _ => ⟨name, type, doc, false⟩

mutual

/-- The Avro type of a column, its mode aside. -/
def avroType (space : Option String) : Column → Except ConversionError AvroSchema
  | ⟨name, keyword, _, some columns, description⟩ =>
    if isStruct keyword then do
      let fields ← avroFields space columns
      pure (.record name fields (ConversionError.present? space)
        (ConversionError.present? description))
    else avroScalar keyword
  | ⟨name, keyword, _, none, description⟩ =>
    if isStruct keyword then
      .ok (.record name [] (ConversionError.present? space) (ConversionError.present? description))
    else avroScalar keyword

/-- The fields of columns. -/
def avroFields (space : Option String) : List Column → Except ConversionError (List AvroField)
  | [] => .ok []
  | c :: rest => do
    let type ← (avroType space c).mapError fun e => e.withField c.name
    let fields ← avroFields space rest
    pure (avroFieldOf c.name c.mode c.description type :: fields)

end

end Column

/-- The Avro record schema of the columns of a table. -/
def TableSchema.toAvro (name : String) (columns : TableSchema) (space doc : Option String) :
    Except ConversionError AvroSchema := do
  let fields ← Column.avroFields space columns
  pure (.record name fields (ConversionError.present? space) (ConversionError.present? doc))

end WarehouseRows

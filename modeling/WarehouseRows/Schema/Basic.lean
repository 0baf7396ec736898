import WarehouseRows.Error.Conversion

/-!
# Schemas

A schema is an ordered list of fields, and a row has one value per field in that
order. The type of a field is a primitive kind, an array, a map, a nested row, or a
logical type: a named type with a base type that says how it is stored and a
representation that says how converters treat it.

Kinds and representations that the library does not know can be written down too.
They cross the places that only look at names and are refused where a meaning is
needed.

## Main definitions

* `PrimitiveKind`, `Representation`, `FieldType`: the types.
* `Field`, `Schema`: named fields in order.
* `Schema.create`: a schema whose field names are distinct.
* `FieldType.date`, `FieldType.enumeration`, …: the well-known logical types.
-/

namespace WarehouseRows

/-! ## Types -/

/-- A kind of scalar value. -/
inductive PrimitiveKind where
  | byte
  | int16
  | int32
  | int64
  | float32
  | float64
  | decimal
  | boolean
  | string
  | bytes
  | datetime
  deriving DecidableEq, Repr, Inhabited

namespace PrimitiveKind

/-- Every kind, in the order in which messages list them. -/
def all : List PrimitiveKind :=
  [.byte, .int16, .int32, .int64, .float32, .float64, .decimal, .boolean, .string, .bytes,
    .datetime]

/-- The written form of a kind. -/
def name : PrimitiveKind → String
  | .byte => "byte"
  | .int16 => "int16"
  | .int32 => "int32"
  | .int64 => "int64"
  | .float32 => "float32"
  | .float64 => "float64"
  | .decimal => "decimal"
  | .boolean => "boolean"
  | .string => "string"
  | .bytes => "bytes"
  | .datetime => "datetime"

/-- The written form of a kind in capital letters. -/
def label : PrimitiveKind → String
  | .byte => "BYTE"
  | .int16 => "INT16"
  | .int32 => "INT32"
  | .int64 => "INT64"
  | .float32 => "FLOAT32"
  | .float64 => "FLOAT64"
  | .decimal => "DECIMAL"
  | .boolean => "BOOLEAN"
  | .string => "STRING"
  | .bytes => "BYTES"
  | .datetime => "DATETIME"

/-- The kind with a written form. -/
def ofName? (name : String) : Option PrimitiveKind :=
  all.find? fun kind => kind.name == name

end PrimitiveKind

/-- How converters treat a logical type. -/
inductive Representation where
  | date
  | time
  | datetime
  | timeWithLocalTz
  | enumeration
  | passThrough
  | custom
  | unknown (name : String)
  deriving DecidableEq, Repr, Inhabited

namespace Representation

/-- The representations that the library knows, in the order in which messages
list them. -/
def all : List Representation :=
  [.date, .time, .datetime, .timeWithLocalTz, .enumeration, .passThrough, .custom]

/-- The written form of a representation. -/
def name : Representation → String
  | .date => "date"
  | .time => "time"
  | .datetime => "datetime"
  | .timeWithLocalTz => "time-with-local-tz"
  | .enumeration => "enum"
  | .passThrough => "pass-through"
  | .custom => "custom"
  | .unknown name => name

/-- The known representation with a written form. -/
def ofName? (name : String) : Option Representation :=
  all.find? fun representation => representation.name == name

end Representation

/-- A field of a row, over the types it may have. -/
structure Named (τ : Type) where
  name : String
  type : τ
  nullable : Bool
  /-- A text for people; never the empty text when the field was built here. -/
  description : Option String := none
  deriving Repr, Inhabited

/-- The type of a field. -/
inductive FieldType where
  | primitive (kind : PrimitiveKind)
  | array (element : FieldType) (elementNullable : Bool)
  | map (key value : FieldType) (valueNullable : Bool)
  | row (fields : List (Named FieldType))
  | logical (identifier : String) (base : FieldType) (representation : Representation)
      (labels : Option (List String))
  | unknown (kind : String)
  deriving Repr, Inhabited

/-- A field of a row. -/
abbrev Field := Named FieldType

/-- The fields of a row, in order. -/
abbrev Schema := List Field

/-- The name of the key in the struct that stores a map entry. -/
def MapEntry.keyName : String := "key"

/-- The name of the value in the struct that stores a map entry. -/
def MapEntry.valueName : String := "value"

/-! ## Schemas -/

namespace Schema

/-- The first name that occurs again after names that were already seen. -/
def firstRepeated? (seen : List String) : Schema → Option String
  | [] => none
  | f :: rest => if seen.contains f.name then some f.name else firstRepeated? (f.name :: seen) rest

/-- The schema of a list of fields, whose names have to be distinct. -/
def create (fields : List Field) : Except ConversionError Schema :=
  match firstRepeated? [] fields with
  | some name =>
    .error
      { code := .schemaMismatch
        message := s!"Duplicate field name: {name}"
        field := some name }
  | none => .ok fields

/-- The field with a name. -/
def field? (schema : Schema) (name : String) : Option Field :=
  schema.find? fun f => f.name == name

/-- The position of the field with a name. -/
def indexOf? (schema : Schema) (name : String) : Option Nat :=
  schema.findIdx? fun f => f.name == name

end Schema

namespace FieldType

/-! ## Well-known logical types -/

/-- The identifier of calendar dates. -/
def dateId : String := "rowbridge:logical_type:date:v1"

/-- The identifier of times of day. -/
def timeId : String := "rowbridge:logical_type:time:v1"

/-- The identifier of dates with a time of day. -/
def datetimeId : String := "rowbridge:logical_type:datetime:v1"

/-- The identifier of instants that are shown as local times. -/
def timeWithLocalTzId : String := "SqlTimeWithLocalTzType"

/-- The identifier of enumerations. -/
def enumerationId : String := "Enum"

/-- Calendar dates. -/
def date : FieldType := .logical dateId (.primitive .int64) .date none

/-- Times of day. -/
def time : FieldType := .logical timeId (.primitive .int64) .time none

/-- Dates with a time of day. -/
def datetime : FieldType := .logical datetimeId (.primitive .string) .datetime none

/-- Instants that are shown as local times. -/
def timeWithLocalTz : FieldType :=
  .logical timeWithLocalTzId (.primitive .datetime) .timeWithLocalTz none

/-- Enumerations; a value is the position of its label. -/
def enumeration (labels : List String) : FieldType :=
  .logical enumerationId (.primitive .int32) .enumeration (some labels)

/-- A named type that is stored exactly as its base type. -/
def passThrough (identifier : String) (base : FieldType) : FieldType :=
  .logical identifier base .passThrough none

/-- A named type that converters know nothing about. -/
def custom (identifier : String) (base : FieldType) : FieldType :=
  .logical identifier base .custom none

/-! ## Classes of types -/

/-- Whether a type is none of the composite and logical ones. -/
def isPrimitive : FieldType → Bool
  | .primitive _ => true
  | .unknown _ => true
  | _ => false

/-- Whether a type is an array or a map. -/
def isCollection : FieldType → Bool
  | .array .. => true
  | .map .. => true
  | _ => false

end FieldType

end WarehouseRows

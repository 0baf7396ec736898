import WarehouseRows.Error.Failure
import WarehouseRows.Schema.Describe

/-!
# Type keywords

The standard type keyword under which the warehouse stores a canonical type. The
well-known logical types have keywords of their own; any other logical type has one
only if it passes through to its base type. A map has none, because it is stored as
a repeated struct.

## Main definitions

* `Keyword.ofKind?`, `Keyword.ofLogical?`: the two tables.
* `FieldType.keyword`: the keyword of a type.
-/

namespace WarehouseRows

namespace Keyword

/-- The kinds that have a keyword. -/
def kinds : List (String × String) :=
  [("byte", "INT64"), ("int16", "INT64"), ("int32", "INT64"), ("int64", "INT64"),
    ("float32", "FLOAT64"), ("float64", "FLOAT64"), ("decimal", "NUMERIC"), ("boolean", "BOOL"),
    ("array", "ARRAY"), ("row", "STRUCT"), ("datetime", "TIMESTAMP"), ("string", "STRING"),
    ("bytes", "BYTES")]

/-- The logical types that have a keyword of their own. -/
def logicals : List (String × String) :=
  [(FieldType.dateId, "DATE"), (FieldType.timeId, "TIME"), (FieldType.datetimeId, "DATETIME"),
    (FieldType.timeWithLocalTzId, "TIME"), (FieldType.enumerationId, "STRING")]

/-- The keyword of a kind. -/
def ofKind? (kind : String) : Option String :=
  kinds.lookup kind

/-- The keyword of a logical type with an identifier. -/
def ofLogical? (identifier : String) : Option String :=
  logicals.lookup identifier

end Keyword

namespace FieldType

/-- The refusal of a type without a keyword. -/
def noKeyword (message : String) (type : FieldType) : ConversionError :=
  { code := .unsupportedType, message := message, fieldType := some type.describe }

/-- The keyword of a kind, or a refusal that names the kind. -/
def keywordOfKind (kind : String) (type : FieldType) : Except ConversionError String :=
  match Keyword.ofKind? kind with
  | some keyword => .ok keyword
  | none => .error (noKeyword s!"Cannot convert type {kind} to a BigQuery type" type)

/-- The keyword of a type. -/
def keyword : FieldType → Except ConversionError String
  | .primitive kind => keywordOfKind kind.name (.primitive kind)
  | .array element nullable => keywordOfKind "array" (.array element nullable)
  | .row fields => keywordOfKind "row" (.row fields)
  | .unknown kind => keywordOfKind kind (.unknown kind)
  | .map key value nullable =>
    .error (noKeyword "A map has no BigQuery type of its own; it is written as a REPEATED STRUCT"
      (.map key value nullable))
  | .logical identifier base representation labels =>
    match Keyword.ofLogical? identifier with
    | some keyword => .ok keyword
    | none =>
      if representation = .passThrough then keyword base
      else
        .error (noKeyword s!"Cannot convert logical type {identifier} to a BigQuery type"
          (.logical identifier base representation labels))

end FieldType

end WarehouseRows

import WarehouseRows.Json.Basic

/-!
# Conversion errors

Every converter reports a failure as one record: a code for programs, a message
for people, and what is known about the place: the path of the field, its declared
type and the kind of the offending value.

Converters of nested rows report inner failures with the inner path. Passing such
a failure outwards prepends the name of the enclosing field, and the message changes
with it: it names the whole path exactly once.

## Main definitions

* `ErrorCode`: what went wrong.
* `ConversionError`: a failure with its place.
* `ConversionError.withField`: the failure seen from an enclosing field.
* `ConversionError.actionableMessage`: the failure in several lines, for a person.
-/

namespace WarehouseRows

/-- What went wrong. -/
inductive ErrorCode where
  | unsupportedType
  | unsupportedConversion
  | nonNullableNull
  | structuralMismatch
  | precisionLoss
  | unknownLogicalType
  | invalidValue
  | schemaMismatch
  /-- A code of a caller's own. -/
  | other (name : String)
  deriving DecidableEq, Repr, Inhabited

namespace ErrorCode

/-- The written form of a code. -/
def name : ErrorCode → String
  | .unsupportedType => "UNSUPPORTED_TYPE"
  | .unsupportedConversion => "UNSUPPORTED_CONVERSION"
  | .nonNullableNull => "NON_NULLABLE_NULL"
  | .structuralMismatch => "STRUCTURAL_MISMATCH"
  | .precisionLoss => "PRECISION_LOSS"
  | .unknownLogicalType => "UNKNOWN_LOGICAL_TYPE"
  | .invalidValue => "INVALID_VALUE"
  | .schemaMismatch => "SCHEMA_MISMATCH"
  | .other name => name

/-- The codes that converters report. -/
def all : List ErrorCode :=
  [.unsupportedType, .unsupportedConversion, .nonNullableNull, .structuralMismatch,
    .precisionLoss, .unknownLogicalType, .invalidValue, .schemaMismatch]

/-- The code with a written form. -/
def ofName (name : String) : ErrorCode :=
  (all.find? fun code => code.name == name).getD (.other name)

end ErrorCode

/-- A failed conversion. -/
structure ConversionError where
  code : ErrorCode
  message : String
  /-- The name, or the dotted path, of the field that was being converted. -/
  field : Option String := none
  /-- The declared type of the field, in words. -/
  fieldType : Option String := none
  /-- The kind of the offending value. -/
  valueType : Option String := none
  /-- What the caller may do about it. -/
  suggestion : Option String := none
  /-- Further details. -/
  context : Option Json := none
  deriving Inhabited

namespace ConversionError

/-- An optional text that is present and not empty. -/
def present? (text : Option String) : Option String :=
  text.filter fun t => !t.isEmpty

/-- Whether other input may succeed. A logical type that no converter knows is a
defect of the schema, which no input repairs. -/
def recoverable (e : ConversionError) : Bool :=
  e.code != .unknownLogicalType

/-- What a message starts with once it names the path of a field. -/
def pathLead (path : String) : String :=
  s!"Error converting field \"{path}\": "

/-- The text after a lead, or the whole text when it does not start with it. -/
def dropLead (lead text : String) : String :=
  if lead.toList.isPrefixOf text.toList then String.ofList (text.toList.drop lead.length)
  else text

/-- The same failure seen from an enclosing field: its name goes in front of the
path, and the message names the new path once. -/
def withField (e : ConversionError) (name : String) : ConversionError :=
  match present? e.field with
  | some inner =>
    let path := s!"{name}.{inner}"
    { e with
      message := pathLead path ++ dropLead (pathLead inner) e.message
      field := some path }
  | none =>
    { e with
      message := pathLead name ++ e.message
      field := some name }

/-- The failure in several lines, for a person. -/
def actionableMessage (e : ConversionError) : String :=
  let line (label : String) (text : Option String) : List String :=
    match present? text with
    | some t => [s!"{label}: {t}"]
    | none => []
  "\n".intercalate
    (s!"Error [{e.code.name}]: {e.message}" ::
      line "Field" e.field ++ line "Declared type" e.fieldType ++
        line "Value type" e.valueType ++ line "Suggested action" e.suggestion)

/-- The failure as a JSON object, for structured responses. -/
def toJson (e : ConversionError) : Json :=
  let text (name : String) (value : Option String) := Json.optional name (value.map .string)
  .object <|
    [("name", .string "ConversionError"), ("code", .string e.code.name),
      ("message", .string e.message)] ++
      text "field" e.field ++ text "fieldType" e.fieldType ++ text "valueType" e.valueType ++
      text "suggestion" e.suggestion ++ Json.optional "context" e.context

end ConversionError

end WarehouseRows

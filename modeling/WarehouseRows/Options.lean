import WarehouseRows.Json.Shape

/-!
# Options of the converters

## Main definitions

* `ConversionOptions`: options of the value converters.
* `SchemaOptions`: options of the schema converters.
* `ConverterOptions`: both.
* `ConversionOptions.ofJson`, `SchemaOptions.ofJson`: options from a document; a
  missing member has its default.
-/

namespace WarehouseRows

/-- What to do with an instant that is finer than a millisecond. -/
inductive TimestampPolicy where
  | reject
  | truncate
  | unknown (name : String)
  deriving DecidableEq, Repr, Inhabited

namespace TimestampPolicy

/-- The policies and their written forms. -/
def words : List (String × TimestampPolicy) :=
  [("reject", .reject), ("truncate", .truncate)]

/-- The written form of a policy. -/
def name : TimestampPolicy → String
  | .reject => "reject"
  | .truncate => "truncate"
  | .unknown name => name

/-- The policy with a written form. -/
def ofName (name : String) : TimestampPolicy :=
  (words.lookup name).getD (.unknown name)

end TimestampPolicy

/-- Options of the value converters. -/
structure ConversionOptions where
  truncateTimestamps : TimestampPolicy := .reject
  deriving DecidableEq, Repr, Inhabited

/-- Options of the schema converters. -/
structure SchemaOptions where
  /-- Whether a struct with exactly the fields `key` and `value` is a map. -/
  inferMaps : Bool := false
  deriving DecidableEq, Repr, Inhabited

/-- The options of all converters. -/
structure ConverterOptions where
  conversion : ConversionOptions := {}
  schema : SchemaOptions := {}
  deriving DecidableEq, Repr, Inhabited

/-- The value options that a document gives. -/
def ConversionOptions.ofJson (j : Json) : Checked ConversionOptions :=
  match j with
  | .object members =>
    Shape.closed ["truncateTimestamps"] members <|
      (fun policy => ⟨policy.getD .reject⟩) <$>
        Shape.member members "truncateTimestamps"
          (Shape.optional (Shape.oneOf TimestampPolicy.words))
  | j => Shape.wrongKind "object" j

/-- The schema options that a document gives. -/
def SchemaOptions.ofJson (j : Json) : Checked SchemaOptions :=
  match j with
  | .object members =>
    Shape.closed ["inferMaps"] members <|
      (fun infer => ⟨infer.getD false⟩) <$>
        Shape.member members "inferMaps" (Shape.optional Shape.bool)
  | j => Shape.wrongKind "object" j

end WarehouseRows

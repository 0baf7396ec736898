import WarehouseRows.Json.Shape
import WarehouseRows.Schema.Basic

/-!
# Schemas as JSON

The JSON form of a schema is an object with a list of field definitions; a type is
an object with a `kind` and the members of that kind, and no others. Reading first
checks the whole document against this shape and then that field names are distinct
in each row, inner rows first.

A type that does not fit its kind is one issue at its place, without the issues
inside it, unless all of them are about unknown members and empty texts.

## Main definitions

* `Schema.toDefinition`: the JSON form of a schema.
* `Schema.checkDefinition`: the schema of a JSON document, before names are checked.
* `Schema.ofDefinition`: the schema of a JSON document.
-/

namespace WarehouseRows

namespace FieldType

/-! ## Writing -/

/-- A member that is written only when it is true. -/
def flag (name : String) (value : Bool) : List (String × Json) :=
  if value then [(name, .bool true)] else []

mutual

/-- The JSON form of a type. -/
def toDefinition : FieldType → Json
  | .primitive kind => .object [("kind", .string kind.name)]
  | .array element elementNullable =>
    .object ([("kind", .string "array"), ("elementType", toDefinition element)] ++
      flag "elementNullable" elementNullable)
  | .map key value valueNullable =>
    .object ([("kind", .string "map"), ("keyType", toDefinition key),
      ("valueType", toDefinition value)] ++ flag "valueNullable" valueNullable)
  | .row fields => .object [("kind", .string "row"), ("fields", .array (fieldDefinitions fields))]
  | .logical identifier base representation labels =>
    .object ([("kind", .string "logical"), ("identifier", .string identifier),
      ("baseType", toDefinition base), ("representation", .string representation.name)] ++
      Json.optional "values" (labels.map fun ls => .array (ls.map .string)))
  | .unknown kind => .object [("kind", .string kind)]

/-- The JSON forms of fields. -/
def fieldDefinitions : List Field → List Json
  | [] => []
  | f :: rest =>
    .object ([("name", .string f.name), ("type", toDefinition f.type),
      ("nullable", .bool f.nullable)] ++
      Json.optional "description" ((ConversionError.present? f.description).map .string)) ::
      fieldDefinitions rest

end

end FieldType

/-- The JSON form of a schema. -/
def Schema.toDefinition (schema : Schema) : Json :=
  .object [("fields", .array (FieldType.fieldDefinitions schema))]

/-! ## Sizes

Reading recurses into members of objects, which are smaller than their object. -/

theorem Members.sizeOf_lt_of_get? {members : Members Json} {name : String} {value : Json}
    (h : members.get? name = some value) : sizeOf value < sizeOf members := by
  induction members with
  | nil => simp [Members.get?] at h
  | cons m rest ih =>
    obtain ⟨key, v⟩ := m
    simp only [Members.get?, List.lookup_cons] at h ih
    split at h
    · cases h
      simp only [List.cons.sizeOf_spec, Prod.mk.sizeOf_spec]
      omega
    · have := ih h
      simp only [List.cons.sizeOf_spec, Prod.mk.sizeOf_spec]
      omega

namespace FieldType

/-! ## Reading -/

/-- What is left of the issues of a type: a fatal one hides all others. -/
def settle : Checked FieldType → Checked FieldType
  | .flawed true _ => .refuse "Invalid input"
  | outcome => outcome

/-- A list of strings. -/
def strings (j : Json) : Checked (List String) :=
  match j with
  | .array items => Checked.items 0 (items.map Shape.string)
  | j => Shape.wrongKind "array" j

/-- The check of a representation. -/
def representationOf (j : Json) : Checked Representation :=
  Shape.oneOf (Representation.all.map fun r => (r.name, r)) j

mutual

/-- The type that a definition denotes. -/
def ofDefinition (j : Json) : Checked FieldType :=
  match j with
  | .object members =>
    match Members.get? members "kind" with
    | some (.string kind) =>
      match PrimitiveKind.ofName? kind with
      | some scalar => settle (Shape.closed ["kind"] members (.valid (.primitive scalar)))
      | none =>
        if kind = "array" then
          settle <| Shape.closed ["kind", "elementType", "elementNullable"] members <|
            .array <$> memberType members "elementType" <*> Shape.flag "elementNullable" members
        else if kind = "map" then
          settle <| Shape.closed ["kind", "keyType", "valueType", "valueNullable"] members <|
            .map <$> memberType members "keyType" <*> memberType members "valueType" <*>
              Shape.flag "valueNullable" members
        else if kind = "row" then
          settle <| Shape.closed ["kind", "fields"] members (.row <$> memberFields members)
        else if kind = "logical" then
          settle <|
            Shape.closed ["kind", "identifier", "baseType", "representation", "values"] members <|
            .logical <$>
              Shape.member members "identifier" (Shape.required (Shape.filled Shape.tooShort))
              <*> memberType members "baseType"
              <*> Shape.member members "representation" (Shape.required representationOf)
              <*> Shape.member members "values" (Shape.optional strings)
        else .refuse "Invalid input"
    | _ => .refuse "Invalid input"
  | _ => .refuse "Invalid input"
termination_by sizeOf j

/-- The type that a member denotes. -/
def memberType (members : Members Json) (name : String) : Checked FieldType :=
  match h : members.get? name with
  | some j =>
    have := Members.sizeOf_lt_of_get? h
    (ofDefinition j).under name
  | none => Checked.under name (.refuse "Invalid input")
termination_by sizeOf members

/-- The fields that the member `fields` denotes. -/
def memberFields (members : Members Json) : Checked (List Field) :=
  match h : members.get? "fields" with
  | some (.array items) =>
    have : sizeOf items < sizeOf members := by
      have := Members.sizeOf_lt_of_get? h
      simp only [Json.array.sizeOf_spec] at this
      omega
    (Checked.items 0 (fieldsOfDefinitions items)).under "fields"
  | some j => Checked.under "fields" (Shape.wrongKind "array" j)
  | none => Checked.under "fields" (.refuse "Required")
termination_by sizeOf members

/-- The fields that definitions denote, each with its issues. -/
def fieldsOfDefinitions (items : List Json) : List (Checked Field) :=
  match items with
  | [] => []
  | j :: rest => fieldOfDefinition j :: fieldsOfDefinitions rest
termination_by sizeOf items

/-- The field that a definition denotes. -/
def fieldOfDefinition (j : Json) : Checked Field :=
  match j with
  | .object members =>
    Shape.closed ["name", "type", "nullable", "description"] members <|
      (fun name type nullable description =>
        ⟨name, type, nullable, ConversionError.present? description⟩) <$>
        Shape.member members "name" (Shape.required (Shape.filled Shape.tooShort))
          <*> memberType members "type"
          <*> Shape.flag "nullable" members
          <*> Shape.member members "description" (Shape.optional Shape.string)
  | j => Shape.wrongKind "object" j
termination_by sizeOf j

end

/-! ## Distinct names -/

mutual

/-- The first row, inner rows first, that repeats a name is refused. -/
def checkNames : FieldType → Except ConversionError Unit
  | .primitive _ => .ok ()
  | .array element _ => checkNames element
  | .map key value _ => do
    checkNames key
    checkNames value
  | .row fields => do
    checkFieldNames fields
    let _ ← Schema.create fields
    pure ()
  | .logical _ base _ _ => checkNames base
  | .unknown _ => .ok ()

/-- The check of the types of fields in order. -/
def checkFieldNames : List Field → Except ConversionError Unit
  | [] => .ok ()
  | f :: rest => do
    checkNames f.type
    checkFieldNames rest

end

end FieldType

namespace Schema

/-- The schema of fields, with distinct names in it and in every row inside it. -/
def build (fields : List Field) : Except ConversionError Schema := do
  FieldType.checkFieldNames fields
  create fields

/-- The fields that a document denotes, before names are checked. -/
def checkDefinition (j : Json) : Checked (List Field) :=
  match j with
  | .object members => Shape.closed ["fields"] members (FieldType.memberFields members)
  | j => Shape.wrongKind "object" j

/-- The schema that a document denotes. -/
def ofDefinition (j : Json) : Except (List Issue) (Except ConversionError Schema) :=
  (checkDefinition j).toExcept.map build

end Schema

end WarehouseRows

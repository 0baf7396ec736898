import WarehouseRows.Proofs.CompactText
import WarehouseRows.Proofs.SchemaDocuments
import WarehouseRows.Proofs.WidenedTypes

/-!
# Schemas that are written as text are read back

A schema may describe a field with an empty text. Its document leaves the text out, so that what
is read back has no description there. That is the only difference: the schema that is read has
the same document, and it is the same schema, since a missing description equals an empty one.

## Main definitions

* `FieldType.IsBuilt`, `FieldType.AllBuilt`: the types, and the fields, that can be written.
* `FieldType.tidied`, `FieldType.tidiedFields`: the same without empty descriptions.
-/

namespace WarehouseRows

namespace FieldType

mutual

/-- Whether the library knows every kind and every representation in a type, no field name and no
identifier in it is empty, and the names in every row are distinct. -/
def IsBuilt (type : FieldType) : Prop :=
  match type with
  | .primitive _ => True
  | .array element _ => IsBuilt element
  | .map key value _ => IsBuilt key ∧ IsBuilt value
  | .row fields => Schema.create fields = .ok fields ∧ AllBuilt fields
  | .logical identifier base representation _ =>
    identifier ≠ "" ∧ representation ∈ Representation.all ∧ IsBuilt base
  | .unknown _ => False

/-- Whether each field has a name and such a type. -/
def AllBuilt (fields : List Field) : Prop :=
  match fields with
  | [] => True
  | f :: rest => (f.name ≠ "" ∧ IsBuilt f.type) ∧ AllBuilt rest

end

mutual

/-- The type with no description in it that is empty. -/
def tidied : FieldType → FieldType
  | .primitive kind => .primitive kind
  | .array element elementNullable => .array (tidied element) elementNullable
  | .map key value valueNullable => .map (tidied key) (tidied value) valueNullable
  | .row fields => .row (tidiedFields fields)
  | .logical identifier base representation labels =>
    .logical identifier (tidied base) representation labels
  | .unknown kind => .unknown kind

/-- The fields with no description in them that is empty. -/
def tidiedFields : List Field → List Field
  | [] => []
  | f :: rest =>
    ⟨f.name, tidied f.type, f.nullable, ConversionError.present? f.description⟩ ::
      tidiedFields rest

end

/-! ## The same document -/

theorem fieldDefinitions_tidiedFields {fields : List Field}
    (h : ∀ f ∈ fields, f.type.tidied.toDefinition = f.type.toDefinition) :
    fieldDefinitions (tidiedFields fields) = fieldDefinitions fields := by
  induction fields with
  | nil => rfl
  | cons f fields ih =>
    rw [tidiedFields, fieldDefinitions, fieldDefinitions, h f List.mem_cons_self,
      ConversionError.present?_present?, ih fun g hg => h g (List.mem_cons_of_mem _ hg)]

theorem toDefinition_tidied (type : FieldType) : type.tidied.toDefinition = type.toDefinition := by
  induction type with
  | primitive kind => rfl
  | array element elementNullable ih => rw [tidied, toDefinition, toDefinition, ih]
  | map key value valueNullable hkey hvalue =>
    rw [tidied, toDefinition, toDefinition, hkey, hvalue]
  | row fields ih =>
    rw [tidied, toDefinition, toDefinition, fieldDefinitions_tidiedFields ih]
  | logical identifier base representation labels ih =>
    rw [tidied, toDefinition, toDefinition, ih]
  | unknown kind => rfl

/-! ## The same schema -/

theorem sameFields_tidiedFields {fields : List Field}
    (h : ∀ f ∈ fields, f.type.tidied.same f.type = true) :
    sameFields (tidiedFields fields) fields = true := by
  induction fields with
  | nil => rfl
  | cons f fields ih =>
    rw [tidiedFields, sameFields, h f List.mem_cons_self, getD_present?,
      ih fun g hg => h g (List.mem_cons_of_mem _ hg)]
    simp

theorem same_tidied (type : FieldType) : type.tidied.same type = true := by
  induction type with
  | primitive kind => simp [tidied, same]
  | array element elementNullable ih => simp [tidied, same, ih]
  | map key value valueNullable hkey hvalue => simp [tidied, same, hkey, hvalue]
  | row fields ih => rw [tidied, same, sameFields_tidiedFields ih]
  | logical identifier base representation labels ih => simp [tidied, same, ih]
  | unknown kind => simp [tidied, same]

/-! ## Types that are read back -/

theorem names_tidiedFields (fields : List Field) :
    (tidiedFields fields).map Named.name = fields.map Named.name := by
  induction fields with
  | nil => rfl
  | cons f fields ih => rw [tidiedFields, List.map_cons, List.map_cons, ih]

/-- Names that are distinct stay so. -/
theorem create_tidiedFields {fields : List Field} (h : Schema.create fields = .ok fields) :
    Schema.create (tidiedFields fields) = .ok (tidiedFields fields) := by
  rw [Schema.create_eq_ok, names_tidiedFields]
  exact ⟨rfl, (Schema.create_eq_ok.mp h).2⟩

theorem allDefinable_tidiedFields {fields : List Field} (hbuilt : AllBuilt fields)
    (h : ∀ f ∈ fields, f.type.IsBuilt → f.type.tidied.IsDefinable) :
    AllDefinable (tidiedFields fields) := by
  induction fields with
  | nil => exact trivial
  | cons f fields ih =>
    obtain ⟨⟨hname, htype⟩, hrest⟩ := hbuilt
    constructor
    · exact ⟨hname, ConversionError.present?_present? f.description,
        h f List.mem_cons_self htype⟩
    · exact ih hrest fun g hg => h g (List.mem_cons_of_mem _ hg)

theorem isDefinable_tidied {type : FieldType} (h : type.IsBuilt) : type.tidied.IsDefinable := by
  induction type with
  | primitive kind => exact trivial
  | array element elementNullable ih => exact ih h
  | map key value valueNullable hkey hvalue => exact ⟨hkey h.1, hvalue h.2⟩
  | row fields ih =>
    obtain ⟨hcreate, hfields⟩ := h
    exact ⟨create_tidiedFields hcreate, allDefinable_tidiedFields hfields ih⟩
  | logical identifier base representation labels ih =>
    obtain ⟨hidentifier, hrepresentation, hbase⟩ := h
    exact ⟨hidentifier, hrepresentation, ih hbase⟩
  | unknown kind => exact absurd h id

end FieldType

namespace Schema

open FieldType

/-- A schema that is written as text is read back as the same schema, with the same document. -/
theorem ofDefinition_compact {schema : Schema} (h : (FieldType.row schema).IsBuilt) :
    ∃ document back, Json.parse schema.toDefinition.compact = .ok document ∧
      Schema.ofDefinition document = .ok (.ok back) ∧ back.same schema = true ∧
        back.toDefinition = schema.toDefinition := by
  have hdocument : Schema.toDefinition (tidiedFields schema) = schema.toDefinition := by
    rw [toDefinition, toDefinition,
      fieldDefinitions_tidiedFields fun f _ => toDefinition_tidied f.type]
  refine ⟨schema.toDefinition, tidiedFields schema, ?_, ?_, ?_, hdocument⟩
  · exact Json.parse_compact schema.isTextual_toDefinition
  · rw [← hdocument]
    exact Schema.ofDefinition_toDefinition (isDefinable_tidied h)
  · exact sameFields_tidiedFields fun f _ => same_tidied f.type

/-- The fields hold an array of maps of rows, an enumeration and a named type that is stored as
text; one of them is described with an empty text. -/
theorem ofDefinition_compact_nested :
    let schema : Schema :=
      [⟨"a", .array (.map (.primitive .string) (.row
          [⟨"\"", .enumeration ["", "x"], true, some ""⟩, ⟨"__proto__", .date, false, none⟩])
          true) false, false, some ""⟩,
        ⟨"b", .custom "id" (.primitive .string), true, some "\n"⟩]
    ∃ document back, Json.parse schema.toDefinition.compact = .ok document ∧
      Schema.ofDefinition document = .ok (.ok back) ∧ back.same schema = true ∧
        back.toDefinition = schema.toDefinition := by
  intro schema
  apply ofDefinition_compact
  have hrow : (FieldType.row [⟨"\"", .enumeration ["", "x"], true, some ""⟩,
      ⟨"__proto__", .date, false, none⟩]).IsBuilt :=
    ⟨rfl, ⟨by decide, by decide, by decide, trivial⟩, ⟨by decide, by decide, by decide, trivial⟩,
      trivial⟩
  exact ⟨rfl, ⟨by decide, trivial, hrow⟩, ⟨by decide, by decide, by decide, trivial⟩, trivial⟩

end Schema

end WarehouseRows

import WarehouseRows.Schema.Definition
import WarehouseRows.Proofs.Checks
import WarehouseRows.Proofs.Columns
import WarehouseRows.Proofs.JsonText
import WarehouseRows.Proofs.Members
import WarehouseRows.Proofs.Typing

/-!
# Schemas that are written as documents are read back

The document of a schema leaves out what is the usual case: flags that are off, descriptions that
are empty, labels of types that have none. Reading puts it back, so a schema whose document has
the shape of one is read as it was written. What cannot be told from a document are types whose
kind or representation the library does not know, and empty names have no place in one.

## Main definitions

* `FieldType.fieldDefinition`: the document of a field.
* `FieldType.IsDefinable`, `FieldType.AllDefinable`: the types, and the fields, of such schemas.
-/

namespace WarehouseRows

/-! ## Documents without numbers -/

namespace FieldType

theorem names_flag_sublist (name : String) (value : Bool) :
    (Members.names (flag name value)).Sublist [name] := by
  cases value with
  | false => exact List.nil_sublist _
  | true => exact List.Sublist.refl _

theorem isTextual_of_mem_flag {name : String} {value : Bool} :
    ∀ m ∈ flag name value, m.2.IsTextual := by
  cases value <;> simp [flag, Json.IsTextual]

/-- The document of a field. -/
def fieldDefinition (f : Field) : Json :=
  .object ([("name", .string f.name), ("type", toDefinition f.type),
    ("nullable", .bool f.nullable)] ++
    Json.optional "description" ((ConversionError.present? f.description).map .string))

theorem fieldDefinitions_cons (f : Field) (fields : List Field) :
    fieldDefinitions (f :: fields) = fieldDefinition f :: fieldDefinitions fields := by
  rw [fieldDefinitions, fieldDefinition]

theorem allTextual_fieldDefinitions {fields : List Field}
    (h : ∀ f ∈ fields, (toDefinition f.type).IsTextual) :
    Json.AllTextual (fieldDefinitions fields) := by
  induction fields with
  | nil => exact trivial
  | cons f fields ih =>
    rw [fieldDefinitions_cons]
    refine ⟨?_, ih fun f hf => h f (List.mem_cons_of_mem _ hf)⟩
    refine Json.isTextual_append ["name", "type", "nullable"] ["description"] (by decide) rfl
      (Json.names_optional_sublist _ _) ?_ Json.isTextual_of_mem_text
    simp [Json.IsTextual, h f List.mem_cons_self]

/-- The document of a type has no numbers in it. -/
theorem isTextual_toDefinition (type : FieldType) : (toDefinition type).IsTextual := by
  induction type with
  | primitive kind =>
    refine Json.isTextual_object ["kind"] (by decide) (List.Sublist.refl _) ?_
    simp [Json.IsTextual]
  | array element elementNullable ih =>
    refine Json.isTextual_append ["kind", "elementType"] ["elementNullable"] (by decide) rfl
      (names_flag_sublist _ _) ?_ isTextual_of_mem_flag
    simp [Json.IsTextual, ih]
  | map key value valueNullable hkey hvalue =>
    refine Json.isTextual_append ["kind", "keyType", "valueType"] ["valueNullable"] (by decide) rfl
      (names_flag_sublist _ _) ?_ isTextual_of_mem_flag
    simp [Json.IsTextual, hkey, hvalue]
  | row fields ih =>
    refine Json.isTextual_object ["kind", "fields"] (by decide) (List.Sublist.refl _) ?_
    simp [Json.IsTextual, allTextual_fieldDefinitions ih]
  | logical identifier base representation labels ih =>
    refine Json.isTextual_append ["kind", "identifier", "baseType", "representation"] ["values"]
      (by decide) rfl (Json.names_optional_sublist _ _) ?_ ?_
    · simp [Json.IsTextual, ih]
    · refine Json.isTextual_of_mem_optional fun v hv => ?_
      obtain ⟨texts, _, rfl⟩ := Option.map_eq_some_iff.mp hv
      exact Json.allTextual_iff.mpr (by simp [Json.IsTextual])
  | unknown kind =>
    refine Json.isTextual_object ["kind"] (by decide) (List.Sublist.refl _) ?_
    simp [Json.IsTextual]

end FieldType

/-- The document of a schema has no numbers in it. -/
theorem Schema.isTextual_toDefinition (schema : Schema) : schema.toDefinition.IsTextual := by
  refine Json.isTextual_object ["fields"] (by decide) (List.Sublist.refl _) ?_
  have hfields := FieldType.allTextual_fieldDefinitions fun f (_ : f ∈ schema) =>
    FieldType.isTextual_toDefinition f.type
  simpa [Json.IsTextual] using hfields

/-! ## Types of documents -/

namespace FieldType

mutual

/-- Whether a type is told by its document: the library knows its kind and its representation,
and no name in it is empty. The names in every row are distinct. -/
def IsDefinable (type : FieldType) : Prop :=
  match type with
  | .primitive _ => True
  | .array element _ => IsDefinable element
  | .map key value _ => IsDefinable key ∧ IsDefinable value
  | .row fields => Schema.create fields = .ok fields ∧ AllDefinable fields
  | .logical identifier base representation _ =>
    identifier ≠ "" ∧ representation ∈ Representation.all ∧ IsDefinable base
  | .unknown _ => False

/-- Whether each field has a name, a description only if it is not empty, and such a type. -/
def AllDefinable (fields : List Field) : Prop :=
  match fields with
  | [] => True
  | f :: rest =>
    (f.name ≠ "" ∧ ConversionError.present? f.description = f.description ∧ IsDefinable f.type) ∧
      AllDefinable rest

end

theorem allDefinable_iff {fields : List Field} :
    AllDefinable fields ↔ ∀ f ∈ fields, f.name ≠ "" ∧
      ConversionError.present? f.description = f.description ∧ f.type.IsDefinable := by
  induction fields with
  | nil => simp [AllDefinable]
  | cons f fields ih => simp [AllDefinable, ih]

/-! ## Reading -/

theorem settle_eq_valid {x : Checked FieldType} {type : FieldType} :
    settle x = .valid type ↔ x = .valid type := by
  match x with
  | .valid _ => exact Iff.rfl
  | .flawed true _ => simp [settle, Checked.refuse]
  | .flawed false _ => exact Iff.rfl

theorem memberType_eq_valid {members : Members Json} {name : String} {j : Json} {type : FieldType}
    (h : members.get? name = some j) (hj : ofDefinition j = .valid type) :
    memberType members name = .valid type := by
  rw [memberType]
  split
  · rename_i j' h'
    obtain rfl := Option.some.inj (h.symm.trans h')
    rw [hj]
    rfl
  · rename_i h'
    exact absurd (h.symm.trans h') (by simp)

theorem memberFields_eq_valid {members : Members Json} {items : List Json} {fields : List Field}
    (h : members.get? "fields" = some (.array items))
    (hitems : fieldsOfDefinitions items = fields.map .valid) :
    memberFields members = .valid fields := by
  rw [memberFields]
  split
  · rename_i items' h'
    obtain rfl := Json.array.inj (Option.some.inj (h.symm.trans h'))
    rw [Checked.under_eq_valid, Checked.items_eq_valid]
    exact hitems
  · rename_i j hno h'
    exact absurd (Option.some.inj (h'.symm.trans h)) (hno items)
  · rename_i h'
    exact absurd (h.symm.trans h') (by simp)

/-- A member that is written only when it is true is the flag that it was written for. -/
theorem flag_append_flag {members : Members Json} {name : String} (value : Bool)
    (h : members.get? name = none) :
    Shape.flag name (members ++ flag name value) = .valid value := by
  rw [Shape.flag_eq_valid, Members.get?_append, h]
  cases value <;> simp [flag, Members.get?]

theorem ofDefinition_primitive (kind : PrimitiveKind) :
    ofDefinition (toDefinition (.primitive kind)) = .valid (.primitive kind) := by
  rw [toDefinition, ofDefinition]
  cases kind <;> rfl

section Composite

variable {members : Members Json}

theorem ofDefinition_array (h : members.get? "kind" = some (.string "array")) :
    ofDefinition (.object members) =
      settle (Shape.closed ["kind", "elementType", "elementNullable"] members
        (.array <$> memberType members "elementType" <*>
          Shape.flag "elementNullable" members)) := by
  rw [ofDefinition, h]
  rfl

theorem ofDefinition_map (h : members.get? "kind" = some (.string "map")) :
    ofDefinition (.object members) =
      settle (Shape.closed ["kind", "keyType", "valueType", "valueNullable"] members
        (.map <$> memberType members "keyType" <*> memberType members "valueType" <*>
          Shape.flag "valueNullable" members)) := by
  rw [ofDefinition, h]
  rfl

theorem ofDefinition_row (h : members.get? "kind" = some (.string "row")) :
    ofDefinition (.object members) =
      settle (Shape.closed ["kind", "fields"] members (.row <$> memberFields members)) := by
  rw [ofDefinition, h]
  rfl

theorem ofDefinition_logical (h : members.get? "kind" = some (.string "logical")) :
    ofDefinition (.object members) =
      settle (Shape.closed ["kind", "identifier", "baseType", "representation", "values"] members
        (.logical <$>
          Shape.member members "identifier" (Shape.required (Shape.filled Shape.tooShort))
          <*> memberType members "baseType"
          <*> Shape.member members "representation" (Shape.required representationOf)
          <*> Shape.member members "values" (Shape.optional strings))) := by
  rw [ofDefinition, h]
  rfl

end Composite

theorem representationOf_name {representation : Representation}
    (h : representation ∈ Representation.all) :
    representationOf (.string representation.name) = .valid representation := by
  rw [representationOf, Shape.oneOf_eq_valid]
  refine ⟨representation.name, rfl, ?_⟩
  have hall : ∀ r ∈ Representation.all,
      (Representation.all.map fun r => (r.name, r)).lookup r.name = some r := by decide
  exact hall representation h

theorem strings_map (texts : List String) :
    strings (.array (texts.map .string)) = .valid texts := by
  rw [strings, Checked.items_eq_valid, List.map_map]
  rfl

/-- The labels of a type stand among its members only where it has some. -/
theorem strings_append_optional {members : Members Json} (labels : Option (List String))
    (h : members.get? "values" = none) :
    Shape.member (members ++ Json.optional "values" (labels.map fun ls => .array (ls.map .string)))
      "values" (Shape.optional strings) = .valid labels := by
  rw [Shape.optional_eq_valid, Members.get?_append, h, Json.get?_optional]
  cases labels with
  | none => rfl
  | some texts => simp [strings_map]

theorem string_append_optional {members : Members Json} {name : String} (text : Option String)
    (h : members.get? name = none) :
    Shape.member (members ++ Json.optional name (text.map .string)) name
      (Shape.optional Shape.string) = .valid text := by
  rw [Shape.optional_eq_valid, Members.get?_append, h, Json.get?_optional]
  cases text <;> simp [Shape.string]

/-- A field is read from its document if its type is. -/
theorem fieldOfDefinition_fieldDefinition {f : Field} (hname : f.name ≠ "")
    (hdescription : ConversionError.present? f.description = f.description)
    (h : ofDefinition f.type.toDefinition = .valid f.type) :
    fieldOfDefinition (fieldDefinition f) = .valid f := by
  have hflag : Shape.flag "nullable" ([("name", .string f.name), ("type", toDefinition f.type),
      ("nullable", .bool f.nullable)] ++
      Json.optional "description" ((ConversionError.present? f.description).map .string)) =
      .valid f.nullable := Shape.flag_eq_valid.mpr (Or.inl rfl)
  rw [fieldDefinition, fieldOfDefinition, Shape.filledMember_eq_valid.mpr ⟨rfl, hname⟩,
    memberType_eq_valid rfl h, hflag, string_append_optional _ rfl, Checked.map_valid,
    Checked.seq_valid, Checked.seq_valid, Checked.seq_valid, Shape.closed_eq_valid, hdescription]
  refine ⟨by rw [hdescription], ?_⟩
  cases f.description <;> simp [Json.optional, Members.names]

theorem fieldsOfDefinitions_eq_valid {fields : List Field} (hfields : AllDefinable fields)
    (h : ∀ f ∈ fields, ofDefinition f.type.toDefinition = .valid f.type) :
    fieldsOfDefinitions (fieldDefinitions fields) = fields.map .valid := by
  induction fields with
  | nil => rw [fieldDefinitions, fieldsOfDefinitions, List.map_nil]
  | cons f fields ih =>
    obtain ⟨⟨hname, hdescription, _⟩, hothers⟩ := hfields
    have hfirst := fieldOfDefinition_fieldDefinition hname hdescription (h f List.mem_cons_self)
    have hrest := ih hothers fun f hf => h f (List.mem_cons_of_mem _ hf)
    rw [fieldDefinitions_cons, fieldsOfDefinitions, hrest, hfirst, List.map_cons]

/-- A type is read from its document. -/
theorem ofDefinition_toDefinition {type : FieldType} (h : type.IsDefinable) :
    ofDefinition type.toDefinition = .valid type := by
  induction type with
  | primitive kind => exact ofDefinition_primitive kind
  | array element elementNullable ih =>
    rw [toDefinition, ofDefinition_array rfl, memberType_eq_valid rfl (ih h),
      flag_append_flag elementNullable rfl, Checked.map_valid, Checked.seq_valid, settle_eq_valid,
      Shape.closed_eq_valid]
    cases elementNullable <;> simp [flag, Members.names]
  | map key value valueNullable hkey hvalue =>
    obtain ⟨hk, hv⟩ := h
    rw [toDefinition, ofDefinition_map rfl, memberType_eq_valid rfl (hkey hk),
      memberType_eq_valid rfl (hvalue hv), flag_append_flag valueNullable rfl, Checked.map_valid,
      Checked.seq_valid, Checked.seq_valid, settle_eq_valid, Shape.closed_eq_valid]
    cases valueNullable <;> simp [flag, Members.names]
  | row fields ih =>
    obtain ⟨_, hfields⟩ := h
    have hitems := fieldsOfDefinitions_eq_valid hfields
      fun f hf => ih f hf (allDefinable_iff.mp hfields f hf).2.2
    rw [toDefinition, ofDefinition_row rfl, memberFields_eq_valid rfl hitems, Checked.map_valid,
      settle_eq_valid, Shape.closed_eq_valid]
    simp [Members.names]
  | logical identifier base representation labels ih =>
    obtain ⟨hidentifier, hrepresentation, hbase⟩ := h
    rw [toDefinition, ofDefinition_logical rfl, memberType_eq_valid rfl (ih hbase),
      strings_append_optional labels rfl, Shape.filledMember_eq_valid.mpr ⟨rfl, hidentifier⟩,
      Shape.required_eq_valid.mpr ⟨_, rfl, representationOf_name hrepresentation⟩,
      Checked.map_valid, Checked.seq_valid, Checked.seq_valid, Checked.seq_valid,
      settle_eq_valid, Shape.closed_eq_valid]
    cases labels <;> simp [Json.optional, Members.names]
  | unknown kind => exact absurd h id

/-! ## Distinct names -/

theorem checkFieldNames_eq_ok {fields : List Field} (h : ∀ f ∈ fields, checkNames f.type = .ok ()) :
    checkFieldNames fields = .ok () := by
  induction fields with
  | nil => rfl
  | cons f fields ih =>
    rw [checkFieldNames, h f List.mem_cons_self, Outcome.ok_bind]
    exact ih fun f hf => h f (List.mem_cons_of_mem _ hf)

theorem checkNames_eq_ok {type : FieldType} (h : type.IsDefinable) : checkNames type = .ok () := by
  induction type with
  | primitive kind => rfl
  | array element elementNullable ih => exact ih h
  | map key value valueNullable hkey hvalue =>
    obtain ⟨hk, hv⟩ := h
    rw [checkNames, hkey hk, Outcome.ok_bind]
    exact hvalue hv
  | row fields ih =>
    obtain ⟨hcreate, hfields⟩ := h
    have hnames := checkFieldNames_eq_ok
      fun f hf => ih f hf (allDefinable_iff.mp hfields f hf).2.2
    rw [checkNames, hnames, Outcome.ok_bind, hcreate]
    rfl
  | logical identifier base representation labels ih => exact ih h.2.2
  | unknown kind => exact absurd h id

end FieldType

/-- A schema is read from its document. -/
theorem Schema.ofDefinition_toDefinition {schema : Schema}
    (h : (FieldType.row schema).IsDefinable) :
    Schema.ofDefinition schema.toDefinition = .ok (.ok schema) := by
  obtain ⟨hcreate, hfields⟩ := h
  have hdefinable (f : Field) (hf : f ∈ schema) := (FieldType.allDefinable_iff.mp hfields f hf).2.2
  have hitems := FieldType.fieldsOfDefinitions_eq_valid hfields
    fun f hf => FieldType.ofDefinition_toDefinition (hdefinable f hf)
  have hcheck : checkDefinition schema.toDefinition = .valid schema := by
    rw [toDefinition, checkDefinition, FieldType.memberFields_eq_valid rfl hitems,
      Shape.closed_eq_valid]
    simp [Members.names]
  have hbuild : build schema = .ok schema := by
    rw [build, FieldType.checkFieldNames_eq_ok fun f hf =>
      FieldType.checkNames_eq_ok (hdefinable f hf), Outcome.ok_bind, hcreate]
  rw [Schema.ofDefinition, Checked.toExcept_eq_ok.mpr hcheck]
  exact congrArg Except.ok hbuild

end WarehouseRows

import WarehouseRows.Proofs.SchemaGrammar

/-!
# Documents are read by their grammar

Reading finds no issue in a document if and only if the grammar without a rule for names has it. In
one direction the induction is on the type that was read, whose constructor tells the members of
its document; in the other it is on the derivation in the grammar. Both carry a rule for names
along, so that the same holds with distinct names in the documents and in the types.

## Main definitions

* `FieldType.Tells`, `FieldType.TellsField`: what the members of a document say of the type, or of
  the field, as which it is read.
-/

namespace WarehouseRows

/-! ## Reading -/

namespace FieldType

variable {members : Members Json} {j : Json}

theorem memberType_eq_valid_iff {name : String} {type : FieldType} :
    memberType members name = .valid type ↔
      ∃ j, members.get? name = some j ∧ ofDefinition j = .valid type := by
  constructor
  · intro h
    rw [memberType] at h
    split at h
    · rename_i j hget
      exact ⟨j, hget, Checked.under_eq_valid.mp h⟩
    · simp [Checked.refuse] at h
  · rintro ⟨j, hget, hj⟩
    exact memberType_eq_valid hget hj

theorem fieldsOfDefinitions_eq_map (items : List Json) :
    fieldsOfDefinitions items = items.map fieldOfDefinition := by
  induction items with
  | nil => rw [fieldsOfDefinitions, List.map_nil]
  | cons item items ih => rw [fieldsOfDefinitions, ih, List.map_cons]

theorem memberFields_eq_valid_iff {fields : List Field} :
    memberFields members = .valid fields ↔
      ∃ items, members.get? "fields" = some (.array items) ∧
        items.map fieldOfDefinition = fields.map .valid := by
  constructor
  · intro h
    rw [memberFields] at h
    split at h
    · rename_i items hget
      rw [Checked.under_eq_valid, Checked.items_eq_valid, fieldsOfDefinitions_eq_map] at h
      exact ⟨items, hget, h⟩
    · simp [Shape.wrongKind, Checked.refuse] at h
    · simp [Checked.refuse] at h
  · rintro ⟨items, hget, hitems⟩
    exact memberFields_eq_valid hget (fieldsOfDefinitions_eq_map items ▸ hitems)

theorem strings_eq_valid {texts : List String} :
    strings j = .valid texts ↔ j = .array (texts.map .string) := by
  cases j with
  | array items =>
    have hstring (item : Json) (s : String) : Shape.string item = .valid s ↔ item = .string s := by
      cases item <;> simp [Shape.string, Shape.wrongKind, Checked.refuse]
    rw [strings, Checked.items_eq_valid, Json.array.injEq]
    induction items generalizing texts with
    | nil => cases texts <;> simp
    | cons item items ih =>
      cases texts with
      | nil => simp
      | cons text texts => simp [hstring, ih]
  | _ => simp [strings, Shape.wrongKind, Checked.refuse]

theorem representationOf_eq_valid {representation : Representation} :
    representationOf j = .valid representation ↔
      representation ∈ Representation.all ∧ j = .string representation.name := by
  constructor
  · intro h
    rw [representationOf, Shape.oneOf_eq_valid] at h
    obtain ⟨s, rfl, h⟩ := h
    obtain ⟨r, hr, heq⟩ := List.mem_map.mp (Keyword.mem_of_lookup h)
    obtain ⟨rfl, rfl⟩ := Prod.mk.inj heq
    exact ⟨hr, rfl⟩
  · rintro ⟨hknown, rfl⟩
    exact representationOf_name hknown

theorem name_of_ofName? {name : String} {kind : PrimitiveKind}
    (h : PrimitiveKind.ofName? name = some kind) : kind.name = name := by
  simpa using List.find?_some h

/-- What the members of a document say of the type as which it is read. -/
def Tells (members : Members Json) : FieldType → Prop
  | .primitive kind =>
    members.get? "kind" = some (.string kind.name) ∧ members.Closed ["kind"]
  | .array element elementNullable =>
    members.get? "kind" = some (.string "array") ∧
      memberType members "elementType" = .valid element ∧
      Shape.flag "elementNullable" members = .valid elementNullable ∧
      members.Closed ["kind", "elementType", "elementNullable"]
  | .map key value valueNullable =>
    members.get? "kind" = some (.string "map") ∧ memberType members "keyType" = .valid key ∧
      memberType members "valueType" = .valid value ∧
      Shape.flag "valueNullable" members = .valid valueNullable ∧
      members.Closed ["kind", "keyType", "valueType", "valueNullable"]
  | .row fields =>
    members.get? "kind" = some (.string "row") ∧ memberFields members = .valid fields ∧
      members.Closed ["kind", "fields"]
  | .logical identifier base representation labels =>
    members.get? "kind" = some (.string "logical") ∧
      Shape.member members "identifier" (Shape.required (Shape.filled Shape.tooShort)) =
        .valid identifier ∧
      memberType members "baseType" = .valid base ∧
      Shape.member members "representation" (Shape.required representationOf) =
        .valid representation ∧
      Shape.member members "values" (Shape.optional strings) = .valid labels ∧
      members.Closed ["kind", "identifier", "baseType", "representation", "values"]
  | .unknown _ => False

theorem ofDefinition_of_ofName? {kind : String} {scalar : PrimitiveKind}
    (h : members.get? "kind" = some (.string kind))
    (hscalar : PrimitiveKind.ofName? kind = some scalar) :
    ofDefinition (.object members) =
      settle (Shape.closed ["kind"] members (.valid (.primitive scalar))) := by
  rw [ofDefinition, h]
  simp only [hscalar]

theorem tells_of_ofDefinition {type : FieldType} (h : ofDefinition j = .valid type) :
    ∃ members, j = .object members ∧ Tells members type := by
  cases j with
  | object members =>
    refine ⟨members, rfl, ?_⟩
    rw [ofDefinition] at h
    split at h
    · rename_i kind hkind
      split at h
      · rename_i scalar hscalar
        rw [settle_eq_valid, Shape.closed_eq_valid] at h
        obtain ⟨h, hclosed⟩ := h
        obtain rfl := Checked.valid.inj h
        exact ⟨name_of_ofName? hscalar ▸ hkind, hclosed⟩
      · split at h
        · rename_i harray
          rw [settle_eq_valid, Shape.closed_eq_valid, Checked.seq_eq_valid] at h
          simp only [Checked.map_eq_valid] at h
          obtain ⟨⟨_, b, ⟨element, helement, rfl⟩, hflag, rfl⟩, hclosed⟩ := h
          exact ⟨harray ▸ hkind, helement, hflag, hclosed⟩
        split at h
        · rename_i hmap
          rw [settle_eq_valid, Shape.closed_eq_valid] at h
          simp only [Checked.seq_eq_valid, Checked.map_eq_valid] at h
          obtain ⟨⟨_, b, ⟨_, value, ⟨key, hkey, rfl⟩, hvalue, rfl⟩, hflag, rfl⟩, hclosed⟩ := h
          exact ⟨hmap ▸ hkind, hkey, hvalue, hflag, hclosed⟩
        split at h
        · rename_i hrow
          rw [settle_eq_valid, Shape.closed_eq_valid, Checked.map_eq_valid] at h
          obtain ⟨⟨fields, hfields, rfl⟩, hclosed⟩ := h
          exact ⟨hrow ▸ hkind, hfields, hclosed⟩
        split at h
        · rename_i hlogical
          rw [settle_eq_valid, Shape.closed_eq_valid] at h
          simp only [Checked.seq_eq_valid, Checked.map_eq_valid] at h
          obtain ⟨⟨_, labels, ⟨_, representation, ⟨_, base, ⟨identifier, hidentifier, rfl⟩, hbase,
            rfl⟩, hrepresentation, rfl⟩, hlabels, rfl⟩, hclosed⟩ := h
          exact ⟨hlogical ▸ hkind, hidentifier, hbase, hrepresentation, hlabels, hclosed⟩
        · simp [Checked.refuse] at h
    · simp [Checked.refuse] at h
  | _ => simp [ofDefinition, Checked.refuse] at h

theorem ofDefinition_of_tells {type : FieldType} (h : Tells members type) :
    ofDefinition (.object members) = .valid type := by
  cases type with
  | primitive kind =>
    obtain ⟨hkind, hclosed⟩ := h
    have hscalar : PrimitiveKind.ofName? kind.name = some kind := by cases kind <;> rfl
    rw [ofDefinition_of_ofName? hkind hscalar, settle_eq_valid, Shape.closed_eq_valid]
    exact ⟨rfl, hclosed⟩
  | array element elementNullable =>
    obtain ⟨hkind, helement, hflag, hclosed⟩ := h
    rw [ofDefinition_array hkind, helement, hflag, settle_eq_valid, Shape.closed_eq_valid]
    exact ⟨rfl, hclosed⟩
  | map key value valueNullable =>
    obtain ⟨hkind, hkey, hvalue, hflag, hclosed⟩ := h
    rw [ofDefinition_map hkind, hkey, hvalue, hflag, settle_eq_valid, Shape.closed_eq_valid]
    exact ⟨rfl, hclosed⟩
  | row fields =>
    obtain ⟨hkind, hfields, hclosed⟩ := h
    rw [ofDefinition_row hkind, hfields, settle_eq_valid, Shape.closed_eq_valid]
    exact ⟨rfl, hclosed⟩
  | logical identifier base representation labels =>
    obtain ⟨hkind, hidentifier, hbase, hrepresentation, hlabels, hclosed⟩ := h
    rw [ofDefinition_logical hkind, hidentifier, hbase, hrepresentation, hlabels, settle_eq_valid,
      Shape.closed_eq_valid]
    exact ⟨rfl, hclosed⟩
  | unknown kind => exact absurd h id

/-- What the members of a document say of the field as which it is read. -/
def TellsField (members : Members Json) (f : Field) : Prop :=
  (members.get? "name" = some (.string f.name) ∧ f.name ≠ "") ∧
    memberType members "type" = .valid f.type ∧ Shape.flag "nullable" members = .valid f.nullable ∧
    (∃ text, Shape.member members "description" (Shape.optional Shape.string) = .valid text ∧
      f.description = ConversionError.present? text) ∧
    members.Closed ["name", "type", "nullable", "description"]

theorem fieldOfDefinition_eq_valid {f : Field} :
    fieldOfDefinition j = .valid f ↔ ∃ members, j = .object members ∧ TellsField members f := by
  cases j with
  | object members =>
    rw [fieldOfDefinition, Shape.closed_eq_valid]
    simp only [Checked.seq_eq_valid, Checked.map_eq_valid, Shape.filledMember_eq_valid]
    constructor
    · rintro ⟨⟨_, text, ⟨_, nullable, ⟨_, type, ⟨name, hname, rfl⟩, htype, rfl⟩, hflag, rfl⟩, htext,
        rfl⟩, hclosed⟩
      exact ⟨members, rfl, hname, htype, hflag, ⟨text, htext, rfl⟩, hclosed⟩
    · rintro ⟨_, heq, hname, htype, hflag, ⟨text, htext, hdescription⟩, hclosed⟩
      obtain rfl := Json.object.inj heq
      obtain ⟨name, type, nullable, description⟩ := f
      obtain rfl : description = _ := hdescription
      exact ⟨⟨_, text, ⟨_, nullable, ⟨_, type, ⟨name, hname, rfl⟩, htype, rfl⟩, hflag, rfl⟩, htext,
        rfl⟩, hclosed⟩
  | _ => simp [fieldOfDefinition, Shape.wrongKind, Checked.refuse]

end FieldType

/-! ## What is read has the shape -/

namespace Shape

variable {α : Type} {members : Members Json} {name : String}

theorem string_eq_valid {j : Json} {s : String} : string j = .valid s ↔ j = .string s := by
  cases j <;> simp [string, wrongKind, Checked.refuse]

/-- A member that may be missing is valid where it is missing or its value is. -/
theorem exists_optional_eq_valid {check : Json → Checked α} :
    (∃ o, member members name (optional check) = .valid o) ↔
      members.MayHold name fun j => ∃ a, check j = .valid a := by
  simp only [optional_eq_valid, Members.MayHold]
  cases members.get? name with
  | none => exact ⟨fun _ j hj => absurd hj (by simp), fun _ => ⟨none, rfl⟩⟩
  | some j =>
    constructor
    · rintro ⟨o, ho⟩ j' hj'
      obtain rfl := Option.some.inj hj'
      cases o with
      | none => exact absurd ho (by simp)
      | some a => exact ⟨a, Option.some.inj ho⟩
    · intro h
      obtain ⟨a, ha⟩ := h j rfl
      exact ⟨some a, congrArg some ha⟩

theorem exists_flag_eq_valid :
    (∃ b, flag name members = .valid b) ↔ members.MayHold name Json.IsBool := by
  simp only [flag_eq_valid, Members.MayHold, Json.IsBool]
  cases members.get? name <;> simp

end Shape

namespace FieldType

open Definition

variable {rule : List String → Prop} {j : Json}

theorem exists_labels_eq_valid {members : Members Json} {name : String} :
    (∃ o, Shape.member members name (Shape.optional strings) = .valid o) ↔
      members.MayHold name Json.IsTextList := by
  rw [Shape.exists_optional_eq_valid]
  simp only [strings_eq_valid]
  exact Iff.rfl

theorem exists_text_eq_valid {members : Members Json} {name : String} :
    (∃ o, Shape.member members name (Shape.optional Shape.string) = .valid o) ↔
      members.MayHold name Json.IsText := by
  rw [Shape.exists_optional_eq_valid]
  simp only [Shape.string_eq_valid]
  exact Iff.rfl

theorem tellsName?_of_tellsField {members : Members Json} {f : Field} (h : TellsField members f) :
    (Json.object members).tellsName? = some f.name := by
  obtain ⟨⟨hname, _⟩, _⟩ := h
  rw [Json.tellsName?, Json.member?, hname]

/-- The fields that are read have the names that their documents tell. -/
theorem filterMap_tellsName? {items : List Json} {fields : List Field}
    (h : items.map fieldOfDefinition = fields.map .valid) :
    items.filterMap Json.tellsName? = fields.map Named.name := by
  induction items generalizing fields with
  | nil =>
    obtain rfl := List.map_eq_nil_iff.mp h.symm
    rfl
  | cons item items ih =>
    cases fields with
    | nil => simp at h
    | cons f fields =>
      rw [List.map_cons, List.map_cons, List.cons.injEq] at h
      obtain ⟨hfirst, hrest⟩ := h
      obtain ⟨members, rfl, hf⟩ := fieldOfDefinition_eq_valid.mp hfirst
      rw [List.filterMap_cons, tellsName?_of_tellsField hf, ih hrest, List.map_cons]

theorem isField_of_fieldOfDefinition {f : Field} (h : fieldOfDefinition j = .valid f)
    (htype : ∀ type, ofDefinition type = .valid f.type → IsType rule type) : IsField rule j := by
  obtain ⟨members, rfl, ⟨hname, hfilled⟩, hmember, hflag, ⟨text, htext, _⟩, hclosed⟩ :=
    fieldOfDefinition_eq_valid.mp h
  obtain ⟨type, hget, hread⟩ := memberType_eq_valid_iff.mp hmember
  have hdescription : Members.MayHold members "description" Json.IsText := by
    exact exists_text_eq_valid.mp ⟨text, htext⟩
  exact .mk hname hfilled hget (htype type hread) (Shape.exists_flag_eq_valid.mp ⟨_, hflag⟩)
    hdescription hclosed

/-- The items of a list that is read are documents of fields. -/
theorem isField_of_map {items : List Json} {fields : List Field}
    (h : items.map fieldOfDefinition = fields.map .valid)
    (htypes : ∀ f ∈ fields, ∀ type, ofDefinition type = .valid f.type → IsType rule type) :
    ∀ item ∈ items, IsField rule item := by
  intro item hitem
  have hread : fieldOfDefinition item ∈ fields.map Checked.valid := h ▸ List.mem_map_of_mem hitem
  obtain ⟨f, hf, heq⟩ := List.mem_map.mp hread
  exact isField_of_fieldOfDefinition heq.symm (htypes f hf)

/-- A document that is read as a type is one of a type, and its names meet what those of the type
meet. -/
theorem isType_of_ofDefinition {type : FieldType} (h : ofDefinition j = .valid type)
    (hnames : type.NamesMeet rule) : IsType rule j := by
  induction type generalizing j with
  | primitive kind =>
    obtain ⟨members, rfl, hkind, hclosed⟩ := tells_of_ofDefinition h
    exact .primitive kind hkind hclosed
  | array element elementNullable ih =>
    obtain ⟨members, rfl, hkind, helement, hflag, hclosed⟩ := tells_of_ofDefinition h
    obtain ⟨e, hget, he⟩ := memberType_eq_valid_iff.mp helement
    exact .array hkind hget (ih he hnames) (Shape.exists_flag_eq_valid.mp ⟨_, hflag⟩) hclosed
  | map key value valueNullable ihKey ihValue =>
    obtain ⟨members, rfl, hkind, hkey, hvalue, hflag, hclosed⟩ := tells_of_ofDefinition h
    obtain ⟨k, hgetKey, hk⟩ := memberType_eq_valid_iff.mp hkey
    obtain ⟨v, hgetValue, hv⟩ := memberType_eq_valid_iff.mp hvalue
    exact .map hkind hgetKey (ihKey hk hnames.1) hgetValue (ihValue hv hnames.2)
      (Shape.exists_flag_eq_valid.mp ⟨_, hflag⟩) hclosed
  | row fields ih =>
    obtain ⟨members, rfl, hkind, hfields, hclosed⟩ := tells_of_ofDefinition h
    obtain ⟨items, hget, hitems⟩ := memberFields_eq_valid_iff.mp hfields
    obtain ⟨hrule, htypes⟩ := hnames
    refine .row hkind hget ?_ (filterMap_tellsName? hitems ▸ hrule) hclosed
    exact isField_of_map hitems fun f hf _ htype => ih f hf htype (allNamesMeet_iff.mp htypes f hf)
  | logical identifier base representation labels ih =>
    obtain ⟨members, rfl, hkind, hidentifier, hbase, hrepresentation, hlabels, hclosed⟩ :=
      tells_of_ofDefinition h
    obtain ⟨hget, hfilled⟩ := Shape.filledMember_eq_valid.mp hidentifier
    obtain ⟨b, hgetBase, hb⟩ := memberType_eq_valid_iff.mp hbase
    obtain ⟨r, hgetRepresentation, hr⟩ := Shape.required_eq_valid.mp hrepresentation
    obtain ⟨hknown, rfl⟩ := representationOf_eq_valid.mp hr
    have hvalues : Members.MayHold members "values" Json.IsTextList := by
      exact exists_labels_eq_valid.mp ⟨labels, hlabels⟩
    exact .logical hkind hget hfilled hgetBase (ih hb hnames) hgetRepresentation hknown hvalues
      hclosed
  | unknown kind =>
    obtain ⟨_, _, hunknown⟩ := tells_of_ofDefinition h
    exact absurd hunknown id

/-! ## What has the shape is read -/

/-- Items each of which is read are read as a list. -/
theorem exists_fields_of_items {items : List Json}
    (h : ∀ item ∈ items, ∃ f, fieldOfDefinition item = .valid f ∧ f.type.NamesMeet rule) :
    ∃ fields : List Field, items.map fieldOfDefinition = fields.map .valid ∧
      AllNamesMeet rule fields := by
  induction items with
  | nil => exact ⟨[], rfl, trivial⟩
  | cons item items ih =>
    obtain ⟨f, hf, htype⟩ := h item List.mem_cons_self
    obtain ⟨fields, hfields, htypes⟩ := ih fun i hi => h i (List.mem_cons_of_mem _ hi)
    exact ⟨f :: fields, by rw [List.map_cons, List.map_cons, hf, hfields], htype, htypes⟩

mutual

/-- A document of a type is read, and the names in the type meet what its names meet. -/
theorem exists_ofDefinition {rule : List String → Prop} {j : Json} (h : IsType rule j) :
    ∃ type, ofDefinition j = .valid type ∧ type.NamesMeet rule := by
  match h with
  | .primitive kind hkind hclosed =>
    exact ⟨.primitive kind, ofDefinition_of_tells ⟨hkind, hclosed⟩, trivial⟩
  | .array hkind hget helement hflag hclosed =>
    obtain ⟨element, hread, hnames⟩ := exists_ofDefinition helement
    obtain ⟨elementNullable, hb⟩ := Shape.exists_flag_eq_valid.mpr hflag
    have hmember := memberType_eq_valid hget hread
    exact ⟨.array element elementNullable,
      ofDefinition_of_tells ⟨hkind, hmember, hb, hclosed⟩, hnames⟩
  | .map hkind hgetKey hkey hgetValue hvalue hflag hclosed =>
    obtain ⟨key, hreadKey, hnamesKey⟩ := exists_ofDefinition hkey
    obtain ⟨value, hreadValue, hnamesValue⟩ := exists_ofDefinition hvalue
    obtain ⟨valueNullable, hb⟩ := Shape.exists_flag_eq_valid.mpr hflag
    exact ⟨.map key value valueNullable, ofDefinition_of_tells ⟨hkind,
      memberType_eq_valid hgetKey hreadKey, memberType_eq_valid hgetValue hreadValue, hb, hclosed⟩,
      hnamesKey, hnamesValue⟩
  | .row hkind hget hitems hnames hclosed =>
    obtain ⟨fields, hfields, htypes⟩ := exists_fields_of_items
      fun item hitem => exists_fieldOfDefinition (hitems item hitem)
    have hmember := memberFields_eq_valid_iff.mpr ⟨_, hget, hfields⟩
    exact ⟨.row fields, ofDefinition_of_tells ⟨hkind, hmember, hclosed⟩,
      filterMap_tellsName? hfields ▸ hnames, htypes⟩
  | .logical hkind hidentifier hfilled hget hbase hrepresentation hknown hvalues hclosed =>
    obtain ⟨base, hread, hnames⟩ := exists_ofDefinition hbase
    obtain ⟨labels, hlabels⟩ := exists_labels_eq_valid.mpr hvalues
    have hr := representationOf_name hknown
    exact ⟨.logical _ base _ labels, ofDefinition_of_tells ⟨hkind,
      Shape.filledMember_eq_valid.mpr ⟨hidentifier, hfilled⟩, memberType_eq_valid hget hread,
      Shape.required_eq_valid.mpr ⟨_, hrepresentation, hr⟩, hlabels, hclosed⟩, hnames⟩

/-- A document of a field is read, and so are the names in its type. -/
theorem exists_fieldOfDefinition {rule : List String → Prop} {j : Json} (h : IsField rule j) :
    ∃ f, fieldOfDefinition j = .valid f ∧ f.type.NamesMeet rule := by
  match h with
  | .mk hname hfilled hget htype hflag hdescription hclosed =>
    obtain ⟨type, hread, hnames⟩ := exists_ofDefinition htype
    obtain ⟨nullable, hb⟩ := Shape.exists_flag_eq_valid.mpr hflag
    obtain ⟨text, htext⟩ := exists_text_eq_valid.mpr hdescription
    exact ⟨⟨_, type, nullable, ConversionError.present? text⟩,
      fieldOfDefinition_eq_valid.mpr ⟨_, rfl, ⟨hname, hfilled⟩, memberType_eq_valid hget hread, hb,
        ⟨text, htext, rfl⟩, hclosed⟩, hnames⟩

end

end FieldType

/-! ## Schemas -/

namespace Schema

open Definition

variable {rule : List String → Prop} {j : Json}

theorem checkDefinition_eq_valid {fields : List Field} :
    checkDefinition j = .valid fields ↔
      ∃ (members : Members Json) (items : List Json), j = .object members ∧
        members.get? "fields" = some (.array items) ∧
        items.map FieldType.fieldOfDefinition = fields.map .valid ∧ members.Closed ["fields"] := by
  cases j with
  | object members =>
    rw [checkDefinition, Shape.closed_eq_valid, FieldType.memberFields_eq_valid_iff]
    constructor
    · rintro ⟨⟨items, hget, hitems⟩, hclosed⟩
      exact ⟨members, items, rfl, hget, hitems, hclosed⟩
    · rintro ⟨_, items, heq, hget, hitems, hclosed⟩
      obtain rfl := Json.object.inj heq
      exact ⟨⟨items, hget, hitems⟩, hclosed⟩
  | _ => simp [checkDefinition, Shape.wrongKind, Checked.refuse]

/-- A document that is read as fields is one of a schema, if the names of the fields meet the rule
for names, here and in their types. -/
theorem isSchema_of_checkDefinition {fields : List Field} (h : checkDefinition j = .valid fields)
    (hnames : (FieldType.row fields).NamesMeet rule) : IsSchema rule j := by
  obtain ⟨members, items, rfl, hget, hitems, hclosed⟩ := checkDefinition_eq_valid.mp h
  obtain ⟨hrule, htypes⟩ := hnames
  refine .mk hget ?_ (FieldType.filterMap_tellsName? hitems ▸ hrule) hclosed
  exact FieldType.isField_of_map hitems fun f hf _ htype =>
    FieldType.isType_of_ofDefinition htype (FieldType.allNamesMeet_iff.mp htypes f hf)

/-- A document of a schema is read. -/
theorem exists_checkDefinition (h : IsSchema rule j) :
    ∃ fields, checkDefinition j = .valid fields ∧ (FieldType.row fields).NamesMeet rule := by
  obtain ⟨hget, hitems, hnames, hclosed⟩ := h
  obtain ⟨fields, hfields, htypes⟩ := FieldType.exists_fields_of_items
    fun item hitem => FieldType.exists_fieldOfDefinition (hitems item hitem)
  exact ⟨fields, checkDefinition_eq_valid.mpr ⟨_, _, rfl, hget, hfields, hclosed⟩,
    FieldType.filterMap_tellsName? hfields ▸ hnames, htypes⟩

/-- The documents of the right shape are the ones that are read without an issue. -/
theorem isShaped_iff : IsShaped j ↔ ∃ fields, checkDefinition j = .valid fields := by
  constructor
  · intro h
    obtain ⟨fields, hfields, _⟩ := exists_checkDefinition h
    exact ⟨fields, hfields⟩
  · rintro ⟨fields, hfields⟩
    exact isSchema_of_checkDefinition hfields (FieldType.namesMeet_true _)

/-- Of two readings of one document there is only one, so the rule for names is one for the fields
that are read. -/
theorem isSound_iff {fields : List Field} (h : checkDefinition j = .valid fields) :
    IsSound j ↔ (FieldType.row fields).NamesMeet List.Nodup := by
  constructor
  · intro hsound
    obtain ⟨found, hfound, hnames⟩ := exists_checkDefinition hsound
    obtain rfl := Checked.valid.inj (h.symm.trans hfound)
    exact hnames
  · exact isSchema_of_checkDefinition h

theorem build_eq_ok_iff {fields : List Field} {schema : Schema} :
    build fields = .ok schema ↔
      schema = fields ∧ (FieldType.row fields).NamesMeet List.Nodup := by
  have htypes := FieldType.checkFieldNames_eq_ok_iff fun f (_ : f ∈ fields) =>
    FieldType.checkNames_eq_ok_iff f.type
  refine Outcome.bind_unit_eq_ok.trans ?_
  rw [htypes, create_eq_ok, FieldType.NamesMeet]
  grind

theorem refusesNames_build (fields : List Field) : FieldType.RefusesNames (build fields) :=
  (FieldType.refusesNames_checkFieldNames fun f _ => FieldType.refusesNames_checkNames f.type).bind
    fun _ _ => FieldType.refusesNames_create fields

end Schema

end WarehouseRows

import WarehouseRows.Fingerprint.Descriptor
import WarehouseRows.Proofs.AvroTotality
import WarehouseRows.Proofs.NormalForm
import WarehouseRows.Proofs.TableDocuments

/-!
# Tables that documents list

Two listings of one table are the same table to whoever reads its rows: the normal form of listed
columns has the message descriptor of the columns, and with it their fingerprint, and their record
schema. A table that is listed in a document and has a schema has both, and its schema is one that
a document tells.

## Main definitions

* `Column.parts`: the columns inside a column, none if there are none.
-/

namespace WarehouseRows

/-! ## Keywords -/

namespace Keyword

/-- A keyword is its own standard form, or a legacy one. -/
theorem standard_cases (keyword : Option String) :
    keyword.map standard = keyword ∨
      ∃ p ∈ legacy, keyword = some p.1 ∧ keyword.map standard = some p.2 := by
  cases keyword with
  | none => exact Or.inl rfl
  | some k =>
    cases hk : legacy.lookup k with
    | none => exact Or.inl (by simp [standard, hk])
    | some found => exact Or.inr ⟨_, mem_of_lookup hk, rfl, by simp [standard, hk]⟩

variable {α : Type} {table : List (String × α)}

/-- A table answers alike for a keyword and its standard form if it does so for the legacy
keywords. -/
theorem lookUp_standard (h : ∀ p ∈ legacy, table.lookup p.2 = table.lookup p.1)
    (keyword : Option String) :
    Column.lookUp table (keyword.map standard) = Column.lookUp table keyword := by
  rcases standard_cases keyword with hsame | ⟨p, hp, rfl, hp'⟩
  · rw [hsame]
  · rw [hp']
    exact h p hp

/-- A keyword that is not in a table with the legacy keywords is its own standard form. -/
theorem standard_of_lookUp (h : ∀ p ∈ legacy, table.lookup p.1 ≠ none) {keyword : Option String}
    (hkeyword : Column.lookUp table keyword = none) : keyword.map standard = keyword := by
  rcases standard_cases keyword with hsame | ⟨p, hp, rfl, _⟩
  · exact hsame
  · exact absurd hkeyword (h p hp)

theorem isStruct_standard (keyword : Option String) :
    Column.isStruct (keyword.map standard) = Column.isStruct keyword := by
  have hlegacy : ∀ p ∈ legacy, Column.isStruct (some p.2) = Column.isStruct (some p.1) := by decide
  rcases standard_cases keyword with hsame | ⟨p, hp, rfl, hp'⟩
  · rw [hsame]
  · rw [hp', hlegacy p hp]

theorem avroScalar_standard {keyword : Option String} (h : Column.isStruct keyword = false) :
    Column.avroScalar (keyword.map standard) = Column.avroScalar keyword := by
  rcases standard_cases keyword with hsame | ⟨p, hp, rfl, hp'⟩
  · rw [hsame]
  · rw [hp']
    simp only [legacy, List.mem_cons, List.not_mem_nil, or_false] at hp
    rcases hp with rfl | rfl | rfl | rfl
    · rfl
    · rfl
    · rfl
    · exact absurd h (by decide)

end Keyword

namespace Column

/-! ## Columns inside columns -/

/-- The columns inside a column, none if there are none. -/
def parts (c : Column) : List Column :=
  c.fields.getD []

/-- What passes from the columns inside every column to the column holds for all columns. -/
theorem parts_induction {motive : Column → Prop} (h : ∀ c, (∀ d ∈ c.parts, motive d) → motive c)
    (c : Column) : motive c := by
  induction c with
  | leaf name keyword mode description => exact h _ fun d hd => absurd hd List.not_mem_nil
  | nested name keyword mode columns description ih => exact h _ ih

theorem isListed_iff {c : Column} :
    c.IsListed ↔ c.name ≠ "" ∧ Mode.IsWord c.mode ∧ ∀ d ∈ c.parts, d.IsListed := by
  obtain ⟨name, keyword, mode, fields, description⟩ := c
  cases fields with
  | none => simp [IsListed, parts]
  | some columns => simp [IsListed, parts, allListed_iff]

theorem keyword_normal (c : Column) : c.normal.keyword = c.keyword.map Keyword.standard := by
  obtain ⟨name, keyword, mode, fields, description⟩ := c
  cases fields <;> rfl

/-- Only in a struct are there columns inside. -/
theorem parts_normal {c : Column} (h : isStruct c.keyword = true) :
    c.normal.parts = normals c.parts := by
  obtain ⟨name, keyword, mode, fields, description⟩ := c
  have hstruct : isStruct keyword = true := h
  cases fields <;> simp only [parts, normal, hstruct, if_true] <;> rfl

theorem mode_normal (c : Column) : c.normal.mode = normalMode c.mode := by
  rw [normal_eq]

theorem description_normal (c : Column) :
    c.normal.description = ConversionError.present? c.description := by
  rw [normal_eq]

/-! ## Descriptors -/

/-- The message of a column with a message type: the fields of the columns inside it. -/
def messageOf (c : Column) (type : String) : Except ConversionError (Option (List MessageField)) :=
  if type = "MESSAGE" then
    ((messageFields c.parts).mapError fun e => e.withField c.name).map some
  else .ok none

theorem messageField_eq (c : Column) :
    c.messageField =
      match lookUp MessageField.typeOfKeyword c.keyword with
      | none => .error (noMessageType c.name c.keyword)
      | some type =>
        (c.messageOf type).map fun message => ⟨Text.toLower c.name, type, c.label, message⟩ := by
  obtain ⟨name, keyword, mode, fields, description⟩ := c
  cases hkeyword : lookUp MessageField.typeOfKeyword keyword with
  | none => cases fields <;> simp only [messageField, hkeyword]
  | some type =>
    by_cases htype : type = "MESSAGE"
    · cases fields with
      | none => simp only [messageField, hkeyword, messageOf, htype, if_true]; rfl
      | some columns =>
        simp only [messageField, hkeyword, messageOf, htype, if_true, parts, Option.getD_some]
        cases messageFields columns <;> rfl
    · cases fields <;> simp only [messageField, hkeyword, messageOf, htype, if_false] <;> rfl

theorem messageFields_normals {columns : List Column}
    (h : ∀ c ∈ columns, c.normal.messageField = c.messageField) :
    messageFields (normals columns) = messageFields columns := by
  induction columns with
  | nil => rfl
  | cons c columns ih =>
    rw [normals, messageFields, messageFields, h c List.mem_cons_self,
      ih fun c hc => h c (List.mem_cons_of_mem _ hc)]

theorem label_normal {c : Column} (h : Mode.IsWord c.mode) : c.normal.label = c.label := by
  rw [label, label, mode_normal]
  cases hmode : c.mode with
  | none => rfl
  | some mode =>
    cases mode with
    | required | nullable | repeated => rfl
    | other name => exact absurd (h _ hmode) (by simp [Mode.words])

/-- The keywords with messages for types are those of structs. -/
theorem isStruct_iff {keyword : Option String} {type : String}
    (h : lookUp MessageField.typeOfKeyword keyword = some type) :
    isStruct keyword = true ↔ type = "MESSAGE" := by
  cases keyword with
  | none => exact absurd h (by simp [lookUp])
  | some k =>
    have htable : ∀ p ∈ MessageField.typeOfKeyword,
        isStruct (some p.1) = true ↔ p.2 = "MESSAGE" := by decide
    exact htable _ (Keyword.mem_of_lookup h)

/-- A column and its normal form have the same message field. -/
theorem messageField_normal {c : Column} (h : c.IsListed) :
    c.normal.messageField = c.messageField := by
  induction c using parts_induction with
  | h c ih =>
    obtain ⟨_, hmode, hparts⟩ := isListed_iff.mp h
    rw [messageField_eq, messageField_eq, keyword_normal, name_normal, label_normal hmode,
      Keyword.lookUp_standard (by decide)]
    cases hkeyword : lookUp MessageField.typeOfKeyword c.keyword with
    | none =>
      -- the refusal names the keyword, and all legacy keywords have a message type
      simp only
      rw [Keyword.standard_of_lookUp (by decide) hkeyword]
    | some type =>
      have hmessage : c.normal.messageOf type = c.messageOf type := by
        rw [messageOf, messageOf, name_normal]
        split
        · rename_i htype
          rw [parts_normal ((isStruct_iff hkeyword).mpr htype),
            messageFields_normals fun d hd => ih d hd (hparts d hd)]
        · rfl
      simp only [hmessage]

end Column

/-- The normal form of listed columns has their descriptor. -/
theorem TableSchema.descriptor_normal {columns : TableSchema}
    (h : ∀ c ∈ columns, Column.IsListed c) : columns.normal.descriptor = columns.descriptor :=
  Column.messageFields_normals fun c hc => Column.messageField_normal (h c hc)

/-! ## Record schemas -/

namespace Column

variable {space : Option String}

theorem avroType_eq (c : Column) :
    avroType space c =
      if isStruct c.keyword then
        (avroFields space c.parts).map fun fields =>
          .record c.name fields (ConversionError.present? space)
            (ConversionError.present? c.description)
      else avroScalar c.keyword := by
  obtain ⟨name, keyword, mode, fields, description⟩ := c
  cases fields with
  | none => rfl
  | some columns =>
    rw [avroType]
    simp only [parts, Option.getD_some]
    cases avroFields space columns <;> rfl

theorem avroFieldOf_normal (c : Column) (type : AvroSchema) :
    avroFieldOf c.normal.name c.normal.mode c.normal.description type =
      avroFieldOf c.name c.mode c.description type := by
  rw [name_normal, mode_normal, description_normal]
  have hpresent := ConversionError.present?_present? c.description
  cases c.mode with
  | none => simp only [normalMode, avroFieldOf, hpresent]
  | some mode => cases mode <;> simp only [normalMode, avroFieldOf, hpresent]

theorem avroFields_normals {columns : List Column}
    (h : ∀ c ∈ columns, avroType space c.normal = avroType space c) :
    avroFields space (normals columns) = avroFields space columns := by
  induction columns with
  | nil => rfl
  | cons c columns ih =>
    rw [normals, avroFields, avroFields, h c List.mem_cons_self, name_normal,
      ih fun c hc => h c (List.mem_cons_of_mem _ hc)]
    simp only [← avroFieldOf_normal c, name_normal]

/-- A column and its normal form have the same record schema. -/
theorem avroType_normal (c : Column) : avroType space c.normal = avroType space c := by
  induction c using parts_induction with
  | h c ih =>
    rw [avroType_eq, avroType_eq, keyword_normal, name_normal, description_normal,
      ConversionError.present?_present?, Keyword.isStruct_standard]
    cases hstruct : isStruct c.keyword with
    | true => rw [parts_normal hstruct, avroFields_normals ih]; rfl
    | false => simp only [Bool.false_eq_true, if_false, Keyword.avroScalar_standard hstruct]

end Column

/-- The normal form of columns has their record schema. -/
theorem TableSchema.toAvro_normal (columns : TableSchema) (name : String)
    (space doc : Option String) :
    columns.normal.toAvro name space doc = columns.toAvro name space doc := by
  rw [TableSchema.toAvro, TableSchema.toAvro, TableSchema.normal,
    Column.avroFields_normals fun c _ => c.avroType_normal]

/-! ## Tables with a schema -/

namespace Column

theorem baseType_eq (c : Column) :
    baseType { } c =
      if isStruct c.keyword then do
        let fields ← toFields { } c.parts
        let fields ← Schema.create fields
        pure (.row fields)
      else scalarType c.keyword := by
  obtain ⟨name, keyword, mode, fields, description⟩ := c
  cases fields with
  | none => rfl
  | some columns => exact baseType_nested name keyword mode columns description

/-- The type of a struct is the row of the columns inside it. -/
theorem baseType_struct_eq_ok {c : Column} {type : FieldType} (hstruct : isStruct c.keyword = true)
    (h : baseType { } c = .ok type) :
    ∃ fields, toFields { } c.parts = .ok fields ∧ Schema.create fields = .ok fields ∧
      type = .row fields := by
  rw [baseType_eq, if_pos hstruct] at h
  obtain ⟨fields, hfields, h⟩ := Outcome.bind_eq_ok.mp h
  obtain ⟨created, hcreated, hrow⟩ := Outcome.bind_eq_ok.mp h
  obtain ⟨rfl, _⟩ := Schema.create_eq_ok.mp hcreated
  exact ⟨created, hfields, hcreated, (Except.ok.inj hrow).symm⟩

/-! ### Their descriptors -/

theorem exists_messageFields {columns : List Column} {fields : List Field}
    (hcolumns : ∀ c ∈ columns, ∀ {type}, baseType { } c = .ok type →
      ∃ field, c.messageField = .ok field)
    (h : toFields { } columns = .ok fields) : ∃ message, messageFields columns = .ok message := by
  induction columns generalizing fields with
  | nil => exact ⟨[], rfl⟩
  | cons c columns ih =>
    obtain ⟨type, others, htype, hothers, _⟩ := toFields_cons_eq_ok h
    obtain ⟨field, hfield⟩ := hcolumns c List.mem_cons_self htype
    obtain ⟨rest, hrest⟩ := ih (fun c hc => hcolumns c (List.mem_cons_of_mem _ hc)) hothers
    refine ⟨field :: rest, ?_⟩
    rw [messageFields, hfield, hrest]
    rfl

/-- A column with a type has a message field. -/
theorem exists_messageField {c : Column} {type : FieldType} (h : baseType { } c = .ok type) :
    ∃ field, c.messageField = .ok field := by
  induction c using parts_induction generalizing type with
  | h c ih =>
    rw [messageField_eq]
    cases hstruct : isStruct c.keyword with
    | true =>
      obtain ⟨fields, hfields, _⟩ := baseType_struct_eq_ok hstruct h
      obtain ⟨message, hmessage⟩ := exists_messageFields (fun d hd _ => ih d hd) hfields
      have hkeyword : lookUp MessageField.typeOfKeyword c.keyword = some "MESSAGE" := by
        simp only [isStruct, Bool.or_eq_true, beq_iff_eq] at hstruct
        rcases hstruct with hkeyword | hkeyword <;> rw [hkeyword] <;> rfl
      simp only [hkeyword, messageOf, if_true, hmessage]
      exact ⟨_, rfl⟩
    | false =>
      rw [baseType_scalar hstruct] at h
      obtain ⟨k, hk, hmem⟩ := scalarType_eq_ok h
      have htable : ∀ p ∈ scalarTypes, (MessageField.typeOfKeyword.lookup p.1).isSome = true := by
        decide
      obtain ⟨message, hlookUp⟩ := Option.isSome_iff_exists.mp (htable _ hmem)
      have hkeyword : lookUp MessageField.typeOfKeyword c.keyword = some message := by
        rw [hk]
        exact hlookUp
      -- so what is listed inside the column does not matter
      have hmessage : message ≠ "MESSAGE" := by
        intro hm
        rw [(isStruct_iff hkeyword).mpr hm] at hstruct
        exact absurd hstruct (by simp)
      simp only [hkeyword, messageOf, hmessage, if_false]
      exact ⟨_, rfl⟩

/-! ### Their schemas -/

theorem isDefinable_of_scalarType {keyword : Option String} {type : FieldType}
    (h : scalarType keyword = .ok type) : type.IsDefinable := by
  obtain ⟨k, _, hmem⟩ := scalarType_eq_ok h
  have hall : ∀ p ∈ scalarTypes, p.2.IsDefinable := by
    simp only [scalarTypes, List.forall_mem_cons, FieldType.date, FieldType.time,
      FieldType.datetime, FieldType.IsDefinable]
    simp [FieldType.dateId, FieldType.timeId, FieldType.datetimeId, Representation.all]
  exact hall _ hmem

theorem isDefinable_withMode (mode : Option Mode) {type : FieldType} (h : type.IsDefinable) :
    (withMode mode type).IsDefinable := by
  rw [withMode]
  split
  · exact h
  · exact h

theorem allDefinable_of_toFields {columns : List Column} {fields : List Field}
    (hlisted : ∀ c ∈ columns, c.IsListed)
    (hcolumns : ∀ c ∈ columns, ∀ {type}, baseType { } c = .ok type → type.IsDefinable)
    (h : toFields { } columns = .ok fields) : FieldType.AllDefinable fields := by
  induction columns generalizing fields with
  | nil =>
    obtain rfl := Except.ok.inj h
    exact trivial
  | cons c columns ih =>
    obtain ⟨type, others, htype, hothers, rfl⟩ := toFields_cons_eq_ok h
    refine ⟨⟨(isListed_iff.mp (hlisted c List.mem_cons_self)).1,
      ConversionError.present?_present? c.description,
      isDefinable_withMode c.mode (hcolumns c List.mem_cons_self htype)⟩, ?_⟩
    exact ih (fun c hc => hlisted c (List.mem_cons_of_mem _ hc))
      (fun c hc => hcolumns c (List.mem_cons_of_mem _ hc)) hothers

/-- The type of a listed column is one that documents tell. -/
theorem isDefinable_of_baseType {c : Column} {type : FieldType} (hlisted : c.IsListed)
    (h : baseType { } c = .ok type) : type.IsDefinable := by
  induction c using parts_induction generalizing type with
  | h c ih =>
    obtain ⟨_, _, hparts⟩ := isListed_iff.mp hlisted
    cases hstruct : isStruct c.keyword with
    | true =>
      obtain ⟨fields, hfields, hcreate, rfl⟩ := baseType_struct_eq_ok hstruct h
      exact ⟨hcreate, allDefinable_of_toFields hparts (fun d hd _ => ih d hd (hparts d hd)) hfields⟩
    | false => exact isDefinable_of_scalarType (baseType_scalar hstruct ▸ h)

end Column

namespace TableSchema

variable {columns : TableSchema} {schema : Schema}

/-- A table with a schema has a descriptor. -/
theorem exists_descriptor (h : columns.toSchema { } = .ok schema) :
    ∃ descriptor, columns.descriptor = .ok descriptor := by
  obtain ⟨fields, hfields, _⟩ := Outcome.bind_eq_ok.mp h
  exact Column.exists_messageFields (fun _ _ _ htype => Column.exists_messageField htype) hfields

/-- A table with a schema has a record schema. -/
theorem exists_record (h : columns.toSchema { } = .ok schema) (name : String)
    (space doc : Option String) : ∃ record, columns.toAvro name space doc = .ok record := by
  obtain ⟨fields, hfields, _⟩ := Outcome.bind_eq_ok.mp h
  obtain ⟨avroFields, havroFields, _⟩ := @Column.exists_avroFields space columns
    (fun _ _ _ htype => Column.exists_avroType htype) _ hfields
  refine ⟨.record name avroFields (ConversionError.present? space)
    (ConversionError.present? doc), ?_⟩
  rw [TableSchema.toAvro, havroFields]
  rfl

/-- The schema of listed columns is one that a document tells. -/
theorem isDefinable_of_toSchema (hlisted : ∀ c ∈ columns, Column.IsListed c)
    (h : columns.toSchema { } = .ok schema) : (FieldType.row schema).IsDefinable := by
  obtain ⟨fields, hfields, hcreated⟩ := Outcome.bind_eq_ok.mp h
  obtain ⟨rfl, _⟩ := Schema.create_eq_ok.mp hcreated
  exact ⟨hcreated, Column.allDefinable_of_toFields hlisted
    (fun c hc _ => Column.isDefinable_of_baseType (hlisted c hc)) hfields⟩

end TableSchema

end WarehouseRows

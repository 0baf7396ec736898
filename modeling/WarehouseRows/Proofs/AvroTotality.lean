import WarehouseRows.Row.Stage
import WarehouseRows.Proofs.AvroConformance

/-!
# Exported records make it to table rows

From the columns of a table there come an Avro schema, a canonical schema, and with these
a way from native records through canonical rows to table rows. If the columns have a
canonical schema, they have an Avro schema too, and every record that conforms to it goes
all the way: nothing that the exports of a table hold is refused.
-/

namespace WarehouseRows

/-! ## Fields -/

namespace Column

variable {options : ConversionOptions} {type : FieldType} {avro : AvroSchema} {value : Value}

@[simp] theorem name_avroFieldOf (name : String) (mode : Option Mode)
    (description : Option String) (type : AvroSchema) :
    (avroFieldOf name mode description type).name = name := by
  rw [avroFieldOf.eq_def]
  split <;> rfl

/-- The items of a list pass at the element type, so the list passes at the array. -/
theorem passes_array {nullable : Bool} (hserves : avro.Serves type)
    (h : (AvroSchema.array avro).Conforms options value) :
    (FieldType.array type false).Passes options nullable value := by
  obtain ⟨items, rfl, hitems⟩ := h
  have hpasses : ∀ item ∈ items, ∃ v, FieldType.readAvro options type false item = .ok v ∧
      ∃ cell, FieldType.encode type false v = .ok cell := by
    intro item hitem
    obtain ⟨_, v, cell, hread, _, hcell⟩ := hserves options false item (hitems item hitem)
    exact ⟨v, hread, cell, hcell⟩
  obtain ⟨read, hread, hcells⟩ := Outcome.exists_mapM hpasses
  obtain ⟨cells, hcells, _⟩ := Outcome.exists_mapM (P := fun _ => True) fun v hv =>
    (hcells v hv).imp fun _ hcell => ⟨hcell, trivial⟩
  refine ⟨.list read, .list cells, ?_, rfl, ?_⟩
  · rw [FieldType.readAvro, if_neg (by simp [Value.isAbsent]), Avro.toItems, Outcome.ok_bind, hread]
    rfl
  · rw [FieldType.encode, hcells]
    rfl

/-- What conforms to the Avro field of a column passes at its canonical field: both see to
the mode in the same way. -/
theorem passes_of_mode (c : Column) (hmap : type.isMap = false) (hserves : avro.Serves type)
    (h : (avroFieldOf c.name c.mode c.description avro).type.Conforms options value) :
    (withMode c.mode type).Passes options c.isNullable value := by
  obtain ⟨name, keyword, mode, fields, description⟩ := c
  -- only a repeated column changes the type; the rest of the modes decide on `null` alone
  have hplain : (withMode mode type = type ∧ mode ≠ some .repeated) ∨
      (withMode mode type = .array type false ∧ mode = some .repeated) := by
    by_cases hmode : mode = some .repeated
    · exact Or.inr ⟨if_pos ⟨hmode, by simp [hmap]⟩, hmode⟩
    · exact Or.inl ⟨if_neg fun hp => hmode hp.1, hmode⟩
  rcases hplain with ⟨hsame, hmode⟩ | ⟨harray, rfl⟩
  · rw [hsame]
    cases mode with
    | none =>
      rcases h with habsent | h
      · exact FieldType.passes_absent type habsent
      · exact (hserves options true value h).2
    | some mode =>
      cases mode with
      | repeated => exact absurd rfl hmode
      | nullable =>
        rcases h with habsent | h
        · exact FieldType.passes_absent type habsent
        · exact (hserves options true value h).2
      | required => exact (hserves options false value h).2
      | other => exact (hserves options false value h).2
  · rw [harray]
    exact passes_array hserves h

end Column

/-- Whether records that conform to the fields of an Avro schema are read as rows of fields,
and these have cells. -/
def AvroSchema.FieldsServe (avroFields : List AvroField) (fields : List Field) : Prop :=
  ∀ options record, FieldsConform options avroFields record →
    ∃ row cells, FieldType.readAvroFields options fields record = .ok row ∧
      row.length = fields.length ∧ FieldType.encodeFields fields row = .ok cells

/-- Records that serve the fields of a row serve the row. -/
theorem AvroSchema.serves_row {name : String} {space doc : Option String}
    {avroFields : List AvroField} {fields : List Field} (h : FieldsServe avroFields fields) :
    (AvroSchema.record name avroFields space doc).Serves (.row fields) := by
  rintro options nullable value ⟨hrecord, hfields⟩
  obtain ⟨row, cells, hread, hlength, hcells⟩ := h options value hfields
  have hpresent : value.isAbsent = false := by
    cases value with
    | null | missing => exact absurd hrecord (by decide)
    | _ => rfl
  refine ⟨hpresent, .list row, Value.ofAssignments cells, ?_, rfl, ?_⟩
  · rw [FieldType.readAvro, if_neg (by simp [hpresent]), if_pos hrecord, hread]
    rfl
  · rw [FieldType.encode, if_neg (Cell.isNull_of_present rfl), if_pos hlength, hcells]
    rfl

namespace Column

variable {space : Option String}

/-- Columns each of which has an Avro type that serves have Avro fields that serve. -/
theorem exists_avroFields {columns : List Column}
    (hcolumns : ∀ c ∈ columns, ∀ {type}, baseType { } c = .ok type →
      type.isMap = false ∧ ∃ avro, avroType space c = .ok avro ∧ avro.Serves type)
    {fields : List Field} (h : toFields { } columns = .ok fields) :
    ∃ avroFields, Column.avroFields space columns = .ok avroFields ∧
      AvroSchema.FieldsServe avroFields fields := by
  induction columns generalizing fields with
  | nil =>
    obtain rfl := Except.ok.inj h
    exact ⟨[], rfl, fun _ _ _ => ⟨[], [], rfl, rfl, rfl⟩⟩
  | cons c columns ih =>
    obtain ⟨type, others, htype, hothers, rfl⟩ := toFields_cons_eq_ok h
    obtain ⟨hmap, avro, havro, hserves⟩ := hcolumns c List.mem_cons_self htype
    obtain ⟨avroFields, havroFields, hfields⟩ :=
      ih (fun c hc => hcolumns c (List.mem_cons_of_mem _ hc)) hothers
    refine ⟨avroFieldOf c.name c.mode c.description avro :: avroFields, ?_, ?_⟩
    · rw [Column.avroFields, havro, havroFields]
      rfl
    · rintro options record ⟨⟨value, hvalue, hconforms⟩, hrest⟩
      obtain ⟨v, cell, hread, hv, hcell⟩ := passes_of_mode c hmap hserves hconforms
      obtain ⟨row, cells, hrow, hlength, hcells⟩ := hfields options record hrest
      refine ⟨v :: row, (c.name, cell) :: cells, ?_, by simp [hlength], ?_⟩
      · have hfirst : ((record.fieldOf c.name).bind
            (FieldType.readAvro options (withMode c.mode type) c.isNullable)).mapError
              (Failure.inField c.name) = .ok v := by
          rw [name_avroFieldOf] at hvalue
          rw [hvalue, Outcome.mapError_eq_ok]
          exact hread
        rw [FieldType.readAvroFields, hfirst, hrow]
        rfl
      · rw [FieldType.encodeFields, List.headD_cons, hv, hcell, List.drop_succ_cons, List.drop_zero,
          hcells]
        rfl

/-- A column with a canonical type has an Avro type, which serves it. -/
theorem exists_avroType {c : Column} {type : FieldType} (h : baseType { } c = .ok type) :
    type.isMap = false ∧ ∃ avro, avroType space c = .ok avro ∧ avro.Serves type := by
  induction c generalizing type with
  | leaf name keyword mode description =>
    rw [baseType] at h
    rw [avroType]
    split at h
    · obtain rfl := Except.ok.inj h
      rename_i hstruct
      rw [if_pos hstruct]
      exact ⟨rfl, _, rfl, AvroSchema.serves_row fun _ _ _ => ⟨[], [], rfl, rfl, rfl⟩⟩
    · rename_i hstruct
      rw [if_neg hstruct]
      exact exists_avroScalar h
  | nested name keyword mode columns description ih =>
    rw [baseType_nested] at h
    rw [avroType]
    split at h
    · rename_i hstruct
      obtain ⟨fields, hfields, h⟩ := Outcome.bind_eq_ok.mp h
      obtain ⟨created, hcreated, hrow⟩ := Outcome.bind_eq_ok.mp h
      obtain ⟨rfl, _⟩ := Schema.create_eq_ok.mp hcreated
      obtain rfl := Except.ok.inj hrow
      obtain ⟨avroFields, havroFields, hserve⟩ := exists_avroFields (fun c hc _ => ih c hc) hfields
      rw [if_pos hstruct, havroFields]
      exact ⟨rfl, _, rfl, AvroSchema.serves_row hserve⟩
    · rename_i hstruct
      rw [if_neg hstruct]
      exact exists_avroScalar h

end Column

/-! ## The pipeline -/

/-- A table whose columns have a canonical schema has an Avro schema, and every record that
conforms to it is read as a row of the canonical schema and written to a table row. -/
theorem TableSchema.exists_toAvro {columns : TableSchema} {schema : Schema}
    (h : columns.toSchema { } = .ok schema) (name : String) (space doc : Option String) :
    ∃ avro, columns.toAvro name space doc = .ok avro ∧
      ∀ options record, avro.Conforms options record →
        (∃ row, Row.ofAvro options schema record = .ok row) ∧
        ∃ tableRow, Row.avroToTableRow options columns record = .ok tableRow := by
  have hschema := h
  obtain ⟨fields, hfields, hcreated⟩ := Outcome.bind_eq_ok.mp h
  obtain ⟨rfl, _⟩ := Schema.create_eq_ok.mp hcreated
  obtain ⟨avroFields, havroFields, hserve⟩ := @Column.exists_avroFields space columns
    (fun _ _ _ htype => Column.exists_avroType htype) _ hfields
  refine ⟨.record name avroFields (ConversionError.present? space) (ConversionError.present? doc),
    ?_, ?_⟩
  · rw [TableSchema.toAvro, havroFields]
    rfl
  · rintro options record ⟨_, hconforms⟩
    obtain ⟨row, cells, hread, hlength, hcells⟩ := hserve options record hconforms
    have hwritten : row.toTableRow schema = .ok (Value.ofAssignments cells) := by
      rw [Row.toTableRow, if_pos hlength, hcells]
      rfl
    refine ⟨⟨row, hread⟩, Value.ofAssignments cells, ?_⟩
    have hstage : (RowStage.readAvro options schema).thenTableRow schema record =
        .ok (Value.ofAssignments cells) := by
      rw [RowStage.thenTableRow, RowStage.readAvro, Row.ofAvro, hread]
      exact hwritten
    rw [Row.avroToTableRow, RowStage.avroToTableRow, hschema]
    exact hstage

/-- A number and a list of texts, with an instant that is missing. -/
theorem TableSchema.exists_toAvro_tags :
    ∃ schema, TableSchema.toSchema { } [⟨"id", some "INT64", some .required, none, none⟩,
        ⟨"tags", some "STRING", some .repeated, none, none⟩,
        ⟨"at", some "TIMESTAMP", none, none, none⟩] = .ok schema ∧
      (∃ row, Row.ofAvro { } schema
        (.record [("id", .integer 7), ("tags", .list [.string "x"]), ("at", .null)]) =
          .ok row) ∧
      ∃ tableRow, Row.avroToTableRow { } [⟨"id", some "INT64", some .required, none, none⟩,
        ⟨"tags", some "STRING", some .repeated, none, none⟩,
        ⟨"at", some "TIMESTAMP", none, none, none⟩]
        (.record [("id", .integer 7), ("tags", .list [.string "x"]), ("at", .null)]) =
          .ok tableRow := by
  obtain ⟨schema, hschema⟩ : ∃ schema, TableSchema.toSchema { }
      [⟨"id", some "INT64", some .required, none, none⟩,
        ⟨"tags", some "STRING", some .repeated, none, none⟩,
        ⟨"at", some "TIMESTAMP", none, none, none⟩] = .ok schema := ⟨_, rfl⟩
  obtain ⟨avro, havro, hserves⟩ := exists_toAvro hschema "t" none none
  obtain rfl := Except.ok.inj havro
  refine ⟨schema, hschema, hserves { } _ ?_⟩
  have htags : ∀ item ∈ [Value.string "x"], ∃ s, item = .string s := by simp
  exact ⟨rfl, ⟨.integer 7, rfl, 7, Or.inl rfl, by decide⟩,
    ⟨.list [.string "x"], rfl, _, rfl, htags⟩, ⟨.null, rfl, Or.inl rfl⟩, trivial⟩

end WarehouseRows

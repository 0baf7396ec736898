import WarehouseRows.Row.Encode
import WarehouseRows.Row.Parse
import WarehouseRows.Proofs.Members
import WarehouseRows.Proofs.Outcome

/-!
# Cells and table rows

The cell of a scalar is a text, that of an array or a map a list, and that of a row a
record; only a row has a cell that is an object. A cell that is absent or holds a scalar is
read without a look at its parts. A table row holds the cell of every field under its name,
if the names are apart and none is the reserved one.

## Main definitions

* `Schema.NamesApart`: what a schema asks of the names of its fields.
-/

namespace WarehouseRows

/-- Whether the names of fields are distinct and none is the reserved one. -/
def Schema.NamesApart (fields : List Field) : Prop :=
  (fields.map Named.name).Nodup ∧ Members.reservedName ∉ fields.map Named.name

/-! ## Present values -/

theorem Value.orNull_of_present {v : Value} (h : v.isAbsent = false) : v.orNull = v := by
  cases v with
  | missing => exact absurd h (by simp [Value.isAbsent])
  | _ => rfl

theorem Cell.isNull_of_present {v : Value} (h : v.isAbsent = false) :
    ¬ Cell.isNull v = true := by
  cases v with
  | null => exact absurd h (by simp [Value.isAbsent])
  | _ => exact Bool.false_ne_true

/-! ## Cells of scalars -/

namespace Cell

theorem ofNull_eq_ok {type : FieldType} {nullable : Bool} {cell : Value}
    (h : ofNull type nullable = .ok cell) : nullable = true ∧ cell = .null := by
  rw [ofNull] at h
  split at h
  · rename_i hn
    exact ⟨hn, (Except.ok.inj h).symm⟩
  · exact absurd h (by simp)

theorem written_eq_ok {value cell : Value} (h : written value = .ok cell) :
    ∃ s, cell = .string s := by
  obtain ⟨s, _, rfl⟩ := Outcome.map_eq_ok.mp h
  exact ⟨s, rfl⟩

theorem ofSort_eq_ok {sort : Archetype} {format : Value → Except Failure String}
    {type : FieldType} {value cell : Value} (h : ofSort sort format type value = .ok cell) :
    ∃ s, cell = .string s := by
  rw [ofSort] at h
  split at h
  · obtain ⟨s, _, rfl⟩ := Outcome.map_eq_ok.mp h
    exact ⟨s, rfl⟩
  · exact absurd h (by simp)

/-- The cell of a primitive kind is a text. -/
theorem ofPrimitive_eq_ok {kind : PrimitiveKind} {value cell : Value}
    (h : ofPrimitive kind value = .ok cell) : ∃ s, cell = .string s := by
  rw [ofPrimitive.eq_def] at h
  split at h
  · exact ofSort_eq_ok h
  · exact ofSort_eq_ok h
  · exact ⟨_, (Except.ok.inj h).symm⟩
  · obtain ⟨s, _, rfl⟩ := Outcome.map_eq_ok.mp h
    exact ⟨s, rfl⟩
  · exact written_eq_ok h

theorem ofOrdinal_eq_ok {type : FieldType} {labels : Option (List String)} {value cell : Value}
    (h : ofOrdinal type labels value = .ok cell) : ∃ s, cell = .string s := by
  rw [ofOrdinal] at h
  split at h
  · exact ⟨_, (Except.ok.inj h).symm⟩
  · obtain ⟨s, _, h⟩ := Outcome.bind_eq_ok.mp h
    exact absurd h (by simp)

/-- The cell of a logical type is a text. -/
theorem ofLogical_eq_ok {type : FieldType} {representation : Representation}
    {labels : Option (List String)} {value cell : Value}
    (h : ofLogical type representation labels value = .ok cell) : ∃ s, cell = .string s := by
  cases representation with
  | date | time | datetime => exact ofSort_eq_ok h
  | enumeration => exact ofOrdinal_eq_ok h
  | timeWithLocalTz | passThrough | custom => exact written_eq_ok h
  | unknown => exact absurd h (by simp [ofLogical])

end Cell

namespace FieldType

/-! ## Cells of any type -/

theorem encode_null (type : FieldType) (nullable : Bool) :
    encode type nullable .null = Cell.ofNull type nullable := by
  rw [encode.eq_def]
  rfl

/-- The cell of an array holds the cells of its items. -/
theorem encode_array_eq_ok {element : FieldType} {elementNullable nullable : Bool}
    {value cell : Value} (h : encode (.array element elementNullable) nullable value = .ok cell) :
    (value = .null ∧ nullable = true ∧ cell = .null) ∨
      ∃ items cells, value = .list items ∧
        items.mapM (fun item => encode element elementNullable item) = .ok cells ∧
        cell = .list cells := by
  cases value with
  | null => exact Or.inl ⟨rfl, Cell.ofNull_eq_ok (encode_null _ _ ▸ h)⟩
  | list items =>
    obtain ⟨cells, hcells, h⟩ := Outcome.bind_eq_ok.mp h
    exact Or.inr ⟨items, cells, rfl, hcells, (Except.ok.inj h).symm⟩
  | _ => exact absurd h (by simp [encode, Cell.isNull])

/-- The cell of a map holds a record with the cells of the key and of the value for each
entry. -/
theorem encode_map_eq_ok {keyType valueType : FieldType} {valueNullable nullable : Bool}
    {value cell : Value}
    (h : encode (.map keyType valueType valueNullable) nullable value = .ok cell) :
    (value = .null ∧ nullable = true ∧ cell = .null) ∨
      ∃ entries cells, value = .map entries ∧
        entries.mapM (fun e => do
          let key ← encode keyType false e.1
          let cell ← encode valueType valueNullable e.2
          pure (Cell.entry key cell)) = .ok cells ∧
        cell = .list cells := by
  cases value with
  | null => exact Or.inl ⟨rfl, Cell.ofNull_eq_ok (encode_null _ _ ▸ h)⟩
  | map entries =>
    obtain ⟨cells, hcells, h⟩ := Outcome.bind_eq_ok.mp h
    exact Or.inr ⟨entries, cells, rfl, hcells, (Except.ok.inj h).symm⟩
  | _ => exact absurd h (by simp [encode, Cell.isNull])

/-- The cell of a row holds the cells of its fields. -/
theorem encode_row_eq_ok {fields : List Field} {nullable : Bool} {value cell : Value}
    (h : encode (.row fields) nullable value = .ok cell) :
    (value = .null ∧ nullable = true ∧ cell = .null) ∨
      ∃ items cells, value = .list items ∧ encodeFields fields items = .ok cells ∧
        cell = Value.ofAssignments cells := by
  cases value with
  | null => exact Or.inl ⟨rfl, Cell.ofNull_eq_ok (encode_null _ _ ▸ h)⟩
  | list items =>
    have hpresent : ¬ Cell.isNull (.list items) = true := Bool.false_ne_true
    rw [encode, if_neg hpresent] at h
    split at h
    · obtain ⟨cells, hcells, h⟩ := Outcome.bind_eq_ok.mp h
      exact Or.inr ⟨items, cells, rfl, hcells, (Except.ok.inj h).symm⟩
    · exact absurd h (by simp)
  | _ => exact absurd h (by simp [encode, Cell.isNull])

theorem exists_cells_of_encode_row {fields : List Field} {nullable : Bool} {items : Row}
    {cell : Value} (h : encode (.row fields) nullable (.list items) = .ok cell) :
    ∃ cells, encodeFields fields items = .ok cells ∧ cell = Value.ofAssignments cells := by
  obtain ⟨hnull, _⟩ | ⟨items', cells, hsame, hcells, hcell⟩ := encode_row_eq_ok h
  · exact absurd hnull (by simp)
  · obtain rfl := Value.list.inj hsame
    exact ⟨cells, hcells, hcell⟩

/-- Apart from rows, no type has a cell that is an object. -/
theorem isObject_of_encode {type : FieldType} {nullable : Bool} {value cell : Value}
    (hrow : ∀ fields, type ≠ .row fields) (h : encode type nullable value = .ok cell) :
    cell.isObject = false := by
  cases type with
  | row fields => exact absurd rfl (hrow fields)
  | array element elementNullable =>
    obtain ⟨_, _, rfl⟩ | ⟨items, cells, _, _, rfl⟩ := encode_array_eq_ok h <;> rfl
  | map keyType valueType valueNullable =>
    obtain ⟨_, _, rfl⟩ | ⟨entries, cells, _, _, rfl⟩ := encode_map_eq_ok h <;> rfl
  | primitive kind =>
    rw [encode] at h
    split at h
    · obtain ⟨_, rfl⟩ := Cell.ofNull_eq_ok h
      rfl
    · obtain ⟨s, rfl⟩ := Cell.ofPrimitive_eq_ok h
      rfl
  | logical identifier base representation labels =>
    rw [encode] at h
    split at h
    · obtain ⟨_, rfl⟩ := Cell.ofNull_eq_ok h
      rfl
    · obtain ⟨s, rfl⟩ := Cell.ofLogical_eq_ok h
      rfl
  | unknown kind =>
    rw [encode] at h
    split at h
    · obtain ⟨_, rfl⟩ := Cell.ofNull_eq_ok h
      rfl
    · exact absurd h (by simp)

/-! ## Table rows -/

theorem encodeFields_cons_eq_ok {f : Field} {fields : List Field} {row : Row}
    {cells : List (String × Value)} (h : encodeFields (f :: fields) row = .ok cells) :
    ∃ cell others, encode f.type f.nullable (row.headD .missing).orNull = .ok cell ∧
      encodeFields fields (row.drop 1) = .ok others ∧ cells = (f.name, cell) :: others := by
  rw [encodeFields] at h
  obtain ⟨cell, hcell, h⟩ := Outcome.bind_eq_ok.mp h
  obtain ⟨others, hothers, h⟩ := Outcome.bind_eq_ok.mp h
  exact ⟨cell, others, Outcome.mapError_eq_ok.mp hcell, hothers, (Except.ok.inj h).symm⟩

/-- The cells stand under the names of the fields, in order. -/
theorem names_of_encodeFields {fields : List Field} {row : Row} {cells : List (String × Value)}
    (h : encodeFields fields row = .ok cells) :
    cells.map Prod.fst = fields.map Named.name := by
  induction fields generalizing row cells with
  | nil =>
    obtain rfl := Except.ok.inj h
    rfl
  | cons f fields ih =>
    obtain ⟨cell, others, _, hothers, rfl⟩ := encodeFields_cons_eq_ok h
    rw [List.map_cons, List.map_cons, ih hothers]

/-- The cells of a row are refused with a conversion error only. -/
theorem encodeFields_eq_error {fields : List Field} {row : Row} {e : Failure}
    (h : encodeFields fields row = .error e) : ∃ c, e = .conversion c := by
  induction fields generalizing row with
  | nil => exact absurd (show Except.ok [] = .error e from h) (by simp)
  | cons f fields ih =>
    rw [encodeFields] at h
    rcases Outcome.bind_eq_error.mp h with h | ⟨cell, _, h⟩
    · obtain ⟨e', _, rfl⟩ := Outcome.mapError_eq_error.mp h
      exact ⟨_, rfl⟩
    · rcases Outcome.bind_eq_error.mp h with h | ⟨others, _, h⟩
      · exact ih h
      · exact absurd (show Except.ok ((f.name, cell) :: others) = .error e from h) (by simp)

/-! ## Reading cells -/

theorem parse_absent {value : Value} (type : FieldType) (nullable : Bool)
    (h : value.isAbsent = true) : parse type nullable value = Cell.parseMissing type nullable := by
  rw [parse.eq_def, if_pos h]

theorem parse_scalar {value : Value} {text : String} (type : FieldType) (nullable : Bool)
    (h : value.isAbsent = false) (htext : Cell.scalarText? value = some text) :
    parse type nullable value = Cell.parseText type nullable value text := by
  rw [parse.eq_def, if_neg (by simp [h])]
  simp only [htext]

/-- A list is read as an array item by item. -/
theorem parse_array_list (element : FieldType) (elementNullable nullable : Bool)
    (items : List Value) :
    parse (.array element elementNullable) nullable (.list items) =
      (items.mapM fun item =>
        parse element elementNullable (Cell.unwrapElement element item)).map .list := by
  rw [parse.eq_def]
  rfl

/-- A list is read as a map entry by entry. -/
theorem parse_map_list (keyType valueType : FieldType) (valueNullable nullable : Bool)
    (items : List Value) :
    parse (.map keyType valueType valueNullable) nullable (.list items) =
      (Value.readEntries (Cell.splitEntry (.map keyType valueType valueNullable))
        (parse keyType false) (parse valueType valueNullable)
        (Value.duplicateKey (.map keyType valueType valueNullable)) [] items).map .map := by
  rw [parse.eq_def]
  rfl

end FieldType

/-! ## Records of cells -/

/-- The cells of fields whose names are apart make up a record. -/
theorem Value.ofAssignments_cells {fields : List Field} {cells : List (String × Value)}
    (happart : Schema.NamesApart fields) (h : cells.map Prod.fst = fields.map Named.name) :
    Value.ofAssignments cells = .record (Members.ofPairs cells) :=
  Value.ofAssignments_eq (h ▸ happart.2)

/-- The record answers to each name with the cell of the field. -/
theorem Value.fieldOf_cells {fields : List Field} {cells : List (String × Value)}
    (happart : Schema.NamesApart fields) (h : cells.map Prod.fst = fields.map Named.name)
    {name : String} {cell : Value} (hmem : (name, cell) ∈ cells) :
    (Value.ofAssignments cells).fieldOf name = .ok cell := by
  rw [Value.ofAssignments_cells happart h]
  exact Value.fieldOf_record (Members.get?_insertAll (h ▸ happart.1) hmem [])

/-- The table row of a row whose names are apart is read field by field. -/
theorem FieldType.parse_row {fields : List Field} {items : Row} {cells : List (String × Value)}
    (nullable : Bool) (happart : Schema.NamesApart fields)
    (hcells : encodeFields fields items = .ok cells) :
    parse (.row fields) nullable (Value.ofAssignments cells) =
      (parseFields fields (Value.ofAssignments cells)).map .list := by
  rw [Value.ofAssignments_cells happart (names_of_encodeFields hcells), parse]
  rfl

namespace Row

/-- A table row is the cell of the row. -/
theorem toTableRow_eq_encode (row : Row) (schema : Schema) :
    row.toTableRow schema = FieldType.encode (.row schema) false (.list row) := by
  rw [FieldType.encode, if_neg (Cell.isNull_of_present rfl)]
  rfl

/-- A row is refused with a conversion error only. -/
theorem toTableRow_eq_error {row : Row} {schema : Schema} {e : Failure}
    (h : row.toTableRow schema = .error e) : ∃ c, e = .conversion c := by
  rw [toTableRow] at h
  split at h
  · rcases Outcome.bind_eq_error.mp h with h | ⟨cells, _, h⟩
    · exact FieldType.encodeFields_eq_error h
    · exact absurd (show Except.ok (Value.ofAssignments cells) = .error e from h) (by simp)
  · exact ⟨_, (Except.error.inj h).symm⟩

end Row

end WarehouseRows

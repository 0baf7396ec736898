import WarehouseRows.Proofs.KeptItems

/-!
# Rows read back from table rows

A row that is written to a table row and read back is the same row, if its scalars are
exact and the schema is one whose cells keep what they hold. Two things get lost in cells:
a name that two fields share, and the record around the only field of a row, when the field
has the name of wrapped cells and is itself a row.

## Main definitions

* `FieldType.IsReversible`: the types whose values are read back.
* `FieldType.FieldsReversible`: the same of the fields of a schema.
-/

namespace WarehouseRows

namespace FieldType

mutual

/-- Whether the values of a type are read back from their cells. -/
def IsReversible (type : FieldType) : Prop :=
  match type with
  | .primitive kind => kind ≠ .float32 ∧ kind ≠ .float64
  | .array element _ => IsReversible element ∧ ¬ WrapsRow element
  | .map key value _ => IsReversible key ∧ IsReversible value
  | .row fields => Schema.NamesApart fields ∧ FieldsReversible fields
  | .logical _ _ representation labels =>
    representation = .date ∨ representation = .time ∨ representation = .datetime ∨
      (representation = .enumeration ∧ (labels.getD []).Nodup)
  | .unknown _ => False

/-- Whether the values of all fields are read back from their cells. -/
def FieldsReversible (fields : List Field) : Prop :=
  match fields with
  | [] => True
  | f :: rest => IsReversible f.type ∧ FieldsReversible rest

end

theorem isReversible_of_mem {fields : List Field} (h : FieldsReversible fields) {f : Field}
    (hf : f ∈ fields) : f.type.IsReversible := by
  induction fields with
  | nil => exact absurd hf List.not_mem_nil
  | cons first rest ih =>
    rw [FieldsReversible] at h
    rcases List.mem_cons.mp hf with rfl | hf
    · exact h.1
    · exact ih h.2 hf

/-! ## Values of reversible types -/

theorem allTextual_of_fieldsReversible {fields : List Field}
    (hfields : ∀ f ∈ fields, f.type.IsReversible → f.type.IsTextual)
    (h : FieldsReversible fields) : AllTextual fields := by
  induction fields with
  | nil => exact trivial
  | cons f fields ih =>
    rw [FieldsReversible] at h
    exact ⟨hfields f List.mem_cons_self h.1,
      ih (fun f hf => hfields f (List.mem_cons_of_mem _ hf)) h.2⟩

theorem isTextual_of_isReversible {type : FieldType} (h : type.IsReversible) :
    type.IsTextual := by
  induction type with
  | array element elementNullable ih =>
    rw [IsReversible] at h
    exact ih h.1
  | map keyType valueType valueNullable ihKey ihValue =>
    rw [IsReversible] at h
    exact ⟨ihKey h.1, ihValue h.2⟩
  | row fields ih =>
    rw [IsReversible] at h
    exact ⟨h.1, allTextual_of_fieldsReversible ih h.2⟩
  | primitive | logical | unknown =>
    rw [IsReversible] at h
    exact h

/-- Where no element is a row that can look like a wrapped cell, no item does. -/
theorem keepsItems_of_isReversible {type : FieldType} {value : Value} (h : type.IsReversible) :
    type.KeepsItems value := by
  induction type generalizing value with
  | array element elementNullable ih =>
    rw [IsReversible] at h
    exact fun items _ item _ => ⟨fun hmistaken => h.2 hmistaken.1, ih h.1⟩
  | map keyType valueType valueNullable ihKey ihValue =>
    rw [IsReversible] at h
    exact fun entries _ e _ => ⟨ihKey h.1, ihValue h.2⟩
  | row fields ih =>
    rw [IsReversible] at h
    refine fun items _ => rowKeepsItems_iff.mpr fun p hp => ?_
    have hf := (List.of_mem_zip hp).1
    exact ih p.1 hf (isReversible_of_mem h.2 hf)
  | primitive | logical | unknown => exact trivial

/-- Every value of a reversible type returns. -/
theorem returns_of_inhabits {type : FieldType} {value : Value} {nullable : Bool}
    (hrev : type.IsReversible) (h : type.Inhabits IsExact value) :
    Returns type nullable value :=
  returns_of_keepsItems (isTextual_of_isReversible hrev) h (keepsItems_of_isReversible hrev)

theorem exists_cells {fields : List Field} {row : Row}
    (hfields : ∀ f ∈ fields, ∀ value nullable, f.type.Inhabits IsExact value →
      Returns f.type nullable value)
    (h : RowInhabits IsExact fields row) :
    row.length = fields.length ∧ ∃ cells, encodeFields fields row = .ok cells ∧
      ∀ tableRow : Value, (∀ p ∈ cells, tableRow.fieldOf p.1 = .ok p.2) →
        parseFields fields tableRow = .ok (row.map Value.plain) := by
  have hreturns := rowReturns_of_inhabits h fun p hp =>
    returns_orNull (hfields p.1 (List.of_mem_zip hp).1 p.2 p.1.nullable)
  exact ⟨hreturns.1, exists_cells_of_returns hreturns⟩

end FieldType

/-! ## Rows read back -/

/-- A row of exact scalars is written to a table row, and what is read from the table row is
the row, up to the signs of zeros inside decimals, dates and times: the same row. -/
theorem Row.ofTableRow_toTableRow {schema : Schema} {row : Row}
    (hschema : (FieldType.row schema).IsReversible)
    (hrow : FieldType.RowInhabits FieldType.IsExact schema row) :
    ∃ tableRow, row.toTableRow schema = .ok tableRow ∧
      Row.ofTableRow schema tableRow = .ok (row.map Value.plain) ∧
      Value.SameItems (row.map Value.plain) row := by
  rw [FieldType.IsReversible] at hschema
  obtain ⟨happart, hfields⟩ := hschema
  obtain ⟨hlength, cells, hcells, hback⟩ := FieldType.exists_cells
    (fun f hf _ _ => FieldType.returns_of_inhabits (FieldType.isReversible_of_mem hfields hf)) hrow
  have hnames := FieldType.names_of_encodeFields hcells
  refine ⟨Value.ofAssignments cells, ?_, ?_, ?_⟩
  · rw [Row.toTableRow, if_pos hlength, hcells]
    rfl
  · exact hback (Value.ofAssignments cells) fun p hp => Value.fieldOf_cells happart hnames hp
  · exact FieldType.sameItems_row (fun _ _ _ => FieldType.same_plain) hrow

/-- A number and a list of dates, one of them missing. -/
theorem Row.ofTableRow_toTableRow_dates :
    ∃ tableRow,
      Row.toTableRow [.number (Double.ofInt (-12)),
          .list [.date (.on (.ofInt 2020) 2 29), .null]]
        [⟨"small", .primitive .byte, false, none⟩, ⟨"days", .array .date true, false, none⟩] =
          .ok tableRow ∧
      Row.ofTableRow
        [⟨"small", .primitive .byte, false, none⟩, ⟨"days", .array .date true, false, none⟩]
        tableRow = .ok [.number (Double.ofInt (-12)),
          .list [.date (.on (.ofInt 2020) 2 29), .null]] := by
  have hschema : (FieldType.row [⟨"small", .primitive .byte, false, none⟩,
      ⟨"days", .array .date true, false, none⟩]).IsReversible := by
    simp [FieldType.IsReversible, FieldType.FieldsReversible, FieldType.WrapsRow,
      Schema.NamesApart, Members.reservedName, FieldType.date]
  have hrow : FieldType.RowInhabits FieldType.IsExact
      [⟨"small", .primitive .byte, false, none⟩, ⟨"days", .array .date true, false, none⟩]
      [.number (Double.ofInt (-12)), .list [.date (.on (.ofInt 2020) 2 29), .null]] := by
    refine ⟨Or.inr ⟨-12, rfl, by decide⟩, Or.inr ⟨_, rfl, ?_⟩, trivial⟩
    intro item hitem
    simp only [List.mem_cons, List.not_mem_nil, or_false] at hitem
    rcases hitem with rfl | rfl
    · exact Or.inr ⟨_, rfl, (by decide : LocalDate.isReal 2020 2 29 = true)⟩
    · exact Or.inl ⟨rfl, rfl⟩
  obtain ⟨tableRow, hwritten, hread, _⟩ := Row.ofTableRow_toTableRow hschema hrow
  exact ⟨tableRow, hwritten, hread⟩

/-- What the bounds of exact scalars leave out: a decimal of scale a thousand million has no
text that fits. And the minus sign of the year zero is not written, so that the date comes
back without it. -/
theorem Row.toTableRow_limits :
    ((FieldType.row [⟨"a", .primitive .decimal, false, none⟩]).IsReversible ∧
      (0 : Int) ≤ (Whole.ofInt 1000000000).toInt ∧
      Row.toTableRow [.decimal ⟨1, .places (.ofInt 1000000000)⟩]
        [⟨"a", .primitive .decimal, false, none⟩] =
          .error (Failure.inField "a" Decimal.tooLong)) ∧
    ∃ tableRow, Row.toTableRow [.date (.on .negZero 1 1)] [⟨"d", .date, false, none⟩] =
        .ok tableRow ∧
      Row.ofTableRow [⟨"d", .date, false, none⟩] tableRow =
        .ok [.date (.on (.ofInt 0) 1 1)] := by
  refine ⟨⟨?_, by decide, rfl⟩, .record [("d", .string "0000-01-01")], rfl, rfl⟩
  simp [FieldType.IsReversible, FieldType.FieldsReversible, Schema.NamesApart,
    Members.reservedName]

end WarehouseRows

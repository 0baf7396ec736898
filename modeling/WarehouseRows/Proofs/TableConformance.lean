import WarehouseRows.Proofs.Columns
import WarehouseRows.Proofs.TableRows
import WarehouseRows.Proofs.Typing

/-!
# Table rows conform to the columns of their schema

The columns of a schema and the table rows of its rows come from two walks over the types,
and each decides by itself what is repeated, what is a struct and what may be missing. They
agree: what is written for a row conforms to the columns, whatever the scalars in it are.
Two kinds of types are left aside, for which they do not: arrays of maps, and logical types
that pass through to an array or a row. So are missing arrays and maps and missing items of
arrays, which columns have no way to tell of.

## Main definitions

* `Column.Holds`: the cells of a column.
* `FieldType.IsTabular`, `FieldType.IsFilled`: the types and the values that are not left
  aside.
-/

namespace WarehouseRows

/-! ## Cells of columns -/

namespace Column

/-- Whether a cell is what a mode makes of a property of values: a repeated column has a
list of them, one without a mode may have `null`. -/
def ModeHolds (mode : Option Mode) (P : Value → Prop) (cell : Value) : Prop :=
  match mode with
  | some .repeated => ∃ items, cell = .list items ∧ ∀ item ∈ items, P item
  | none => cell = .null ∨ P cell
  | some _ => P cell

mutual

/-- Whether a value is one of the keyword of a column, its mode aside: a struct keyword has
records of the nested columns, any other has texts. -/
def Stores (c : Column) (value : Value) : Prop :=
  match c with
  | ⟨_, keyword, _, some columns, _⟩ =>
    if isStruct keyword then
      ∃ members, value = .record members ∧
        (Members.names members).Perm (columns.map Column.name) ∧ AllHold columns members
    else ∃ s, value = .string s
  | ⟨_, keyword, _, none, _⟩ =>
    if isStruct keyword then value = .record [] else ∃ s, value = .string s

/-- Whether members have a cell of each column under its name. -/
def AllHold (columns : List Column) (members : Members Value) : Prop :=
  match columns with
  | [] => True
  | c :: rest =>
    (∃ cell, Members.get? members c.name = some cell ∧ ModeHolds c.mode (Stores c) cell) ∧
      AllHold rest members

end

/-- Whether a cell conforms to a column. -/
def Holds (c : Column) (cell : Value) : Prop :=
  ModeHolds c.mode (Stores c) cell

theorem modeHolds_of_holds {mode : Option Mode} {P : Value → Prop} {cell : Value}
    (hmode : mode ≠ some .repeated) (h : P cell) : ModeHolds mode P cell := by
  cases mode with
  | none => exact Or.inr h
  | some mode =>
    cases mode with
    | repeated => exact absurd rfl hmode
    | _ => exact h

/-- The mode of a column does not matter to what its keyword stores. -/
theorem stores_withMode (c : Column) (mode : Option Mode) (value : Value) :
    Stores { c with mode := mode } value ↔ Stores c value := by
  obtain ⟨name, keyword, _, fields, description⟩ := c
  cases fields <;> rfl

end Column

/-- Whether a table row has exactly the columns of a table, each with a cell of its own. -/
def TableSchema.Describes (columns : TableSchema) (tableRow : Value) : Prop :=
  ∃ members, tableRow = .record members ∧
    (Members.names members).Perm (columns.map Column.name) ∧ Column.AllHold columns members

/-! ## Types and values with columns that tell of them -/

namespace FieldType

/-- Whether a type is an array or a row, or passes through to one. -/
def IsNested : FieldType → Prop
  | .array .. | .row _ => True
  | .logical _ base representation _ => representation = .passThrough ∧ IsNested base
  | .unknown kind => kind = "array" ∨ kind = "row"
  | .primitive _ | .map .. => False

mutual

/-- Whether nothing in a type is an array of maps or a logical type that passes through to
an array or a row, and the names in every row are apart. -/
def IsTabular (type : FieldType) : Prop :=
  match type with
  | .array element _ => element.isMap = false ∧ IsTabular element
  | .map key value _ => IsTabular key ∧ IsTabular value
  | .row fields => Schema.NamesApart fields ∧ AllTabular fields
  | .logical identifier base representation labels =>
    ¬ (FieldType.logical identifier base representation labels).IsNested
  | .primitive _ | .unknown _ => True

/-- Whether the type of each field is such a type. -/
def AllTabular (fields : List Field) : Prop :=
  match fields with
  | [] => True
  | f :: rest => IsTabular f.type ∧ AllTabular rest

end

mutual

/-- Whether no array or map in a value is missing, and no item of an array. -/
def IsFilled (type : FieldType) (value : Value) : Prop :=
  match type with
  | .array element _ =>
    value ≠ .null ∧
      ∀ items, value = .list items → ∀ item ∈ items, item ≠ .null ∧ IsFilled element item
  | .map keyType valueType _ =>
    value ≠ .null ∧
      ∀ entries, value = .map entries → ∀ e ∈ entries, IsFilled keyType e.1 ∧ IsFilled valueType e.2
  | .row fields => ∀ items, value = .list items → RowFilled fields items
  | .primitive _ | .logical .. | .unknown _ => True

/-- Whether no array or map in a row is missing, and no item of an array. -/
def RowFilled (fields : List Field) (row : Row) : Prop :=
  match fields with
  | [] => True
  | f :: rest => IsFilled f.type (row.headD .missing).orNull ∧ RowFilled rest (row.drop 1)

end

/-! ## Keywords -/

/-- A type that neither is nor passes through to an array or a row has no struct keyword. -/
theorem isStruct_of_keyword {type : FieldType} (hnested : ¬ type.IsNested) {k : String}
    (h : type.keyword = .ok k) : Column.isStruct (some k) = false := by
  induction type with
  | primitive kind =>
    cases kind <;> exact Except.ok.inj h ▸ rfl
  | array element elementNullable => exact absurd trivial hnested
  | map key value valueNullable => exact absurd h (by simp [keyword])
  | row fields => exact absurd trivial hnested
  | logical identifier base representation labels ih =>
    rw [keyword] at h
    split at h
    · rename_i found hfound
      obtain rfl := Except.ok.inj h
      have hplain : ∀ p ∈ Keyword.logicals, Column.isStruct (some p.2) = false := by decide
      exact hplain _ (Keyword.mem_of_lookup hfound)
    · split at h
      · rename_i hpass
        exact ih (fun hbase => hnested ⟨hpass, hbase⟩) h
      · exact absurd h (by simp)
  | unknown kind =>
    rw [keyword, keywordOfKind] at h
    split at h
    · rename_i found hfound
      obtain rfl := Except.ok.inj h
      have hkinds : ∀ p ∈ Keyword.kinds,
          p.1 = "array" ∨ p.1 = "row" ∨ Column.isStruct (some p.2) = false := by decide
      rcases hkinds _ (Keyword.mem_of_lookup hfound) with harray | hrow | hplain
      · exact absurd (Or.inl harray) hnested
      · exact absurd (Or.inr hrow) hnested
      · exact hplain
    · exact absurd h (by simp)

/-! ## Columns of types -/

theorem plainColumn_eq_ok {name : String} {type : FieldType} {mode : Option Column.Mode}
    {description : Option String} {c : Column}
    (h : Field.plainColumn name type mode description = .ok c) :
    ∃ k, type.keyword = .ok k ∧ c = ⟨name, some k, mode, none, description⟩ := by
  rw [Field.plainColumn] at h
  split at h
  · rename_i k hk
    exact ⟨k, hk, (Except.ok.inj h).symm⟩
  · exact absurd h (by simp)

theorem toColumn_row_eq_ok {name : String} {nullable : Bool} {description : Option String}
    {fields : List Field} {c : Column}
    (h : toColumn name nullable description (.row fields) = .ok c) :
    ∃ columns, toColumns fields = .ok columns ∧
      c = ⟨name, some "STRUCT", Field.mode nullable, some columns, description⟩ := by
  obtain ⟨columns, hcolumns, h⟩ := Outcome.bind_eq_ok.mp h
  exact ⟨columns, hcolumns, (Except.ok.inj h).symm⟩

theorem toColumn_map_eq_ok {name : String} {nullable : Bool} {description : Option String}
    {key value : FieldType} {valueNullable : Bool} {c : Column}
    (h : toColumn name nullable description (.map key value valueNullable) = .ok c) :
    ∃ keyColumn valueColumn, toColumn MapEntry.keyName false none key = .ok keyColumn ∧
      toColumn MapEntry.valueName valueNullable none value = .ok valueColumn ∧
      c = ⟨name, some "STRUCT", some .repeated, some [keyColumn, valueColumn], description⟩ := by
  obtain ⟨keyColumn, hkey, h⟩ := Outcome.bind_eq_ok.mp h
  obtain ⟨valueColumn, hvalue, h⟩ := Outcome.bind_eq_ok.mp h
  exact ⟨keyColumn, valueColumn, hkey, hvalue, (Except.ok.inj h).symm⟩

/-- A repeated column without columns inside is a required one, but repeated. -/
theorem plainColumn_repeated {name : String} {type : FieldType} {description : Option String}
    {c : Column} (h : Field.plainColumn name type (some .repeated) description = .ok c) :
    ∃ e, Field.plainColumn name type (Field.mode false) description = .ok e ∧
      e.mode = some .required ∧ c = { e with mode := some .repeated } := by
  obtain ⟨k, hk, rfl⟩ := plainColumn_eq_ok h
  refine ⟨⟨name, some k, some .required, none, description⟩, ?_, rfl, rfl⟩
  simp only [Field.plainColumn, hk]
  rfl

/-- The column of an array is that of its element, but repeated. -/
theorem toColumn_array_eq_ok {name : String} {nullable : Bool} {description : Option String}
    {element : FieldType} {elementNullable : Bool} {c : Column} (hmap : element.isMap = false)
    (h : toColumn name nullable description (.array element elementNullable) = .ok c) :
    ∃ e, toColumn name false description element = .ok e ∧ e.mode = some .required ∧
      c = { e with mode := some .repeated } := by
  cases element with
  | array inner innerNullable => exact absurd h (by simp [toColumn])
  | map key value valueNullable => exact absurd hmap (by simp [isMap])
  | row fields =>
    obtain ⟨columns, hcolumns, h⟩ := Outcome.bind_eq_ok.mp h
    refine ⟨⟨name, some "STRUCT", some .required, some columns, description⟩, ?_, rfl,
      (Except.ok.inj h).symm⟩
    rw [toColumn, hcolumns]
    rfl
  | primitive kind => exact plainColumn_repeated h
  | logical identifier base representation labels => exact plainColumn_repeated h
  | unknown kind => exact plainColumn_repeated h

/-- The column of a field has the name of the field. -/
theorem name_of_toColumn {name : String} {nullable : Bool} {description : Option String}
    {type : FieldType} {c : Column} (h : toColumn name nullable description type = .ok c) :
    c.name = name := by
  rw [toColumn.eq_def] at h
  split at h
  · exact absurd h (by simp)
  · obtain ⟨columns, _, h⟩ := Outcome.bind_eq_ok.mp h
    exact Except.ok.inj h ▸ rfl
  · obtain ⟨keyColumn, _, h⟩ := Outcome.bind_eq_ok.mp h
    obtain ⟨valueColumn, _, h⟩ := Outcome.bind_eq_ok.mp h
    exact Except.ok.inj h ▸ rfl
  · obtain ⟨k, _, rfl⟩ := plainColumn_eq_ok h
    rfl
  · obtain ⟨columns, _, h⟩ := Outcome.bind_eq_ok.mp h
    exact Except.ok.inj h ▸ rfl
  · obtain ⟨keyColumn, _, h⟩ := Outcome.bind_eq_ok.mp h
    obtain ⟨valueColumn, _, h⟩ := Outcome.bind_eq_ok.mp h
    exact Except.ok.inj h ▸ rfl
  · obtain ⟨k, _, rfl⟩ := plainColumn_eq_ok h
    rfl

theorem toColumns_cons_eq_ok {f : Field} {fields : List Field} {columns : List Column}
    (h : toColumns (f :: fields) = .ok columns) :
    ∃ c others,
      toColumn f.name f.nullable (ConversionError.present? f.description) f.type = .ok c ∧
      toColumns fields = .ok others ∧ columns = c :: others := by
  rw [toColumns] at h
  obtain ⟨c, hc, h⟩ := Outcome.bind_eq_ok.mp h
  obtain ⟨others, hothers, h⟩ := Outcome.bind_eq_ok.mp h
  exact ⟨c, others, hc, hothers, (Except.ok.inj h).symm⟩

/-- The columns have the names of the fields, in order. -/
theorem names_of_toColumns {fields : List Field} {columns : List Column}
    (h : toColumns fields = .ok columns) :
    columns.map Column.name = fields.map Named.name := by
  induction fields generalizing columns with
  | nil => exact Except.ok.inj h ▸ rfl
  | cons f fields ih =>
    obtain ⟨c, others, hc, hothers, rfl⟩ := toColumns_cons_eq_ok h
    rw [List.map_cons, List.map_cons, name_of_toColumn hc, ih hothers]

/-! ## Conforming cells -/

/-- Only for a missing value it matters whether one may be missing. -/
theorem encode_of_ne_null {type : FieldType} {value : Value} (hvalue : value ≠ .null)
    (nullable nullable' : Bool) : encode type nullable value = encode type nullable' value := by
  have hpresent : ¬ Cell.isNull value = true := by
    cases value with
    | null => exact absurd rfl hvalue
    | _ => exact Bool.false_ne_true
  rw [encode.eq_def, encode.eq_def, if_neg hpresent, if_neg hpresent]

/-- A cell is written for the missing value only where the column has no mode. -/
theorem holds_of_ofNull {name keyword : String} {type : FieldType} {nullable : Bool}
    {fields : Option (List Column)} {description : Option String} {cell : Value}
    (h : Cell.ofNull type nullable = .ok cell) :
    Column.Holds ⟨name, some keyword, Field.mode nullable, fields, description⟩ cell := by
  obtain ⟨rfl, rfl⟩ := Cell.ofNull_eq_ok h
  exact Or.inl rfl

theorem mode_ne_repeated (nullable : Bool) : Field.mode nullable ≠ some .repeated := by
  cases nullable <;> decide

/-- A text is what a column without a struct keyword holds. -/
theorem holds_text {name keyword : String} {nullable : Bool} {description : Option String}
    {cell : Value} (hkeyword : Column.isStruct (some keyword) = false)
    (h : ∃ s, cell = .string s) :
    Column.Holds ⟨name, some keyword, Field.mode nullable, none, description⟩ cell := by
  refine Column.modeHolds_of_holds (mode_ne_repeated nullable) ?_
  rw [Column.Stores, if_neg (by simp [hkeyword])]
  exact h

/-- The cell of every place of a type conforms to its column: what a walk over one type has to
show of each of its parts. -/
def CellsHold (type : FieldType) : Prop :=
  ∀ {name nullable description c value cell}, type.IsTabular → type.IsFilled value →
    toColumn name nullable description type = .ok c → encode type nullable value = .ok cell →
    c.Holds cell

theorem cellsHold_array {element : FieldType} {elementNullable : Bool}
    (helement : element.CellsHold) : (FieldType.array element elementNullable).CellsHold := by
  rintro name nullable description c value cell ⟨hmap, htabular⟩ ⟨hvalue, hitems⟩ hcolumn hcell
  obtain ⟨e, he, hmode, rfl⟩ := toColumn_array_eq_ok hmap hcolumn
  obtain ⟨rfl, _⟩ | ⟨items, cells, rfl, hcells, rfl⟩ := encode_array_eq_ok hcell
  · exact absurd rfl hvalue
  · refine ⟨cells, rfl, Outcome.forall_of_mapM hcells ?_⟩
    intro item hitem cell hcell
    obtain ⟨hpresent, hfilled⟩ := hitems items rfl item hitem
    -- the column is that of an element that is not nullable, so the cell has to be one too
    rw [encode_of_ne_null hpresent elementNullable false] at hcell
    have hholds := helement htabular hfilled he hcell
    rw [Column.Holds, hmode] at hholds
    exact (Column.stores_withMode e _ cell).mpr hholds

theorem cellsHold_map {key value : FieldType} {valueNullable : Bool} (hkey : key.CellsHold)
    (hvalue : value.CellsHold) : (FieldType.map key value valueNullable).CellsHold := by
  rintro name nullable description c v cell ⟨hkeys, hvalues⟩ ⟨hpresent, hentries⟩ hcolumn hcell
  obtain ⟨keyColumn, valueColumn, hkeyColumn, hvalueColumn, rfl⟩ := toColumn_map_eq_ok hcolumn
  obtain ⟨rfl, _⟩ | ⟨entries, cells, rfl, hcells, rfl⟩ := encode_map_eq_ok hcell
  · exact absurd rfl hpresent
  · refine ⟨cells, rfl, Outcome.forall_of_mapM hcells ?_⟩
    intro e he cell hcell
    obtain ⟨keyCell, hkeyCell, hcell⟩ := Outcome.bind_eq_ok.mp hcell
    obtain ⟨valueCell, hvalueCell, hcell⟩ := Outcome.bind_eq_ok.mp hcell
    obtain rfl := Except.ok.inj hcell
    obtain ⟨hkeyFilled, hvalueFilled⟩ := hentries entries rfl e he
    have hkeyName := name_of_toColumn hkeyColumn
    have hvalueName := name_of_toColumn hvalueColumn
    refine ⟨_, rfl, ?_, ⟨keyCell, ?_, hkey hkeys hkeyFilled hkeyColumn hkeyCell⟩,
      ⟨valueCell, ?_, hvalue hvalues hvalueFilled hvalueColumn hvalueCell⟩, trivial⟩
    · rw [List.map_cons, List.map_cons, hkeyName, hvalueName]
      exact List.Perm.refl _
    · rw [hkeyName]
      rfl
    · rw [hvalueName]
      rfl

/-- Members that answer with the cells of a row have a cell of each column. -/
theorem allHold_of_encodeFields {fields : List Field} {columns : List Column} {row : Row}
    {cells : List (String × Value)} {members : Members Value}
    (hfields : ∀ f ∈ fields, f.type.CellsHold) (htabular : AllTabular fields)
    (hfilled : RowFilled fields row) (hcolumns : toColumns fields = .ok columns)
    (hcells : encodeFields fields row = .ok cells)
    (hmembers : ∀ p ∈ cells, Members.get? members p.1 = some p.2) :
    Column.AllHold columns members := by
  -- the members stay the same while fields, columns and cells get shorter together
  induction fields generalizing columns row cells with
  | nil => exact Except.ok.inj hcolumns ▸ trivial
  | cons f fields ih =>
    obtain ⟨c, otherColumns, hcolumn, hotherColumns, rfl⟩ := toColumns_cons_eq_ok hcolumns
    obtain ⟨cell, otherCells, hcell, hotherCells, rfl⟩ := encodeFields_cons_eq_ok hcells
    refine ⟨⟨cell, ?_, ?_⟩, ?_⟩
    · rw [name_of_toColumn hcolumn]
      exact hmembers _ List.mem_cons_self
    · exact hfields f List.mem_cons_self htabular.1 hfilled.1 hcolumn hcell
    · exact ih (fun f hf => hfields f (List.mem_cons_of_mem _ hf)) htabular.2 hfilled.2
        hotherColumns hotherCells fun p hp => hmembers p (List.mem_cons_of_mem _ hp)

/-- The record of the cells of a row has exactly the columns of the fields. -/
theorem describes_of_encodeFields {fields : List Field} {columns : List Column} {row : Row}
    {cells : List (String × Value)} (hfields : ∀ f ∈ fields, f.type.CellsHold)
    (happart : Schema.NamesApart fields) (htabular : AllTabular fields)
    (hfilled : RowFilled fields row) (hcolumns : toColumns fields = .ok columns)
    (hcells : encodeFields fields row = .ok cells) :
    TableSchema.Describes columns (Value.ofAssignments cells) := by
  have hnames := names_of_encodeFields hcells
  have hnodup : (cells.map Prod.fst).Nodup := hnames ▸ happart.1
  refine ⟨Members.ofPairs cells, Value.ofAssignments_cells happart hnames, ?_, ?_⟩
  · rw [names_of_toColumns hcolumns, ← hnames]
    exact Members.names_ofPairs_perm hnodup
  · exact allHold_of_encodeFields hfields htabular hfilled hcolumns hcells
      fun p hp => Members.get?_insertAll hnodup hp []

theorem cellsHold_row {fields : List Field} (hfields : ∀ f ∈ fields, f.type.CellsHold) :
    (FieldType.row fields).CellsHold := by
  rintro name nullable description c value cell ⟨happart, htabular⟩ hfilled hcolumn hcell
  obtain ⟨columns, hcolumns, rfl⟩ := toColumn_row_eq_ok hcolumn
  obtain ⟨rfl, rfl, rfl⟩ | ⟨items, cells, rfl, hcells, rfl⟩ := encode_row_eq_ok hcell
  · exact Or.inl rfl
  · refine Column.modeHolds_of_holds (mode_ne_repeated nullable) ?_
    exact describes_of_encodeFields hfields happart htabular (hfilled items rfl) hcolumns hcells

/-- Every cell conforms to the column of its place. -/
theorem cellsHold (type : FieldType) : type.CellsHold := by
  induction type with
  | primitive kind =>
    intro name nullable description c value cell _ _ hcolumn hcell
    obtain ⟨k, hk, rfl⟩ := plainColumn_eq_ok hcolumn
    rw [encode] at hcell
    split at hcell
    · exact holds_of_ofNull hcell
    · exact holds_text (isStruct_of_keyword id hk) (Cell.ofPrimitive_eq_ok hcell)
  | array element elementNullable ih => exact cellsHold_array ih
  | map key value valueNullable ihkey ihvalue => exact cellsHold_map ihkey ihvalue
  | row fields ih => exact cellsHold_row ih
  | logical identifier base representation labels ih =>
    intro name nullable description c value cell hnested _ hcolumn hcell
    obtain ⟨k, hk, rfl⟩ := plainColumn_eq_ok hcolumn
    rw [encode] at hcell
    split at hcell
    · exact holds_of_ofNull hcell
    · exact holds_text (isStruct_of_keyword hnested hk) (Cell.ofLogical_eq_ok hcell)
  | unknown kind =>
    intro name nullable description c value cell _ _ hcolumn hcell
    obtain ⟨k, hk, rfl⟩ := plainColumn_eq_ok hcolumn
    rw [encode] at hcell
    split at hcell
    · exact holds_of_ofNull hcell
    · exact absurd hcell (by simp)

end FieldType

/-! ## Table rows -/

/-- The table row of a row conforms to the columns of its schema: it has their names and no
others, lists where they are repeated, records of the nested columns where they are structs
and texts elsewhere, and `null` only where they have no mode. -/
theorem Row.describes_toTableRow {schema : Schema} {columns : TableSchema} {row : Row}
    {tableRow : Value} (htabular : (FieldType.row schema).IsTabular)
    (hfilled : FieldType.RowFilled schema row) (hcolumns : schema.toTable = .ok columns)
    (h : row.toTableRow schema = .ok tableRow) : columns.Describes tableRow := by
  rw [Row.toTableRow] at h
  split at h
  · obtain ⟨cells, hcells, h⟩ := Outcome.bind_eq_ok.mp h
    obtain rfl := Except.ok.inj h
    exact FieldType.describes_of_encodeFields (fun f _ => FieldType.cellsHold f.type) htabular.1
      htabular.2 hfilled hcolumns hcells
  · exact absurd h (by simp)

/-- A missing number, and a map to rows with a list of one text. -/
theorem Row.describes_toTableRow_labels :
    ∃ columns tableRow,
      Schema.toTable [⟨"id", .primitive .int64, true, none⟩,
        ⟨"labels", .map (.primitive .string)
          (.row [⟨"texts", .array (.primitive .string) false, false, none⟩]) false, false,
          none⟩] = .ok columns ∧
      Row.toTableRow [.null, .map [(.string "a", .list [.list [.string "x"]])]]
        [⟨"id", .primitive .int64, true, none⟩,
          ⟨"labels", .map (.primitive .string)
            (.row [⟨"texts", .array (.primitive .string) false, false, none⟩]) false, false,
            none⟩] = .ok tableRow ∧
      TableSchema.Describes columns tableRow := by
  have htabular : (FieldType.row [⟨"id", .primitive .int64, true, none⟩,
      ⟨"labels", .map (.primitive .string)
        (.row [⟨"texts", .array (.primitive .string) false, false, none⟩]) false, false,
        none⟩]).IsTabular := by
    simp [FieldType.IsTabular, FieldType.AllTabular, FieldType.isMap, Schema.NamesApart,
      Members.reservedName]
  have hfilled : FieldType.RowFilled [⟨"id", .primitive .int64, true, none⟩,
      ⟨"labels", .map (.primitive .string)
        (.row [⟨"texts", .array (.primitive .string) false, false, none⟩]) false, false,
        none⟩] [.null, .map [(.string "a", .list [.list [.string "x"]])]] := by
    simp [FieldType.RowFilled, FieldType.IsFilled, Value.orNull]
  exact ⟨_, _, rfl, rfl, describes_toTableRow htabular hfilled rfl rfl⟩

end WarehouseRows

import WarehouseRows.Proofs.Members
import WarehouseRows.Proofs.Outcome
import WarehouseRows.Row.Parse

/-!
# Cells by position and cells by name

A row of the tabular interface has its cells in the order of the columns of the table. Put under
the names of the columns, the contents of the cells are a table row. Reading the cells by position
comes to the same as reading this table row by name: the position of a name is the last one that a
column of the name stands at, and the content that is stored under a name last is the one that
stays. Columns that the schema does not know are read by neither, and a position behind the end of
the cells is a name without a value.

## Main definitions

* `Cell.content`: what a cell of the tabular interface holds.
* `Row.named`: the cells of a row under the names of the columns.
-/

namespace WarehouseRows

open Outcome

/-- What a cell of the tabular interface holds; an absent cell holds nothing. -/
def Cell.content (cell : Value) : Value :=
  if cell.isAbsent then .missing else cell.member Cell.wrapName

namespace Row

/-- The contents of cells, each under the name of the column at its position; the last column of a
name counts, and a column without a cell has no value. -/
def named (columns : TableSchema) (cells : List Value) : Value :=
  .record <| Members.ofPairs <|
    columns.zipIdx.map fun p => (p.1.name, Cell.content (cells.getD p.2 .missing))

/-! ## Positions -/

/-- The search for the last position of a name goes on as the contents are stored: what is found is
what is held under the name. -/
theorem get?_insertAll_eq_foldl {α : Type} (g : Nat → α) (name : String)
    (placed : List (Column × Nat)) (members : Members α) (found : Option Nat)
    (h : members.get? name = found.map g) :
    (members.insertAll (placed.map fun p => (p.1.name, g p.2))).get? name =
      (placed.foldl (fun found p => if p.1.name = name then some p.2 else found) found).map g := by
  induction placed generalizing members found with
  | nil => exact h
  | cons p placed ih =>
    rw [List.map_cons, Members.insertAll, List.foldl_cons, ← Members.insertAll, List.foldl_cons]
    apply ih
    rw [Members.get?_insert]
    by_cases hp : p.1.name = name
    · simp [hp]
    · rw [if_neg (Ne.symm hp), if_neg hp, h]

/-- Under the name of a column, the named cells answer with the content of the cell at its
position. -/
theorem fieldOf_named {columns : TableSchema} {name : String} {position : Nat}
    (h : positionOf? columns name = some position) (cells : List Value) :
    (named columns cells).fieldOf name =
      .ok (Cell.content (cells.getD position .missing)) := by
  apply Value.fieldOf_record
  have hget := get?_insertAll_eq_foldl (fun i => Cell.content (cells.getD i .missing)) name
    columns.zipIdx [] none rfl
  rw [← positionOf?, h] at hget
  exact hget

/-- A search that has found a position does not lose it again. -/
theorem isSome_foldl_position (name : String) (placed : List (Column × Nat)) (found : Option Nat)
    (h : found.isSome ∨ name ∈ placed.map fun p => p.1.name) :
    (placed.foldl (fun found p => if p.1.name = name then some p.2 else found) found).isSome := by
  induction placed generalizing found with
  | nil => simpa using h
  | cons p placed ih =>
    rw [List.foldl_cons]
    apply ih
    by_cases hp : p.1.name = name
    · simp [hp]
    · rw [if_neg hp]
      simpa [Ne.symm hp] using h

theorem exists_positionOf? {columns : TableSchema} {name : String}
    (h : name ∈ columns.map fun c => c.name) :
    ∃ position, positionOf? columns name = some position := by
  apply Option.isSome_iff_exists.mp
  apply isSome_foldl_position
  right
  have hnames : (columns.zipIdx.map fun p => p.1.name) = columns.map fun c => c.name := by
    rw [← Function.comp_def Column.name Prod.fst, ← List.map_map, List.zipIdx_map_fst]
  rw [hnames]
  exact h

/-! ## Rows -/

/-- Fields that are read one by one from a table row are read from it as a whole. -/
theorem mapM_eq_parseFields {fields : List Field} {tableRow : Value}
    {step : Field → Except Failure Value}
    (h : ∀ f ∈ fields, step f = ((tableRow.fieldOf f.name).bind
      (f.type.parse f.nullable)).mapError (Failure.inField f.name)) :
    fields.mapM step = FieldType.parseFields fields tableRow := by
  induction fields with
  | nil =>
    rw [FieldType.parseFields]
    rfl
  | cons f fields ih =>
    rw [List.mapM_cons, FieldType.parseFields, h f List.mem_cons_self,
      ih fun g hg => h g (List.mem_cons_of_mem _ hg)]

/-- A table row is refused with a conversion error only. -/
theorem ofTableRow_eq_error {schema : Schema} {tableRow : Value} {e : Failure}
    (h : ofTableRow schema tableRow = .error e) : ∃ c, e = .conversion c := by
  rw [ofTableRow, ← mapM_eq_parseFields fun _ _ => rfl] at h
  obtain ⟨_, f, _, _, _, hf⟩ := mapM_eq_error.mp h
  obtain ⟨e', _, rfl⟩ := mapError_eq_error.mp hf
  exact ⟨_, rfl⟩

/-- Reading cells by position comes to the same as reading them by the names of the columns, if the
table has a column for each field of the schema: the same row, or else the same conversion error. -/
theorem ofCells_eq_ofTableRow_named {schema : Schema} {columns : TableSchema} {dataRow : Value}
    {cells : List Value} (hcells : dataRow.fieldOf cellsName = .ok (.list cells))
    (hnames : ∀ f ∈ schema, f.name ∈ columns.map fun c => c.name) :
    ofCells schema columns dataRow = ofTableRow schema (named columns cells) ∧
      ∀ e, ofCells schema columns dataRow = .error e → ∃ c, e = .conversion c := by
  have hsame : ofCells schema columns dataRow = ofTableRow schema (named columns cells) := by
    apply mapM_eq_parseFields
    intro f hf
    obtain ⟨position, hposition⟩ := exists_positionOf? (hnames f hf)
    simp only [hposition, hcells, fieldOf_named hposition cells]
    rfl
  refine ⟨hsame, ?_⟩
  intro e he
  exact ofTableRow_eq_error (hsame ▸ he)

/-- The columns stand in another order than the fields, one of them twice, one is not a field, and
the last cell is missing. -/
theorem ofCells_eq_ofTableRow_named_reordered :
    let schema : Schema :=
      [⟨"id", .primitive .int64, false, none⟩,
        ⟨"tags", .array (.primitive .string) true, true, none⟩]
    let columns : TableSchema :=
      [⟨"id", some "STRING", none, none, none⟩, ⟨"extra", some "INT64", none, none, none⟩,
        ⟨"id", some "INT64", none, none, none⟩, ⟨"tags", some "STRING", none, none, none⟩]
    let cells : List Value :=
      [.record [("v", .string "x")], .null, .record [("v", .string "7")]]
    let dataRow : Value := .record [(cellsName, .list cells)]
    ofCells schema columns dataRow = ofTableRow schema (named columns cells) ∧
      ∀ e, ofCells schema columns dataRow = .error e → ∃ c, e = .conversion c := by
  intro schema columns cells dataRow
  exact ofCells_eq_ofTableRow_named (Value.fieldOf_record rfl) (by decide)

end Row

end WarehouseRows

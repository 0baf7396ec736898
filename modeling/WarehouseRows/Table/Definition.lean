import WarehouseRows.Error.Conversion
import WarehouseRows.Json.Shape
import WarehouseRows.Schema.Definition
import WarehouseRows.Table.Column
import WarehouseRows.Text.LetterCase

/-!
# Table schemas from JSON

A table schema is read from an object with a list of columns, or from the bare
list. Unknown members are passed over; type keywords are put into capital letters.

## Main definitions

* `TableSchema.checkJson`: the columns of a document, or all its issues.
* `TableSchema.ofJson`: the columns of a document, or one error with the issues.
-/

namespace WarehouseRows

namespace Column

mutual

/-- The column that a document denotes. -/
def ofJson (j : Json) : Checked Column :=
  match j with
  | .object members =>
    (fun name keyword mode fields description =>
      ⟨name, some (Text.toUpper keyword), mode, fields, description⟩) <$>
      Shape.member members "name" (Shape.required (Shape.filled "Field name is required"))
        <*> Shape.member members "type" (Shape.required (Shape.filled "Field type is required"))
        <*> Shape.member members "mode" (Shape.optional (Shape.oneOf Mode.words))
        <*> nestedOfJson members
        <*> Shape.member members "description" (Shape.optional Shape.string)
  | j => Shape.wrongKind "object" j
termination_by sizeOf j

/-- The columns inside that the member `fields` denotes, if there is one. -/
def nestedOfJson (members : Members Json) : Checked (Option (List Column)) :=
  match h : members.get? "fields" with
  | some (.array items) =>
    have : sizeOf items < sizeOf members := by
      have := Members.sizeOf_lt_of_get? h
      simp only [Json.array.sizeOf_spec] at this
      omega
    some <$> (Checked.items 0 (columnsOfJson items)).under "fields"
  | some j => Checked.under "fields" (Shape.wrongKind "array" j)
  | none => .valid none
termination_by sizeOf members

/-- The columns that documents denote, each with its issues. -/
def columnsOfJson (items : List Json) : List (Checked Column) :=
  match items with
  | [] => []
  | j :: rest => ofJson j :: columnsOfJson rest
termination_by sizeOf items

end

end Column

namespace TableSchema

/-- The check of the list of columns. -/
def columns (j : Json) : Checked TableSchema :=
  match j with
  | .array items => Checked.items 0 (Column.columnsOfJson items)
  | j => Shape.wrongKind "array" j

/-- The columns of a document. -/
def checkJson (j : Json) : Checked TableSchema :=
  match j with
  | .array items => (columns (.array items)).under "fields"
  | .object members => Shape.member members "fields" (Shape.required columns)
  | j => Shape.wrongKind "object" j

/-- The refusal of a document, with its issues in one line. -/
def invalid (issues : List Issue) : ConversionError :=
  let lines := issues.map fun issue => s!"{issue.place}: {issue.text}"
  { code := .schemaMismatch
    message := "Invalid table schema: " ++ "; ".intercalate lines }

/-- The columns of a document, or one error with the issues. -/
def ofJson (j : Json) : Except ConversionError TableSchema :=
  (checkJson j).toExcept.mapError invalid

end TableSchema

end WarehouseRows

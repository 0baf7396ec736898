import WarehouseRows.Schema.Basic
import WarehouseRows.Text.LetterCase

/-!
# Types in words

Messages name a type as in `ARRAY<ROW<id INT64, tags ARRAY<STRING>>>`.

## Main definitions

* `FieldType.describe`: the type in words.
-/

namespace WarehouseRows.FieldType

mutual

/-- The type in words. -/
def describe : FieldType → String
  | .primitive kind => kind.label
  | .array element _ => "ARRAY<" ++ describe element ++ ">"
  | .map key value _ => "MAP<" ++ describe key ++ ", " ++ describe value ++ ">"
  | .row fields => "ROW<" ++ ", ".intercalate (describeFields fields) ++ ">"
  | .logical identifier .. => "LOGICAL<" ++ identifier ++ ">"
  | .unknown kind => Text.toUpper kind

/-- Each field as its name and its type. -/
def describeFields : List Field → List String
  | [] => []
  | f :: rest => (f.name ++ " " ++ describe f.type) :: describeFields rest

end

end WarehouseRows.FieldType

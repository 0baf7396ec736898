import WarehouseRows.Error.Failure
import WarehouseRows.Json.Reader
import WarehouseRows.Text.Utf8

/-!
# Documents in files

## Main definitions

* `Document.parse`: the JSON document that the content of a file holds.
-/

namespace WarehouseRows.Document

/-- The document that the content of a file holds, behind a byte order mark if there
is one; `label` names the file in the failure. -/
def parse (label content : String) : Except Failure Json :=
  (Json.parse (String.ofList (Utf8.dropMark content.toList))).mapError fun fault =>
    .settings s!"{label} is not valid JSON: {fault.message}"

end WarehouseRows.Document

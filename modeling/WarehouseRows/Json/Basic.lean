import WarehouseRows.Members
import WarehouseRows.Number.Double

/-!
# JSON values

## Main definitions

* `Json`: a JSON value; the members of an object keep their order.
* `Json.member?`: a member of an object.
* `Json.kindName`: the name of the kind of a value in messages.
-/

namespace WarehouseRows

/-- A JSON value. -/
inductive Json where
  | null
  | bool (value : Bool)
  | number (value : Double)
  | string (value : String)
  | array (items : List Json)
  | object (members : List (String × Json))
  deriving Repr, Inhabited

namespace Json

/-- The value of a member; `none` when there is none, or the value is no object. -/
def member? (name : String) : Json → Option Json
  | .object members => Members.get? members name
  | _ => none

/-- The name of the kind of a value. -/
def kindName : Json → String
  | .null => "null"
  | .bool _ => "boolean"
  | .number _ => "number"
  | .string _ => "string"
  | .array _ => "array"
  | .object _ => "object"

/-- A member whose value is there only sometimes. -/
def optional (name : String) (value : Option Json) : List (String × Json) :=
  match value with
  | some v => [(name, v)]
  | none => []

end Json

end WarehouseRows

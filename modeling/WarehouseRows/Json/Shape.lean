import WarehouseRows.Error.Issue
import WarehouseRows.Json.Basic

/-!
# Shapes of JSON values

Checks of single JSON values and of members of objects. A member that is missing
is not the same as a member that is `null`. A value of the wrong kind is a fatal
issue; an empty text where a text is needed, and an unknown member, are not.

## Main definitions

* `Shape.string`, `Shape.bool`, `Shape.array`, `Shape.object`, `Shape.oneOf`: checks
  of a value.
* `Shape.required`, `Shape.optional`: checks of a member.
* `Shape.member`, `Shape.flag`: members in their place.
* `Shape.closed`: the check that an object has only known members.
-/

namespace WarehouseRows.Shape

variable {α : Type}

/-! ## Members -/

/-- The check of a member that has to be there. -/
def required (check : Json → Checked α) : Option Json → Checked α
  | some j => check j
  | none => .refuse "Required"

/-- The check of a member that may be missing. -/
def optional (check : Json → Checked α) : Option Json → Checked (Option α)
  | some j => (check j).map some
  | none => .valid none

/-- Names in quotes, with a separator. -/
def quotedNames (separator : String) (names : List String) : String :=
  separator.intercalate (names.map fun name => "'" ++ name ++ "'")

/-- The check that an object has no members but the known ones. -/
def noOthers (known : List String) (members : Members Json) : Checked Unit :=
  match members.names.filter fun name => !known.contains name with
  | [] => .valid ()
  | others => .remark ("Unrecognized key(s) in object: " ++ quotedNames ", " others)

/-- The outcome with the check of unknown members behind it. -/
def closed (known : List String) (members : Members Json) (outcome : Checked α) : Checked α :=
  Checked.both (fun a _ => a) outcome (noOthers known members)

/-- The check of a member of an object, placed at its name. -/
def member (members : Members Json) (name : String) (check : Option Json → Checked α) :
    Checked α :=
  (check (members.get? name)).under name

/-! ## Values -/

/-- The issue of a value of the wrong kind. -/
def wrongKind (expected : String) (j : Json) : Checked α :=
  .refuse s!"Expected {expected}, received {j.kindName}"

/-- A string. -/
def string : Json → Checked String
  | .string s => .valid s
  | j => wrongKind "string" j

/-- A string that is not empty; `complaint` is the issue when it is. -/
def filled (complaint : String) : Json → Checked String
  | .string s => if s.isEmpty then .remark complaint else .valid s
  | j => wrongKind "string" j

/-- The issue of an empty string where nothing else is said. -/
def tooShort : String := "String must contain at least 1 character(s)"

/-- A truth value. -/
def bool : Json → Checked Bool
  | .bool b => .valid b
  | j => wrongKind "boolean" j

/-- An optional flag among the members, off when it is missing. -/
def flag (name : String) (members : Members Json) : Checked Bool :=
  (member members name (optional bool)).map fun b => b.getD false

/-- The items of an array. -/
def array : Json → Checked (List Json)
  | .array items => .valid items
  | j => wrongKind "array" j

/-- The members of an object. -/
def object : Json → Checked (Members Json)
  | .object members => .valid members
  | j => wrongKind "object" j

/-- One of several words, each standing for a value. -/
def oneOf (options : List (String × α)) : Json → Checked α
  | .string s =>
    match options.lookup s with
    | some value => .valid value
    | none =>
      .refuse ("Invalid enum value. Expected " ++ quotedNames " | " (options.map Prod.fst) ++
        s!", received '{s}'")
  | j => wrongKind (quotedNames " | " (options.map Prod.fst)) j

end WarehouseRows.Shape

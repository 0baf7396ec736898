import WarehouseRows.Json.Basic

/-!
# Parents of JSON objects

In a document that is assembled by assigning members, a value under the reserved name
is no member of its object: an object or an array there becomes the parent, and any
other value is dropped. The members of a parent stand in for members that the object
lacks, and come after its own; those of an array go by their positions. A parent may
have a parent itself.

## Main definitions

* `Json.own`: a document without its parents.
* `Json.settled`: a document with the members of parents filled in.
-/

namespace WarehouseRows.Json

mutual

/-- The document without the values under the reserved name, at every depth. -/
def own : Json → Json
  | .array items => .array (ownItems items)
  | .object members => .object (ownMembers members)
  | j => j

/-- The items of an array without their parents. -/
def ownItems : List Json → List Json
  | [] => []
  | item :: rest => own item :: ownItems rest

/-- The members that an object holds itself, without parents. -/
def ownMembers : List (String × Json) → List (String × Json)
  | [] => []
  | (name, value) :: rest =>
    if name = Members.reservedName then ownMembers rest
    else (name, own value) :: ownMembers rest

end

/-- What a parent lends to an object. -/
def lent : Json → List (String × Json)
  | .object members => members
  | .array items => Members.numbered 0 items
  | _ => []

/-- Members with those of a parent behind them, where they lack the name. -/
def inherit (members fromParent : Members Json) : Members Json :=
  members ++ fromParent.filter fun m => !members.contains m.1

mutual

/-- The document with the members of parents filled in, at every depth. -/
def settled : Json → Json
  | .array items => .array (settledItems items)
  | .object members => .object (inherit (settledMembers members) (settledParent members))
  | j => j

/-- The items of an array with the members of parents filled in. -/
def settledItems : List Json → List Json
  | [] => []
  | item :: rest => settled item :: settledItems rest

/-- The members that an object holds itself, with the members of parents filled in. -/
def settledMembers : List (String × Json) → List (String × Json)
  | [] => []
  | (name, value) :: rest =>
    if name = Members.reservedName then settledMembers rest
    else (name, settled value) :: settledMembers rest

/-- What the parent among the members of an object lends. -/
def settledParent : List (String × Json) → List (String × Json)
  | [] => []
  | (name, value) :: rest =>
    if name = Members.reservedName then lent (settled value) else settledParent rest

end

end WarehouseRows.Json

import WarehouseRows.Number.Reading
import WarehouseRows.Number.Shortest
import WarehouseRows.Value.Member

/-!
# Assignment

An object is assembled by assigning members one after another. As long as the most general
archetype is behind the object, an assignment to the reserved name gives it a parent and
stores nothing: only an object, a list or `null` can be assigned, where `null` leaves the
object without a parent, and any other value leaves it as it is. With no archetype behind
it, the object holds the reserved name like any other.

The positions of a parent that holds bytes end with the bytes: a number beyond them is not
stored. The trace of an error is its own to the end: what an heir assigns to its name, the
error keeps.

## Main definitions

* `Value.assign`: the object after an assignment.
* `Value.ofAssignments`: the object that results from assignments one after another.
-/

namespace WarehouseRows.Value

/-- Whether a value can be the parent of an object. -/
def canBeParent : Value → Bool
  | .list _ | .builtin _ => true
  | v => v.isObject

/-- The object with other members and the same parent. -/
def withMembers (target : Value) (members : List (String × Value)) : Value :=
  match target with
  | .heir _ p => .heir members p
  | .bare _ => .bare members
  | _ => .record members

/-- The object with another parent, if the value can be one. -/
def withParent (target parent : Value) : Value :=
  match parent with
  | .null => .bare target.ownMembers
  | p => if p.canBeParent then .heir target.ownMembers p else target

/-- Whether a name is a number as numbers are written. -/
def isNumeral (name : String) : Bool :=
  name == "-0" || (Double.ofText name).text == name

/-- Whether a name is a number that is no position in the bytes at the end of the line of
an object, nor held by anything in the line. -/
def isBeyondBytes (target : Value) (name : String) : Bool :=
  match target.root with
  | .bytes _ => isNumeral name && (target.held? name).isNone
  | _ => false

/-- Whether an error in the line of parents of a value is the nearest to hold a trace. -/
def hasErrorTrace : Value → Bool
  | .error .. | .failure .. => true
  | .heir members p => !Members.contains members traceName && hasErrorTrace p
  | _ => false

/-- The object whose error has another trace. -/
def withTrace (target trace : Value) : Value :=
  match target with
  | .heir members p => .heir members (.heir [(traceName, trace)] p)
  | v => v

/-- The object after an assignment to a name. -/
def assign (target : Value) (name : String) (value : Value) : Value :=
  if name = Members.reservedName ∧ target.isRooted then target.withParent value
  else if target.isBeyondBytes name then target
  else if name = traceName ∧ target.hasErrorTrace then target.withTrace value
  else target.withMembers (Members.insert target.ownMembers name value)

/-- The object that results from assignments, where no parent has an archetype that answers
to a name by itself. -/
def ofAssignments (pairs : List (String × Value)) : Value :=
  pairs.foldl (fun target p => target.assign p.1 p.2) (.record [])

end WarehouseRows.Value

import WarehouseRows.Value.Text

/-!
# Assembling objects

An object is assembled from any members by assignments, some of which fail. A name that an
archetype answers by itself cannot be assigned. A position beyond the bytes of a parent is
not stored, but what is assigned to it has to be a number all the same.

## Main definitions

* `Value.assignmentRefusal?`: why an assignment fails.
* `Value.assemble`: the object that results from assignments.
-/

namespace WarehouseRows.Value

/-- Whether an archetype answers to a name by itself. -/
def isAnswered (k : Archetype) (name : String) : Bool :=
  (k.guarded.lookup name).isSome || (k = .failure && name == recoverableName)

/-- Why an assignment to a name fails, if it does: an archetype answers to the name by
itself, and nothing in the line of the object stands in for the answer; or the value has to
be a number and is none. -/
def assignmentRefusal? (target : Value) (name : String) (value : Value) : Option Failure :=
  if (target.held? name).isNone ∧ target.lineage.any (isAnswered · name) then
    some (.other "TypeError"
      s!"Cannot set property {name} of {target.shown} which has only a getter")
  else if target.isBeyondBytes name then
    match value.operand.number with
    | .ok _ => none
    | .error refusal => some refusal
  else none

/-- The object that results from assigning members one after another. -/
def assemble (pairs : List (String × Value)) : Except Failure Value :=
  pairs.foldlM (fun target p =>
    match target.assignmentRefusal? p.1 p.2 with
    | some refusal => .error refusal
    | none => .ok (target.assign p.1 p.2)) (.record [])

end WarehouseRows.Value

/-!
# Ordered members

The members of an object are pairs of a name and a value, each name at most once.
Their order is part of the data: names that are array indices come first, by
number, and all other names follow in the order in which they were first stored.

## Main definitions

* `Members`: names with their values.
* `Members.get?`, `Members.insert`, `Members.ofPairs`: the operations.
* `Members.numbered`: values under their positions.
-/

namespace WarehouseRows

/-- The members of an object, in order. -/
abbrev Members (α : Type) := List (String × α)

namespace Members

variable {α : Type}

/-! ## Array indices -/

/-- Whether characters are decimal digits without a needless zero in front. -/
def isPlainNumber (cs : List Char) : Bool :=
  match cs with
  | [] => false
  | ['0'] => true
  | '0' :: _ => false
  | _ => cs.all Char.isDigit

/-- The number that a name is, when it is an array index: a plain decimal number
below `2 ^ 32 - 1`. -/
def arrayIndex? (name : String) : Option Nat :=
  let cs := name.toList
  if isPlainNumber cs ∧ cs.length ≤ 10 then
    let n := cs.foldl (fun n c => 10 * n + (c.toNat - '0'.toNat)) 0
    if n < 4294967295 then some n else none
  else none

/-! ## Operations -/

/-- The value of a name. -/
def get? (members : Members α) (name : String) : Option α :=
  List.lookup name members

/-- Whether a name has a value. -/
def contains (members : Members α) (name : String) : Bool :=
  members.any fun m => m.1 == name

/-- The names in order. -/
def names (members : Members α) : List String :=
  members.map Prod.fst

/-- The members with the value of an existing name replaced. -/
def replace (members : Members α) (name : String) (value : α) : Members α :=
  members.map fun m => if m.1 = name then (name, value) else m

/-- Whether a member stays in front of a new index `i`. -/
def precedes (i : Nat) (m : String × α) : Bool :=
  match arrayIndex? m.1 with
  | some j => j < i
  | none => false

/-- The members with a name set to a value. -/
def insert (members : Members α) (name : String) (value : α) : Members α :=
  if members.contains name then members.replace name value
  else
    match arrayIndex? name with
    | some i =>
      members.takeWhile (precedes i) ++ (name, value) :: members.dropWhile (precedes i)
    | none => members ++ [(name, value)]

/-- The members that result from storing pairs one after another: the last value
of a repeated name counts, at the place of the first. -/
def ofPairs (pairs : List (String × α)) : Members α :=
  pairs.foldl (fun members p => members.insert p.1 p.2) []

/-- Values under their positions, from position `i` on. -/
def numbered (i : Nat) : List α → Members α
  | [] => []
  | a :: rest => (Nat.repr i, a) :: numbered (i + 1) rest

/-- The name under which an object answers with its parent. -/
def reservedName : String := "__proto__"

end Members

end WarehouseRows

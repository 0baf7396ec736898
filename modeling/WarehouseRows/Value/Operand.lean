import WarehouseRows.Number.Arithmetic
import WarehouseRows.Value.Assignment

/-!
# Operands

The parts of an object may be replaced by values of any sort, so what is computed from
parts has to take any value. An operand is a value with its text. Where a number is
needed, a text counts as the number that it denotes, a truth value as one or zero, `null`
as zero, a missing value as no number, an instant as its milliseconds, and any other
object as its text. Numbers and big integers do not mix.

## Main definitions

* `Operand`: a value with its text.
* `Operand.numeric`, `Operand.number`, `Operand.integer`: the numbers that an operand is.
* `Operand.plus`, `Operand.minus`, `Operand.times`, `Operand.dividedBy`, `Operand.modulo`,
  `Operand.negated`: arithmetic.
* `Operand.order?`: the order of two operands.
* `Operand.padded`: the text of an operand, filled up with zeros.
-/

namespace WarehouseRows

/-- A value with its text, which is worked out only when it is asked for. -/
structure Operand where
  value : Value
  text : Unit → Except Failure String

/-- A number that takes part in arithmetic, or a big integer. -/
inductive Numeric where
  | number (value : Double)
  | integer (value : Int)
  deriving DecidableEq, Repr

namespace Operand

/-! ## Simple operands -/

/-- A number as an operand. -/
def ofNumber (x : Double) : Operand :=
  ⟨.number x, fun _ => .ok x.text⟩

/-- A small number as an operand. -/
def ofNat (n : Nat) : Operand :=
  ofNumber (Double.ofNat n)

/-- A big integer as an operand. -/
def ofInteger (n : Int) : Operand :=
  ⟨.integer n, fun _ => .ok (toString n)⟩

/-- A text as an operand. -/
def ofString (s : String) : Operand :=
  ⟨.string s, fun _ => .ok s⟩

/-- The missing value as an operand. -/
def missing : Operand :=
  ⟨.missing, fun _ => .ok "undefined"⟩

/-! ## Refusals -/

/-- A refusal of an operand of the wrong sort. -/
def refusal (message : String) : Failure :=
  .other "TypeError" message

/-- The refusal to compute with a number and a big integer. -/
def mixed : Failure :=
  refusal "Cannot mix BigInt and other types, use explicit conversions"

/-- The refusal of a big integer where a number is needed. -/
def noNumber : Failure :=
  refusal "Cannot convert a BigInt value to a number"

/-- The refusal of an instant by an heir of an instant. -/
def noInstant : Failure :=
  refusal "this is not a Date object."

/-- The refusal of a value that has no integer form. -/
def noInteger (shown : String) : Failure :=
  refusal s!"Cannot convert {shown} to a BigInt"

/-- The refusal of a text that denotes no integer. -/
def unreadableInteger (text : String) : Failure :=
  .other "SyntaxError" s!"Cannot convert {text} to a BigInt"

/-- The refusal to call a function that is not there; `place` says where it was looked
for. -/
def noFunction (place : String) : Failure :=
  refusal s!"{place} is not a function"

/-! ## Numbers -/

/-- The scalar that an operand counts as where a number is needed. -/
def scalar (x : Operand) : Except Failure Value :=
  match x.value with
  | .null | .missing | .bool _ | .number _ | .integer _ | .string _ => .ok x.value
  | .instant t => .ok (.number t.toNumber)
  | v =>
    if v.isA .instant && (v.held? "valueOf").isNone then .error noInstant
    else (x.text ()).map .string

/-- The number that a scalar is. -/
def numericOf : Value → Numeric
  | .null => .number Double.zero
  | .bool b => .number (Double.ofNat (if b then 1 else 0))
  | .number x => .number x
  | .integer n => .integer n
  | .string s => .number (Double.ofText s)
  | _ => .number .nan

/-- The number or big integer that an operand is in arithmetic. -/
def numeric (x : Operand) : Except Failure Numeric :=
  x.scalar.map numericOf

/-- The number that an operand is. -/
def number (x : Operand) : Except Failure Double := do
  match ← x.numeric with
  | .number d => pure d
  | .integer _ => .error noNumber

/-- The integer that a scalar is. -/
def integerOf : Value → Except Failure Int
  | .null => .error (noInteger "null")
  | .missing => .error (noInteger "undefined")
  | .bool b => .ok (if b then 1 else 0)
  | .number x => Decimal.integerOf x
  | .integer n => .ok n
  | .string s =>
    match Text.readInteger? s with
    | some n => .ok n
    | none => .error (unreadableInteger s)
  | _ => .ok 0

/-- The integer that an operand is. -/
def integer (x : Operand) : Except Failure Int :=
  x.scalar.bind integerOf

/-! ## Arithmetic -/

/-- An operation on two numbers or on two big integers. -/
def combine (onNumbers : Double → Double → Double) (onIntegers : Int → Int → Except Failure Int)
    (a b : Operand) : Except Failure Operand := do
  let x ← a.numeric
  let y ← b.numeric
  match x, y with
  | .number x, .number y => pure (ofNumber (onNumbers x y))
  | .integer x, .integer y => (onIntegers x y).map ofInteger
  | _, _ => .error mixed

/-- The failure of a division of big integers by zero. -/
def divisionByZero : Failure :=
  .range "Division by zero"

/-- The difference. -/
def minus : Operand → Operand → Except Failure Operand :=
  combine Double.sub fun x y => .ok (x - y)

/-- The product. -/
def times : Operand → Operand → Except Failure Operand :=
  combine Double.mul Decimal.product

/-- The quotient, of big integers cut toward zero. -/
def dividedBy : Operand → Operand → Except Failure Operand :=
  combine Double.div fun x y => if y = 0 then .error divisionByZero else .ok (x.tdiv y)

/-- The remainder, with the sign of the first operand. -/
def modulo : Operand → Operand → Except Failure Operand :=
  combine Double.rem fun x y => if y = 0 then .error divisionByZero else .ok (x.tmod y)

/-- The operand with the other sign. -/
def negated (x : Operand) : Except Failure Operand := do
  match ← x.numeric with
  | .number d => pure (ofNumber d.neg)
  | .integer n => pure (ofInteger (-n))

/-- The scalar that an operand counts as in a sum: an instant counts as its text. -/
def summand (x : Operand) : Except Failure Value :=
  match x.value with
  | .instant _ => (x.text ()).map .string
  | v =>
    if v.isA .instant && v.textOwner?.isSome then (x.text ()).map .string else x.scalar

/-- The text of a scalar. -/
def scalarText : Value → String
  | .null => "null"
  | .bool b => if b then "true" else "false"
  | .number x => x.text
  | .integer n => toString n
  | .string s => s
  | _ => "undefined"

/-- The sum; with a text on either side, the two texts one after the other. -/
def plus (a b : Operand) : Except Failure Operand := do
  let x ← a.summand
  let y ← b.summand
  match x, y with
  | .string s, y => pure (ofString (s ++ scalarText y))
  | x, .string s => pure (ofString (scalarText x ++ s))
  | x, y =>
    match numericOf x, numericOf y with
    | .number x, .number y => pure (ofNumber (x.add y))
    | .integer x, .integer y => pure (ofInteger (x + y))
    | _, _ => .error mixed

/-! ## Comparing -/

/-- The order of two numbers or big integers. -/
def orderNumeric? : Numeric → Numeric → Option Ordering
  | .number x, .number y => x.order? y
  | .integer x, .integer y => some (compare x y)
  | .number x, .integer n => x.orderInt? n
  | .integer n, .number x => (x.orderInt? n).map Ordering.swap

/-- The order of two scalars: of two texts by their units, of others as numbers, where
the text beside a big integer has to denote an integer. -/
def orderScalar? : Value → Value → Option Ordering
  | .string s, .string t => some (Text.orderUnits (Text.units s) (Text.units t))
  | .integer n, .string s => (Text.readInteger? s).map (compare n)
  | .string s, .integer n => (Text.readInteger? s).map (compare · n)
  | x, y => orderNumeric? (numericOf x) (numericOf y)

/-- The order of two operands; `none` when they have none. -/
def order? (a b : Operand) : Except Failure (Option Ordering) := do
  let x ← a.scalar
  let y ← b.scalar
  pure (orderScalar? x y)

/-- Whether the first operand is less. -/
def below (a b : Operand) : Except Failure Bool :=
  (a.order? b).map (· == some .lt)

/-- Whether the first operand is greater. -/
def above (a b : Operand) : Except Failure Bool :=
  (a.order? b).map (· == some .gt)

/-- Whether the first operand is at most the second. -/
def atMost (a b : Operand) : Except Failure Bool :=
  (a.order? b).map fun o => o == some .lt || o == some .eq

end Operand

/-- Whether two values are the same scalar. Two objects are never the same. -/
def Value.identical : Value → Value → Bool
  | .null, .null => true
  | .missing, .missing => true
  | .bool a, .bool b => a == b
  | .number a, .number b => a.equal b
  | .integer a, .integer b => a == b
  | .string a, .string b => a == b
  | _, _ => false

namespace Operand

/-! ## Text -/

/-- The greatest length that a number can give. -/
def greatestLength : Nat := 9007199254740991

/-- The length that a number gives, cut to an integer: zero when it is no number or
negative. -/
def lengthOf (x : Double) : Nat :=
  match x with
  | .infinity false => greatestLength
  | x => min ((x.truncated?.getD 0).toNat) greatestLength

/-- A text with zeros in front, up to a length. -/
def filled (s : String) (length : Double) : Except Failure String :=
  match Text.fillLeft? (lengthOf length) s with
  | some filled => .ok filled
  | none => .error Decimal.tooLong

/-- The text of an operand with zeros in front, up to a width. -/
def padded (width : Nat) (x : Operand) : Except Failure String := do
  let s ← x.text ()
  filled s (Double.ofNat width)

/-- The text that an operand answers with when it is asked for its text by name;
`place` says where the operand stands. -/
def spoken (place : String) (x : Operand) : Except Failure String :=
  match x.value with
  | .null => .error (Value.nothingToAsk "null" "toString")
  | .missing => .error (Value.nothingToAsk "undefined" "toString")
  | .builtin _ => x.text ()
  | v => if v.textOwner?.isSome then x.text () else .error (noFunction (place ++ ".toString"))

/-- The position in a text of a length that a number names: negative ones count from the
end. -/
def positionOf (length : Nat) (x : Double) : Nat :=
  match x with
  | .nan => 0
  | .infinity negative => if negative then 0 else length
  | x =>
    let n := x.truncated?.getD 0
    if n < 0 then (n + length).toNat else min n.toNat length

/-- A text cut at a position into two texts. -/
def cut (s : String) (at_ : Double) : String × String :=
  let us := Text.units s
  let n := positionOf us.length at_
  (Text.ofUnits (us.take n), Text.ofUnits (us.drop n))

end Operand

end WarehouseRows

import WarehouseRows.Value.Making

/-!
# Calling functions

A value answers to some names with a function, which is then called with arguments on the
value. The functions of decimals, dates, times and pairs of them work on the parts that
the value answers with, so they serve heirs as well. Two values are equal when the second
one is of the sort and the parts of both are the same scalars; for dates with a time, the
parts of the second one are asked.

## Main definitions

* `Value.setScale`, `Value.compareTo`, `Value.signedBytes`: functions of decimals.
* `Value.dayNumber`, `Value.nanoNumber`: functions of dates and times.
* `Value.equals`: equality as values see it.
* `Value.call`: what a function gives for arguments.
* `Value.ask`: what a value gives for a name and arguments, function or not.
-/

namespace WarehouseRows.Value

/-! ## Functions of decimals -/

/-- A power of ten with an operand for the exponent. -/
def powerOfTen (exponent : Operand) : Except Failure Operand := do
  let n ← exponent.integer
  if n < 0 then .error (.range "Exponent must be non-negative")
  else (Decimal.powerOfTen n.toNat).map .ofInteger

/-- A decimal with another scale, from its parts. -/
def setScaleOfParts (v scale : Value) : Except Failure Value := do
  let held := v.parts "scale"
  let unscaled := v.parts "unscaled"
  if scale.identical held.value then pure v
  else if ← scale.operand.above held then
    let factor ← powerOfTen (← scale.operand.minus held)
    let raised ← unscaled.times factor
    Decimal.make raised.value scale
  else
    let divisor ← powerOfTen (← held.minus scale.operand)
    let rest ← unscaled.modulo divisor
    if rest.value.identical (.integer 0) then
      let lowered ← unscaled.dividedBy divisor
      Decimal.make lowered.value scale
    else
      let shown ← v.operand.spoken "this"
      let wanted ← scale.text
      .error (Decimal.digitsLost shown wanted)

/-- A decimal with another scale. -/
def setScale (v scale : Value) : Except Failure Value :=
  match v, scale with
  | .decimal d, .number x => (d.setScaleNumber x).map .decimal
  | _, _ => setScaleOfParts v scale

/-- The larger of two numbers; `nan` if one of them is. -/
def larger (x y : Double) : Double :=
  match x.order? y with
  | none => .nan
  | some .lt => y
  | some .gt => x
  | some .eq => if x.isNegative then y else x

/-- The order of a decimal and another value by value, from their parts. -/
def compareOfParts (v other : Value) : Except Failure Value := do
  let x ← (v.parts "scale").number
  let theirs ← other.fieldOf "scale"
  let y ← theirs.operand.number
  let scale : Value := .number (larger x y)
  let a ← (← setScale v scale).fieldOf "unscaled"
  if !other.isA .decimal || (other.held? "setScale").isSome then
    .error (Operand.noFunction "other.setScale")
  else
    let b ← (← setScale other scale).fieldOf "unscaled"
    if a.identical b then pure (.number Double.zero)
    else if ← a.operand.below b.operand then pure (.number (Double.ofInt (-1)))
    else pure (count 1)

/-- The order of a decimal and another value by value. -/
def compareTo (v other : Value) : Except Failure Value :=
  match v, other with
  | .decimal a, .decimal b => (a.compare b).map fun n => .number (Double.ofInt n)
  | _, _ => compareOfParts v other

/-- The bytes of the unscaled integer of a decimal. -/
def signedBytes (v : Value) : Except Failure Value :=
  match v, v.member "unscaled" with
  | .decimal d, _ => .ok (.bytes d.toBytes)
  | _, .integer n => .ok (.bytes (Decimal.signedBytes n []))
  | _, u => do
    match ← u.operand.scalar with
    | .number x => .error (Operand.noInteger x.text)
    | s =>
      let _ ← Operand.integerOf s
      .error Operand.mixed

/-- The text of a value, asked for by name. -/
def namedText (v : Value) : Except Failure String :=
  v.operand.spoken "this"

/-- The number that a decimal is. -/
def toNumber (v : Value) : Except Failure Value :=
  match v with
  | .decimal d => d.toDouble.map .number
  | v => v.namedText.map fun s => .number (Double.ofText s)

/-! ## Functions of dates and times -/

/-- The day number of a date. -/
def dayNumber (v : Value) : Except Failure Value :=
  match v with
  | .date d => .ok (.number d.toDayCount)
  | v => (LocalDate.dayCountOfParts v.parts).map .number

/-- The nanoseconds of a time from midnight. -/
def nanoNumber (v : Value) : Except Failure Value :=
  match v with
  | .time t => .ok (.number t.toNanoOfDay)
  | v => (LocalTime.nanosOfParts v.parts).map Operand.value

/-! ## Equality -/

/-- Whether two values answer to some names with the same scalars. -/
def agree (names : List String) (v w : Value) : Bool :=
  names.all fun name => (w.member name).identical (v.member name)

/-- Whether a time is as many nanoseconds from midnight as another. -/
def sameNanos (v w : Value) : Except Failure Bool := do
  if (w.held? "toNanoOfDay").isSome then
    .error (Operand.noFunction "other.toNanoOfDay")
  else
    let b ← nanoNumber w
    if (v.held? "toNanoOfDay").isSome then .error (Operand.noFunction "this.toNanoOfDay")
    else
      let a ← nanoNumber v
      pure (b.identical a)

/-- The sort whose equality a value has. -/
def equalityOf? (v : Value) : Option Archetype :=
  match v.held? "equals" with
  | some _ => none
  | none => v.lineage.find? fun k => k.functions.contains "equals"

/-- Equality as values see it, through at most `depth` dates with a time inside each
other. -/
def equalsWithin (depth : Nat) (v w : Value) : Except Failure Bool :=
  match equalityOf? v with
  | some .decimal => .ok (w.isA .decimal && agree ["unscaled", "scale"] v w)
  | some .date => .ok (w.isA .date && agree ["year", "month", "day"] v w)
  | some .time => if w.isA .time then sameNanos v w else .ok false
  | some .dateTime =>
    match depth with
    | 0 => .ok false
    | depth + 1 =>
      if w.isA .dateTime then do
        let sameDate ← equalsWithin depth (w.member "date") (v.member "date")
        if sameDate then equalsWithin depth (w.member "time") (v.member "time") else pure false
      else .ok false
  | _ =>
    match v with
    | .null => .error (nothingToAsk "null" "equals")
    | .missing => .error (nothingToAsk "undefined" "equals")
    | _ => .error (Operand.noFunction "equals")

/-- The most dates with a time inside each other that equality looks through. -/
def equalityDepth : Nat := 1000

/-- Equality as values see it. -/
def equals (v w : Value) : Except Failure Bool :=
  match v, w with
  | .decimal a, .decimal b => .ok (a.same b)
  | .date a, .date b => .ok (a.same b)
  | .time a, .time b => .ok (a.same b)
  | .dateTime a, .dateTime b => .ok (a.same b)
  | _, _ => equalsWithin equalityDepth v w

/-! ## Functions of all objects -/

/-- Whether a value holds a name itself. -/
def holds (v : Value) (name : String) : Bool :=
  Members.contains v.ownMembers name || Members.contains v.hiddenMembers name

/-! ## Calling -/

/-- What a function of an archetype gives, called on a value with arguments. -/
def call (v : Value) (k : Archetype) (name : String) (args : List Value) :
    Except Failure Value :=
  let arg : Value := args.headD .missing
  match k, name with
  | .decimal, "setScale" => setScale v arg
  | .decimal, "compareTo" => compareTo v arg
  | .decimal, "toUnscaledBytes" => signedBytes v
  | .decimal, "toNumber" => toNumber v
  | .date, "toEpochDay" => dayNumber v
  | .time, "toNanoOfDay" => nanoNumber v
  | .object, "valueOf" => .ok v
  | .object, "hasOwnProperty" => arg.text.map fun s => .bool (v.holds s)
  | .object, "propertyIsEnumerable" =>
    arg.text.map fun s => .bool (Members.contains v.ownMembers s)
  | .object, "isPrototypeOf" => .ok (.bool false)
  | .object, "__lookupGetter__" | .object, "__lookupSetter__" => arg.text.map fun _ => .missing
  | .object, "toLocaleString" => v.namedText.map .string
  | .object, "toString" => .ok (.string v.objectText)
  | _, "equals" => (equals v arg).map .bool
  | _, "toString" => v.text.map .string
  | _, "toJSON" => v.namedText.map .string
  | _, _ => .error (Operand.noFunction name)

/-- What a value gives for a name and arguments: the result of the function that it
answers with, or the answer itself when that is no function. -/
def ask (v : Value) (name : String) (args : List Value) : Except Failure Value := do
  match ← v.fieldOf name with
  | .builtin _ =>
    match v.lineage.find? fun k => (k.function? name).isSome with
    | some k => v.call k name args
    | none => .error (Operand.noFunction name)
  | x => pure x

end WarehouseRows.Value

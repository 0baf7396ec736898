import WarehouseRows.Value.Operand

/-!
# Texts from parts

The operations of a sort read the parts of a value by name. A value of the sort itself
has parts of the right kinds; an heir may have put any value in the place of a part. The
texts of this module are made from parts of any kind. Where the parts are those of a
value of the sort itself, they are the texts of that value.

## Main definitions

* `Parts`: what an object answers to the names of its parts.
* `Decimal.textOfParts`, `LocalDate.textOfParts`, `LocalTime.textOfParts`,
  `LocalDateTime.textOfParts`: the default texts.
* `LocalTime.formatOfParts`: the text of a time with its seconds.
* `LocalTime.nanosOfParts`, `LocalDate.dayCountOfParts`: counting from parts.
* `Value.textOfParts`: the default text of an object with a parent.
-/

namespace WarehouseRows

/-- What an object answers to the names of its parts. -/
abbrev Parts := String → Operand

/-- The parts in a list; any other part is missing. -/
def Parts.ofList (known : List (String × Operand)) : Parts :=
  fun name => (known.lookup name).getD .missing

/-! ## Decimals -/

/-- The text of a decimal. -/
def Decimal.textOfParts (parts : Parts) : Except Failure String := do
  let unscaled := parts "unscaled"
  let scale := parts "scale"
  if ← scale.atMost (.ofNat 0) then
    let exponent ← (← scale.negated).integer
    let factor ← powerOfTen exponent.toNat
    let product ← unscaled.times (.ofInteger factor)
    product.text ()
  else
    let negative ← unscaled.below (.ofInteger 0)
    let magnitude ← if negative then unscaled.negated else pure unscaled
    let digits ← magnitude.spoken "digits"
    let length ← (← scale.plus (.ofNat 1)).number
    let digits ← Operand.filled digits length
    let point ← (← (Operand.ofNat (Text.unitCount digits)).minus scale).number
    let (whole, fraction) := Operand.cut digits point
    pure ((if negative then "-" else "") ++ whole ++ "." ++ fraction)

/-! ## Dates -/

namespace LocalDate

/-- The text of a date. -/
def textOfParts (parts : Parts) : Except Failure String := do
  let year := parts "year"
  let yearText ←
    if ← year.below (.ofNat 0) then do
      let digits ← (← year.negated).padded 4
      pure ("-" ++ digits)
    else year.padded 4
  let monthText ← (parts "month").padded 2
  let dayText ← (parts "day").padded 2
  pure (yearText ++ "-" ++ monthText ++ "-" ++ dayText)

/-- The day number of numbers that need not be a real date, cut to integers; `nan` when
there is none. -/
def dayCount (year month day : Double) : Double :=
  match year.truncated?, month.truncated?, day.truncated? with
  | some y, some m, some d =>
    let n := CivilDate.epochDay y (m + 1) d
    if n.natAbs ≤ Instant.maxDays then Double.ofInt n else .nan
  | _, _, _ => .nan

/-- The day number of a date. -/
def dayCountOfParts (parts : Parts) : Except Failure Double := do
  let month ← (parts "month").minus (.ofNat 1)
  let year ← (parts "year").number
  let month ← month.number
  let day ← (parts "day").number
  pure (dayCount year month day)

end LocalDate

/-! ## Times -/

namespace LocalTime

/-- The text of a fraction of a second that is greater than zero. -/
def fractionOfPart (nano : Operand) : Except Failure String := do
  let thousandths ← nano.modulo (.ofNat 1000000)
  if thousandths.value.identical (.number Double.zero) then
    (← nano.dividedBy (.ofNat 1000000)).padded 3
  else
    let millionths ← nano.modulo (.ofNat 1000)
    if millionths.value.identical (.number Double.zero) then
      (← nano.dividedBy (.ofNat 1000)).padded 6
    else nano.padded 9

/-- The text of a time. -/
def textOfParts (parts : Parts) : Except Failure String := do
  let second := parts "second"
  let nano := parts "nano"
  let hourText ← (parts "hour").padded 2
  let minuteText ← (parts "minute").padded 2
  let start := hourText ++ ":" ++ minuteText
  let shown ← if ← second.above (.ofNat 0) then pure true else nano.above (.ofNat 0)
  if shown then
    let secondText ← second.padded 2
    let fraction ←
      if ← nano.above (.ofNat 0) then (fractionOfPart nano).map ("." ++ ·) else pure ""
    pure (start ++ ":" ++ secondText ++ fraction)
  else pure start

/-- The largest integral number that is at most a number. -/
def floor (x : Double) : Double :=
  match x with
  | .finite negative m e =>
    let r := Double.ratio m e
    if negative ∧ m = 0 then x else Double.ofInt (Double.signed negative r.1 / r.2)
  | _ => x

/-- The text of a time with its seconds. -/
def formatOfParts (parts : Parts) : Except Failure String := do
  let nano := parts "nano"
  let hourText ← (parts "hour").padded 2
  let minuteText ← (parts "minute").padded 2
  let secondText ← (parts "second").padded 2
  let start := hourText ++ ":" ++ minuteText ++ ":" ++ secondText
  if nano.value.identical (.number Double.zero) then pure start
  else
    let micros ← (← nano.dividedBy (.ofNat 1000)).number
    let fraction ← (Operand.ofNumber (floor micros)).padded 6
    pure (start ++ "." ++ fraction)

/-- Nanoseconds from midnight. -/
def nanosOfParts (parts : Parts) : Except Failure Operand := do
  let hours ← (parts "hour").times (.ofNat 3600)
  let minutes ← (parts "minute").times (.ofNat 60)
  let sum ← hours.plus minutes
  let seconds ← sum.plus (parts "second")
  let nanos ← seconds.times (.ofNat nanosPerSecond)
  nanos.plus (parts "nano")

end LocalTime

/-- The text of a date and time. -/
def LocalDateTime.textOfParts (parts : Parts) : Except Failure String := do
  let date ← (parts "date").spoken "this.date"
  let time ← (parts "time").spoken "this.time"
  pure (date ++ "T" ++ time)

namespace Value

/-! ## Errors and lists -/

/-- The text of an error. -/
def errorTextOfParts (parts : Parts) : Except Failure String := do
  let textOr (whenMissing : String) (x : Operand) : Except Failure String :=
    match x.value with
    | .missing => pure whenMissing
    | _ => x.text ()
  let name ← textOr Archetype.error.maker (parts "name")
  let message ← textOr "" (parts "message")
  pure (errorText name message)

/-- The greatest count of items of a list. -/
def longestList : Nat := 4294967295

/-- The text of a list: the texts of its items, where absent items are empty. -/
def listTextOfParts (parts : Parts) : Except Failure String := do
  let length := Operand.lengthOf (← (parts "length").number)
  if longestList < length then .error (Operand.refusal "Invalid array length")
  else if Text.longest < length then .error Decimal.tooLong
  else
    let texts ← (List.range length).mapM fun i =>
      let item := parts (Nat.repr i)
      if item.value.isAbsent then pure "" else item.text ()
    pure (",".intercalate texts)

/-! ## Objects with a parent -/

/-- What asking for the text of an object without one gives. -/
def noText (v : Value) : Failure :=
  if v.isA .instant && (v.held? "valueOf").isNone then Operand.noInstant
  else Operand.refusal "Cannot convert object to primitive value"

/-- The default text of an object whose text is that of an archetype, made from its
parts. -/
def textOfParts (v : Value) (parts : Parts) : Except Failure String :=
  match v.textOwner? with
  | some .object => .ok v.objectText
  | some .list => if (v.held? "join").isSome then .ok v.objectText else listTextOfParts parts
  | some .sequence =>
    if (v.held? "join").isSome then .ok v.objectText
    else .error (v.incompatible "%TypedArray%.prototype.join")
  | some .instant => .error (v.incompatible "Date.prototype.toString")
  | some .decimal => Decimal.textOfParts parts
  | some .date => LocalDate.textOfParts parts
  | some .time => LocalTime.textOfParts parts
  | some .dateTime => LocalDateTime.textOfParts parts
  | some .error => errorTextOfParts parts
  | _ => .error v.noText

end Value

end WarehouseRows

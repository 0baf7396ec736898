import WarehouseRows.Value.Text

/-!
# Making values

Decimals, dates, times and pairs of them are made from other values or read from text.
What a maker does not look at, it does not judge: a decimal takes any value for its
unscaled integer, and a date with a time takes any two values. A result with such a part
is an heir of its archetype which holds the part as it was given.

## Main definitions

* `Archetype.make?`: what an archetype makes from arguments, by the name of the way.
* `Decimal.make`, `Decimal.read`, `Decimal.gather`: decimals from parts, text and bytes.
* `LocalDate.make`, `LocalDate.count`, `LocalDate.read`: dates.
* `LocalTime.make`, `LocalTime.count`, `LocalTime.read`: times.
* `LocalDateTime.make`, `LocalDateTime.read`: dates with a time.
-/

namespace WarehouseRows

/-- The refusal to go through the items of a value that has none. -/
def Value.noItems : Failure :=
  Operand.refusal "The value is not iterable"

/-! ## Decimals -/

namespace Decimal

/-- A decimal from its unscaled integer and its scale, which has to be an integral
number. -/
def make (unscaled scale : Value) : Except Failure Value := do
  let refused : Except Failure Value := do
    let text ← scale.text
    .error (.conversion (notWhole text))
  match scale with
  | .number x =>
    match unscaled, Scale.ofDouble? x with
    | .integer n, some s => pure (.decimal ⟨n, s⟩)
    | u, some _ => pure (.heir [("unscaled", u), ("scale", scale)] (.archetype .decimal))
    | _, none => refused
  | _ => refused

/-- The decimal that a text denotes. -/
def read : Value → Except Failure Value
  | .string s => ((parse s).map .decimal).mapError .conversion
  | .null => .error (Value.nothingToAsk "null" "trim")
  | .missing => .error (Value.nothingToAsk "undefined" "trim")
  | _ => .error (Operand.noFunction "text.trim")

/-- The union of the bits of two integers in two's complement. -/
def unionBits : Int → Int → Int
  | .ofNat a, .ofNat b => .ofNat (a ||| b)
  | .ofNat a, .negSucc b => .negSucc (b - (b &&& a))
  | .negSucc a, .ofNat b => .negSucc (a - (a &&& b))
  | .negSucc a, .negSucc b => .negSucc (a &&& b)

/-- The items that count as bytes, most significant first. -/
def digitItems : Value → Except Failure (List Value)
  | .bytes bs => .ok (bs.map fun b => Value.count b.toNat)
  | .list items => .ok items
  | .string s => .ok (s.toList.map fun c => .string (String.ofList [c]))
  | .map entries => .ok (entries.map fun e => .list [e.1, e.2])
  | .heir members parent => do
    let v := Value.heir members parent
    match v.root with
    | .list _ => do
      let length ← (v.parts "length").number
      pure ((List.range (Operand.lengthOf length)).map fun i => v.member (Nat.repr i))
    | _ => .error Value.noItems
  | _ => .error Value.noItems

/-- Whether the eighth bit of a number is set. -/
def hasSignBit (x : Double) : Bool :=
  decide (128 ≤ (x.truncated?.getD 0) % 256)

/-- A decimal from items that count as the two's complement bytes of its unscaled
integer. -/
def gatherItems (bytes scale : Value) : Except Failure Value := do
  let items ← digitItems bytes
  let magnitude ← items.foldlM (fun n item => do
    let digit ← item.operand.integer
    pure (unionBits (n * 256) digit)) 0
  let first := bytes.member "0"
  let negative ← match first, ← first.operand.numeric with
    | .missing, _ => pure false
    | _, .number x => pure (hasSignBit x)
    | _, .integer _ => .error Operand.mixed
  if negative then do
    let length ← (← (bytes.parts "length").times (.ofNat 8)).integer
    if (integerBits : Int) ≤ length then .error tooLarge
    else make (.integer (magnitude - Nat.pow 2 length.toNat)) scale
  else make (.integer magnitude) scale

/-- A decimal from the two's complement bytes of its unscaled integer, which may be any
items that are integers. -/
def gather (bytes scale : Value) : Except Failure Value :=
  match bytes, scale with
  | .bytes bs, .number x => ((ofBytes bs x).map .decimal).mapError .conversion
  | _, _ => gatherItems bytes scale

end Decimal

/-! ## Dates -/

namespace LocalDate

/-- The refusal of a year, a month and a day that are no date. -/
def noDate (year month day : Value) : Failure :=
  match year.text, month.text, day.text with
  | .ok y, .ok m, .ok d =>
    .conversion { code := .invalidValue, message := s!"Invalid date: {y}-{m}-{d}" }
  | .error f, _, _ => f
  | _, .error f, _ => f
  | _, _, .error f => f

/-- A date from its year, its month and its day. The year and the day have to be numbers;
the month may be anything that counts as one. -/
def make (year month day : Value) : Except Failure Value :=
  match year, month, day with
  | .number y, .number m, .number d => ((ofParts y m d).map .date).mapError .conversion
  | _, _, _ => do
    let before ← (← month.operand.minus (.ofNat 1)).number
    let y ← year.operand.number
    let d ← day.operand.number
    match year, day, ofParts y (before.add (Double.ofNat 1)) d with
    | .number _, .number _, .ok _ =>
      pure (.heir [("year", year), ("month", month), ("day", day)] (.archetype .date))
    | _, _, _ => .error (noDate year month day)

/-- The date that lies a number of days after 1970-01-01. -/
def count (days : Value) : Except Failure Value := do
  let millis ← (← days.operand.times (.ofNat Instant.millisPerDay)).number
  pure (.date (ofInstant (Instant.ofNumber millis)))

/-- The date that the text of a value denotes. -/
def read (v : Value) : Except Failure Value := do
  let text ← v.text
  ((parse text).map .date).mapError .conversion

end LocalDate

/-! ## Times -/

namespace LocalTime

/-- The number that a value is; `nan` for a value that is no number. -/
def partOf : Value → Double
  | .number x => x
  | _ => .nan

/-- The refusal of four values that are no time. -/
def noTime (hour minute second nano : Value) : Failure :=
  match hour.text, minute.text, second.text, nano.text with
  | .ok h, .ok m, .ok s, .ok n =>
    .conversion { code := .invalidValue, message := s!"Invalid time: {h}:{m}:{s}.{n}" }
  | .error f, _, _, _ => f
  | _, .error f, _, _ => f
  | _, _, .error f, _ => f
  | _, _, _, .error f => f

/-- Zero in place of a missing value. -/
def orZero : Value → Value
  | .missing => .number Double.zero
  | v => v

/-- A time from its parts; the second and the nanosecond may be left out. -/
def make (hour minute second nano : Value) : Except Failure Value :=
  let s := orZero second
  let n := orZero nano
  match ofParts (partOf hour) (partOf minute) (partOf s) (partOf n) with
  | .ok time => .ok (.time time)
  | .error _ => .error (noTime hour minute s n)

/-- The time that lies a number of nanoseconds after midnight. -/
def count (nanos : Value) : Except Failure Value :=
  match nanos with
  | .number x => ((ofNanoOfDay x).map .time).mapError .conversion
  | v => do
    let text ← v.text
    .error <| .conversion
      { code := .invalidValue, message := s!"Nano of day out of range: {text}" }

/-- The time that the text of a value denotes. -/
def read (v : Value) : Except Failure Value := do
  let text ← v.text
  ((parse text).map .time).mapError .conversion

end LocalTime

/-! ## Dates with a time -/

namespace LocalDateTime

/-- A date with a time, from any two values. -/
def make (date time : Value) : Value :=
  match date, time with
  | .date d, .time t => .dateTime ⟨d, t⟩
  | d, t => .heir [("date", d), ("time", t)] (.archetype .dateTime)

/-- The two parts of a list on both sides of its first `T`. -/
def split? (items : List Value) : Option (Value × Value) :=
  let isMark : Value → Bool
    | .string s => s == "T"
    | _ => false
  match items.dropWhile (!isMark ·) with
  | [] => none
  | _ :: after => some (.list (items.takeWhile (!isMark ·)), .list after)

/-- The date and time that a value denotes: a text, or a list whose items are the pieces
of a text. -/
def read (v : Value) : Except Failure Value := do
  let unreadable : Except Failure Value := do
    let text ← v.text
    .error (.conversion (LocalDate.unreadable "date-time" text))
  let ofItems (items : List Value) : Except Failure Value :=
    match split? items with
    | some (date, time) => do
      let d ← LocalDate.read date
      let t ← LocalTime.read time
      pure (make d t)
    | none => unreadable
  match v with
  | .string s => ((parse s).map .dateTime).mapError .conversion
  | .bytes _ => unreadable
  | .list items => ofItems items
  | .null => .error (Value.nothingToAsk "null" "indexOf")
  | .missing => .error (Value.nothingToAsk "undefined" "indexOf")
  | v =>
    match v.held? "indexOf", v.root with
    | none, .list _ => do ofItems (← Decimal.digitItems v)
    | _, _ => .error (Operand.noFunction "text.indexOf")

end LocalDateTime

/-! ## By name -/

/-- What an archetype makes from arguments, by the name of the way; `none` if it knows
no such way. -/
def Archetype.make? (k : Archetype) (name : String) (args : List Value) :
    Option (Except Failure Value) :=
  let arg (i : Nat) : Value := args.getD i .missing
  match k, name with
  | .decimal, "of" => some (Decimal.make (arg 0) (arg 1))
  | .decimal, "parse" => some (Decimal.read (arg 0))
  | .decimal, "fromUnscaledBytes" => some (Decimal.gather (arg 0) (arg 1))
  | .date, "of" => some (LocalDate.make (arg 0) (arg 1) (arg 2))
  | .date, "ofEpochDay" => some (LocalDate.count (arg 0))
  | .date, "parse" => some (LocalDate.read (arg 0))
  | .time, "of" => some (LocalTime.make (arg 0) (arg 1) (arg 2) (arg 3))
  | .time, "ofNanoOfDay" => some (LocalTime.count (arg 0))
  | .time, "parse" => some (LocalTime.read (arg 0))
  | .dateTime, "of" => some (.ok (LocalDateTime.make (arg 0) (arg 1)))
  | .dateTime, "parse" => some (LocalDateTime.read (arg 0))
  | _, _ => none

end WarehouseRows

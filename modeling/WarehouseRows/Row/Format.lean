import WarehouseRows.Calendar.LocalDateTime
import WarehouseRows.Error.Failure

/-!
# Fixed text formats

An instant is written as `yyyy-MM-dd HH:mm:ss.SSS UTC` and read with up to six
digits behind the point, of which three count. A time of day, alone or behind a
date, always has its seconds; a fraction is written with six digits and only when
it is not zero. A 32-bit number is written with the fewest digits that still round
to it.

## Main definitions

* `Timestamp.format`, `Timestamp.parse`: the text of an instant.
* `Timestamp.parseEpochSeconds`: an instant from fractional seconds.
* `LocalTime.format`, `LocalDateTime.format`, `LocalDateTime.parseFixed`: times.
* `Single.format`: a 32-bit number.
-/

namespace WarehouseRows

/-- The failure to read text in a format. -/
def unreadableAs (format text : String) : ConversionError :=
  { code := .invalidValue
    message := s!"Cannot parse \"{text}\" as {format}"
    valueType := some "string" }

/-! ## Instants -/

namespace Timestamp

/-- A year filled up to four characters; the minus sign of a negative year counts as
one of them and stands behind the fill. -/
def yearText (year : Int) : List Char :=
  Text.padLeft '0' 4 (toString year).toList

/-- The characters of a count of milliseconds. -/
def chars (millis : Int) : List Char :=
  let c := Instant.clock millis
  yearText c.date.year ++ '-' :: Instant.pad 2 c.date.month ++ '-' :: Instant.pad 2 c.date.day ++
    ' ' :: Instant.pad 2 c.hour ++ ':' :: Instant.pad 2 c.minute ++ ':' :: Instant.pad 2 c.second ++
    '.' :: Instant.pad 3 c.milli ++ " UTC".toList

/-- The text of an instant. -/
def format : Instant → Except ConversionError String
  | .at millis => .ok (String.ofList (chars millis))
  | .invalid =>
    .error
      { code := .invalidValue
        message := "Cannot format an invalid Date as a TIMESTAMP"
        valueType := some "Date" }

/-- The numbers in the text of an instant. -/
structure Fields where
  year : Nat
  month : Nat
  day : Nat
  hour : Nat
  minute : Nat
  second : Nat
  milli : Nat
  deriving DecidableEq, Repr

/-- A fraction in milliseconds and the rest: one to six digits after a point, of
which the first three count, or nothing. -/
def readFraction? (cs : List Char) : Option (Nat × List Char) :=
  match cs with
  | '.' :: rest =>
    let (digits, rest) := Text.splitDigits rest
    if digits.isEmpty || 6 < digits.length then none
    else some (Text.digitsValue ((Text.padRight '0' 3 digits).take 3), rest)
  | _ => some (0, cs)

/-- The numbers in the text of an instant, before their ranges are checked. -/
def readFields? (cs : List Char) : Option Fields := do
  let (year, rest) ← Text.exactDigits? 4 cs
  let rest ← Text.expect? '-' rest
  let (month, rest) ← Text.exactDigits? 2 rest
  let rest ← Text.expect? '-' rest
  let (day, rest) ← Text.exactDigits? 2 rest
  let rest ← Text.expect? ' ' rest
  let (hour, rest) ← Text.exactDigits? 2 rest
  let rest ← Text.expect? ':' rest
  let (minute, rest) ← Text.exactDigits? 2 rest
  let rest ← Text.expect? ':' rest
  let (second, rest) ← Text.exactDigits? 2 rest
  let (milli, rest) ← readFraction? rest
  if rest = " UTC".toList then
    pure
      { year := Text.digitsValue year
        month := Text.digitsValue month
        day := Text.digitsValue day
        hour := Text.digitsValue hour
        minute := Text.digitsValue minute
        second := Text.digitsValue second
        milli := milli }
  else none

/-- The instant of numbers that are a real date and a real time of day. A day that its
month does not have, and a month that the year does not have, count on, so that the
instant falls on another day or into another month. -/
def ofFields? (f : Fields) : Option Instant :=
  let n := CivilDate.epochDay f.year f.month f.day
  let millis := Instant.millisOf n f.hour f.minute f.second f.milli
  let date := (Instant.clock millis).date
  if f.hour ≤ 23 ∧ f.minute ≤ 59 ∧ f.second ≤ 59 ∧ date.month = f.month ∧ date.day = f.day then
    some (.at millis)
  else none

/-- The instant that text denotes. -/
def parse (text : String) : Except ConversionError Instant :=
  match (readFields? text.toList).bind ofFields? with
  | some t => .ok t
  | none => .error (unreadableAs "a TIMESTAMP" text)

/-- The instant that fractional seconds since the start of 1970 denote, cut to the
millisecond toward zero. -/
def parseEpochSeconds (text : String) : Except ConversionError Instant :=
  let seconds :=
    if (Text.trimChars text.toList).isEmpty then Double.nan else Double.ofText text
  if seconds.isFinite then .ok (Instant.ofNumber (seconds.timesNat 1000))
  else .error (unreadableAs "epoch seconds" text)

end Timestamp

/-! ## Times -/

namespace LocalTime

/-- The characters of a time with its seconds and, unless zero, six digits of the
fraction. -/
def formatChars (t : LocalTime) : List Char :=
  let nano := t.nano.toInt
  Instant.pad 2 t.hour.toInt ++ ':' :: Instant.pad 2 t.minute.toInt ++
    ':' :: Instant.pad 2 t.second.toInt ++
    (if nano = 0 then [] else '.' :: Instant.pad 6 (nano / 1000))

/-- The text of a time with its seconds. -/
def format (t : LocalTime) : String :=
  String.ofList t.formatChars

end LocalTime

namespace LocalDateTime

/-- The text of a date and a time with its seconds. -/
def format (x : LocalDateTime) : String :=
  String.ofList (x.date.chars ++ 'T' :: x.time.formatChars)

/-- Whether characters look like a date with a four-digit year, a `T`, and a time
with its seconds and no fraction or one of six digits. -/
def isFixed (cs : List Char) : Bool :=
  let layout := "dddd-dd-ddTdd:dd:dd".toList
  let fits (layout cs : List Char) : Bool :=
    (layout.zip cs).all fun (l, c) => if l = 'd' then c.isDigit else l == c
  let fraction := ".dddddd".toList
  (cs.length == layout.length && fits layout cs) ||
    (cs.length == layout.length + fraction.length && fits (layout ++ fraction) cs)

/-- The date and time that text in the fixed layout denotes. -/
def parseFixed (text : String) : Except ConversionError LocalDateTime :=
  if isFixed text.toList then do
    let date ← LocalDate.parse (String.ofList (text.toList.take 10))
    let time ← LocalTime.parse (String.ofList (text.toList.drop 11))
    pure ⟨date, time⟩
  else .error (unreadableAs "a DATETIME" text)

end LocalDateTime

/-! ## 32-bit numbers -/

namespace Single

/-- The text of a 32-bit number: the rounding of the value to the fewest digits, up
to nine, that reads back as it; the default text when there is none. -/
def format (x : Double) : String :=
  if x.isFinite then
    let candidates := (List.range 9).map fun i => x.roundDigits (i + 1)
    match candidates.find? fun c => c.toSingle.equal x with
    | some c => c.text
    | none => x.text
  else x.text

end Single

end WarehouseRows

import WarehouseRows.Calendar.Civil
import WarehouseRows.Number.Double
import WarehouseRows.Text.Digits

/-!
# Instants

An instant is a count of milliseconds from the start of 1970 in universal time. At
most one hundred million days lie on either side of that start; an operation that
leaves this range gives the invalid instant.

## Main definitions

* `Instant`: an instant, or the invalid one.
* `Instant.ofNumber`: the instant of a number of milliseconds.
* `Instant.isoText?`: the text with a `T` and a `Z`.
* `Instant.clock`: the fields of an instant in universal time.
-/

namespace WarehouseRows

/-- A point in time, to the millisecond. -/
inductive Instant where
  | invalid
  | at (millis : Int)
  deriving DecidableEq, Repr, Inhabited

/-- The calendar day and the time of day of an instant. -/
structure Clock where
  date : CivilDate
  hour : Int
  minute : Int
  second : Int
  milli : Int
  deriving DecidableEq, Repr

namespace Instant

/-- The milliseconds of a day. -/
def millisPerDay : Nat := 86400000

/-- The most days between an instant and the start of 1970. -/
def maxDays : Nat := 100000000

/-- The instant of a count of milliseconds; invalid outside the range. -/
def ofMillis (millis : Int) : Instant :=
  if millis.natAbs ≤ maxDays * millisPerDay then .at millis else .invalid

/-- The instant of a number of milliseconds, its fraction cut toward zero. -/
def ofNumber (x : Double) : Instant :=
  match x.truncated? with
  | some millis => ofMillis millis
  | none => .invalid

/-- The milliseconds as a number; `nan` for the invalid instant. -/
def toNumber : Instant → Double
  | .invalid => .nan
  | .at millis => Double.ofInt millis

/-- The fields of a count of milliseconds in universal time. -/
def clock (millis : Int) : Clock :=
  let ofDay := millis % millisPerDay
  { date := CivilDate.ofEpochDay (millis / millisPerDay)
    hour := ofDay / 3600000
    minute := ofDay / 60000 % 60
    second := ofDay / 1000 % 60
    milli := ofDay % 1000 }

/-- The milliseconds of a calendar day and a time of day. -/
def millisOf (epochDay hour minute second milli : Int) : Int :=
  epochDay * millisPerDay + hour * 3600000 + minute * 60000 + second * 1000 + milli

/-! ## Text -/

/-- An integer with zeros in front, up to `width` digits; not for negative ones. -/
def pad (width : Nat) (n : Int) : List Char :=
  Text.padNat width n.natAbs

/-- A year in four digits, or in six with a sign when it needs more or is before
year zero. -/
def isoYear (year : Int) : List Char :=
  if 0 ≤ year ∧ year ≤ 9999 then pad 4 year
  else (if year < 0 then '-' else '+') :: pad 6 year

/-- The text with a `T` and a `Z`; `none` for the invalid instant. -/
def isoText? : Instant → Option String
  | .invalid => none
  | .at millis =>
    let c := clock millis
    some <| String.ofList <|
      isoYear c.date.year ++ '-' :: pad 2 c.date.month ++ '-' :: pad 2 c.date.day ++
        'T' :: pad 2 c.hour ++ ':' :: pad 2 c.minute ++ ':' :: pad 2 c.second ++
        '.' :: pad 3 c.milli ++ ['Z']

/-- The short names of the days of the week, from the day number zero on. -/
def dayNames : List String := ["Thu", "Fri", "Sat", "Sun", "Mon", "Tue", "Wed"]

/-- The short names of the months. -/
def monthNames : List String :=
  ["Jan", "Feb", "Mar", "Apr", "May", "Jun", "Jul", "Aug", "Sep", "Oct", "Nov", "Dec"]

/-- The text in words, in universal time. -/
def longText : Instant → String
  | .invalid => "Invalid Date"
  | .at millis =>
    let c := clock millis
    let weekday := dayNames.getD (millis / millisPerDay % 7).toNat ""
    let month := monthNames.getD (c.date.month - 1).toNat ""
    let sign := if c.date.year < 0 then ['-'] else []
    s!"{weekday} {month} " ++ String.ofList
      (pad 2 c.date.day ++ ' ' :: sign ++ pad 4 c.date.year ++ ' ' :: pad 2 c.hour ++
        ':' :: pad 2 c.minute ++ ':' :: pad 2 c.second) ++
      " GMT+0000 (Coordinated Universal Time)"

end Instant

end WarehouseRows

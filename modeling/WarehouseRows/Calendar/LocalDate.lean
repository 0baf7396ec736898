import WarehouseRows.Calendar.Instant
import WarehouseRows.Error.Conversion
import WarehouseRows.Number.Reading
import WarehouseRows.Number.Shortest

/-!
# Dates without a time zone

A date is a real day of the calendar, from -271821-04-20 to 275760-09-13. A day
count beyond that range gives the invalid date, whose parts are no numbers. The
year zero may carry a minus sign, which its text does not show.

## Main definitions

* `LocalDate`: a date, or the invalid one.
* `LocalDate.ofParts`: the date of a year, a month and a day, if it is real.
* `LocalDate.ofDayCount`, `LocalDate.epochDay?`: day numbers.
* `LocalDate.parse`, `LocalDate.text`: the text with two hyphens.
-/

namespace WarehouseRows

/-- A calendar date without a time zone. -/
inductive LocalDate where
  | invalid
  | on (year : Whole) (month day : Int)
  deriving DecidableEq, Repr, Inhabited

namespace LocalDate

/-! ## Building -/

/-- Whether a year, a month and a day are a real date in the range: counting to
its day number and back gives the same date. -/
def isReal (year month day : Int) : Bool :=
  let n := CivilDate.epochDay year month day
  n.natAbs ≤ Instant.maxDays && CivilDate.ofEpochDay n == ⟨year, month, day⟩

/-- The date of a year, a month and a day, if it is real. -/
def ofWhole? (year month day : Whole) : Option LocalDate :=
  if isReal year.toInt month.toInt day.toInt then some (.on year month.toInt day.toInt) else none

/-- The date of three numbers. -/
def ofParts (year month day : Double) : Except ConversionError LocalDate :=
  let date? := do
    let y ← Whole.ofDouble? year
    let m ← Whole.ofDouble? month
    let d ← Whole.ofDouble? day
    ofWhole? y m d
  match date? with
  | some date => .ok date
  | none =>
    .error
      { code := .invalidValue
        message := s!"Invalid date: {year.text}-{month.text}-{day.text}" }

/-- The date of an instant in universal time. -/
def ofInstant : Instant → LocalDate
  | .invalid => .invalid
  | .at millis =>
    let date := (Instant.clock millis).date
    .on (.ofInt date.year) date.month date.day

/-- The date that lies a number of days after 1970-01-01. -/
def ofDayCount (days : Double) : LocalDate :=
  ofInstant (Instant.ofNumber (days.timesNat Instant.millisPerDay))

/-! ## Reading off -/

/-- The day number of a date. -/
def epochDay? : LocalDate → Option Int
  | .invalid => none
  | .on year month day => some (CivilDate.epochDay year.toInt month day)

/-- The day number of a date as a number; `nan` for the invalid date. -/
def toDayCount (date : LocalDate) : Double :=
  match date.epochDay? with
  | some n => Double.ofInt n
  | none => .nan

/-- The three parts as numbers. -/
def parts : LocalDate → Double × Double × Double
  | .invalid => (.nan, .nan, .nan)
  | .on year month day => (year.toDouble, Double.ofInt month, Double.ofInt day)

/-- Same date. The invalid date is not even the same as itself. -/
def same : LocalDate → LocalDate → Bool
  | .on y₁ m₁ d₁, .on y₂ m₂ d₂ => y₁.toInt == y₂.toInt && m₁ == m₂ && d₁ == d₂
  | _, _ => false

/-! ## Text -/

/-- A year of at least four digits, with a minus sign when it is negative. -/
def yearText (year : Int) : List Char :=
  (if year < 0 then ['-'] else []) ++ Instant.pad 4 year

/-- The characters of a date. -/
def chars : LocalDate → List Char
  | .invalid => "0NaN-NaN-NaN".toList
  | .on year month day =>
    yearText year.toInt ++ '-' :: Instant.pad 2 month ++ '-' :: Instant.pad 2 day

/-- The text of a date. -/
def text (date : LocalDate) : String :=
  String.ofList date.chars

/-- The year, the month and the day of date text: an optional minus sign and at
least four digits, then two and two digits after hyphens. -/
def readParts? (cs : List Char) : Option (Whole × Nat × Nat) := do
  let negative := cs.head? == some '-'
  let (year, rest) := Text.splitDigits (if negative then cs.drop 1 else cs)
  let rest ← Text.expect? '-' rest
  let (month, rest) ← Text.exactDigits? 2 rest
  let rest ← Text.expect? '-' rest
  let (day, rest) ← Text.exactDigits? 2 rest
  if year.length < 4 ∨ !rest.isEmpty then none
  else
    let n := Text.digitsValue year
    let year : Whole := if negative && n == 0 then .negZero else .ofInt (Double.signed negative n)
    pure (year, Text.digitsValue month, Text.digitsValue day)

/-- The date that characters denote. -/
def ofChars? (cs : List Char) : Option LocalDate := do
  let (year, month, day) ← readParts? cs
  ofWhole? year (.ofInt month) (.ofInt day)

/-- The failure to read text of some kind. -/
def unreadable (kind text : String) : ConversionError :=
  { code := .invalidValue
    message := s!"Cannot parse \"{text}\" as a {kind}"
    valueType := some "string" }

/-- The date that text denotes. -/
def parse (text : String) : Except ConversionError LocalDate :=
  match ofChars? text.toList with
  | some date => .ok date
  | none => .error (unreadable "date" text)

end LocalDate

end WarehouseRows

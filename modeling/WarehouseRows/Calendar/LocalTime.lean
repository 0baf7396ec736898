import WarehouseRows.Calendar.LocalDate

/-!
# Times of day

A time of day is an hour, a minute, a second and a nanosecond. Each part is an
integer as a binary64 number holds it, so a zero may carry a minus sign, which the
text does not show.

## Main definitions

* `LocalTime`: a time of day.
* `LocalTime.ofParts`: the time of four numbers, if each is in its range.
* `LocalTime.ofNanoOfDay`, `LocalTime.nanoOfDay`: nanoseconds from midnight.
* `LocalTime.parse`, `LocalTime.text`: the text that leaves out zero seconds.
-/

namespace WarehouseRows

/-- A time of day without a time zone. -/
structure LocalTime where
  hour : Whole
  minute : Whole
  second : Whole
  nano : Whole
  deriving DecidableEq, Repr, Inhabited

namespace LocalTime

/-- The nanoseconds of a second. -/
def nanosPerSecond : Nat := 1000000000

/-- The nanoseconds of a day. -/
def nanosPerDay : Nat := 86400 * nanosPerSecond

/-! ## Building -/

/-- Whether an integer lies from zero up to, but not including, a bound. -/
def inBound (bound : Nat) (n : Whole) : Bool :=
  0 ≤ n.toInt && n.toInt < bound

/-- The time of four integers, if each is in its range. -/
def ofWhole? (hour minute second nano : Whole) : Option LocalTime :=
  if inBound 24 hour && inBound 60 minute && inBound 60 second && inBound nanosPerSecond nano then
    some ⟨hour, minute, second, nano⟩
  else none

/-- The time of four numbers. -/
def ofParts (hour minute second nano : Double) : Except ConversionError LocalTime :=
  let time? := do
    let h ← Whole.ofDouble? hour
    let m ← Whole.ofDouble? minute
    let s ← Whole.ofDouble? second
    let n ← Whole.ofDouble? nano
    ofWhole? h m s n
  match time? with
  | some time => .ok time
  | none =>
    .error
      { code := .invalidValue
        message := s!"Invalid time: {hour.text}:{minute.text}:{second.text}.{nano.text}" }

/-- The time that lies `n` nanoseconds after midnight, for an `n` inside a day. -/
def ofNanos (n : Nat) : LocalTime :=
  let seconds := n / nanosPerSecond
  ⟨.ofInt (seconds / 3600 : Nat), .ofInt (seconds / 60 % 60 : Nat), .ofInt (seconds % 60 : Nat),
    .ofInt (n % nanosPerSecond : Nat)⟩

/-- Midnight with a minus sign on every part. -/
def negMidnight : LocalTime :=
  ⟨.negZero, .negZero, .negZero, .negZero⟩

/-- The time that lies a number of nanoseconds after midnight. -/
def ofNanoOfDay (nanos : Double) : Except ConversionError LocalTime :=
  match Whole.ofDouble? nanos with
  | some .negZero => .ok negMidnight
  | some (.ofInt n) => if 0 ≤ n ∧ n < nanosPerDay then .ok (ofNanos n.toNat) else outOfRange
  | none => outOfRange
where
  /-- The failure for a number outside a day. -/
  outOfRange : Except ConversionError LocalTime :=
    .error
      { code := .invalidValue
        message := s!"Nano of day out of range: {nanos.text}" }

/-! ## Reading off -/

/-- Nanoseconds from midnight. -/
def nanoOfDay (t : LocalTime) : Int :=
  (t.hour.toInt * 3600 + t.minute.toInt * 60 + t.second.toInt) * nanosPerSecond + t.nano.toInt

/-- Nanoseconds from midnight as a number; a zero has a minus sign when every part
has one. -/
def toNanoOfDay (t : LocalTime) : Double :=
  if t = negMidnight then Double.negZero else Double.ofInt t.nanoOfDay

/-- Same time of day. -/
def same (a b : LocalTime) : Bool :=
  a.nanoOfDay == b.nanoOfDay

/-! ## Text -/

/-- The fraction of a second in 3, 6 or 9 digits, as few as are exact; nothing for
zero. -/
def fractionText (nano : Int) : List Char :=
  if nano = 0 then []
  else if nano % 1000000 = 0 then '.' :: Instant.pad 3 (nano / 1000000)
  else if nano % 1000 = 0 then '.' :: Instant.pad 6 (nano / 1000)
  else '.' :: Instant.pad 9 nano

/-- The characters of a time; seconds are left out when they and the fraction are
zero. -/
def chars (t : LocalTime) : List Char :=
  let seconds :=
    if t.second.toInt = 0 ∧ t.nano.toInt = 0 then []
    else ':' :: Instant.pad 2 t.second.toInt ++ fractionText t.nano.toInt
  Instant.pad 2 t.hour.toInt ++ ':' :: Instant.pad 2 t.minute.toInt ++ seconds

/-- The text of a time. -/
def text (t : LocalTime) : String :=
  String.ofList t.chars

/-- A fraction of a second in nanoseconds: one to nine digits after a point, or
nothing. -/
def readFraction? (cs : List Char) : Option Nat :=
  match cs with
  | [] => some 0
  | '.' :: digits =>
    if digits.isEmpty || 9 < digits.length || !digits.all Char.isDigit then none
    else some (Text.digitsValue (Text.padRight '0' 9 digits))
  | _ => none

/-- The seconds and nanoseconds behind the minutes, or nothing. -/
def readSeconds? (cs : List Char) : Option (Nat × Nat) :=
  match cs with
  | [] => some (0, 0)
  | ':' :: rest => do
    let (second, rest) ← Text.exactDigits? 2 rest
    let nano ← readFraction? rest
    pure (Text.digitsValue second, nano)
  | _ => none

/-- The time that characters denote: two digits each for the hour and the minute,
optionally the second, and then optionally a fraction. -/
def ofChars? (cs : List Char) : Option LocalTime := do
  let (hour, rest) ← Text.exactDigits? 2 cs
  let rest ← Text.expect? ':' rest
  let (minute, rest) ← Text.exactDigits? 2 rest
  let (second, nano) ← readSeconds? rest
  ofWhole? (.ofInt (Text.digitsValue hour)) (.ofInt (Text.digitsValue minute)) (.ofInt second)
    (.ofInt nano)

/-- The time that text denotes. -/
def parse (text : String) : Except ConversionError LocalTime :=
  match ofChars? text.toList with
  | some time => .ok time
  | none => .error (LocalDate.unreadable "time" text)

end LocalTime

end WarehouseRows

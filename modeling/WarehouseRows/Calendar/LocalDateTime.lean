import WarehouseRows.Calendar.LocalTime

/-!
# Dates with a time of day

## Main definitions

* `LocalDateTime`: a date and a time of day, without a time zone.
* `LocalDateTime.parse`, `LocalDateTime.text`: the two texts with a `T` between.
-/

namespace WarehouseRows

/-- A date and a time of day. -/
structure LocalDateTime where
  date : LocalDate
  time : LocalTime
  deriving DecidableEq, Repr, Inhabited

namespace LocalDateTime

/-- Same date and same time. -/
def same (a b : LocalDateTime) : Bool :=
  a.date.same b.date && a.time.same b.time

/-- The text: a date, a `T`, a time. -/
def text (x : LocalDateTime) : String :=
  String.ofList (x.date.chars ++ 'T' :: x.time.chars)

/-- The date and time that text denotes; the first `T` divides them. -/
def parse (text : String) : Except ConversionError LocalDateTime :=
  let cs := text.toList
  match cs.dropWhile (· != 'T') with
  | [] => .error (LocalDate.unreadable "date-time" text)
  | _ :: timeChars => do
    let date ← LocalDate.parse (String.ofList (cs.takeWhile (· != 'T')))
    let time ← LocalTime.parse (String.ofList timeChars)
    pure ⟨date, time⟩

end LocalDateTime

end WarehouseRows

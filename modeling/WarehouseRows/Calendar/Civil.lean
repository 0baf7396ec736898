/-!
# Calendar days

Days are numbered from 1970-01-01 in the Gregorian calendar, extended to all
years in both directions. A day number is found from a year, a month and a day of
the month by counting; a month outside 1 to 12 or a day outside its month counts on
into the neighbouring years and months.

## Main definitions

* `CivilDate`: a year, a month and a day of the month.
* `CivilDate.epochDay`: the day number of a year, a month and a day.
* `CivilDate.ofEpochDay`: the date of a day number.
-/

namespace WarehouseRows

/-- A year, a month and a day of the month. -/
structure CivilDate where
  year : Int
  month : Int
  day : Int
  deriving DecidableEq, Repr, Inhabited

namespace CivilDate

/-- Days from the start of a year that begins in March to the start of its month
`m`, where March is month zero. -/
def daysBeforeMonth (m : Int) : Int :=
  (153 * m + 2) / 5

/-- Days from 0000-03-01 to the first of March of year `y`. -/
def daysBeforeYear (y : Int) : Int :=
  365 * y + y / 4 - y / 100 + y / 400

/-- The day number of the day `day` of month `month` of `year`; months and days
that run over count on. -/
def epochDay (year month day : Int) : Int :=
  let months := month - 3
  daysBeforeYear (year + months / 12) + daysBeforeMonth (months % 12) + day - 1 - 719468

/-- The date of a day number. -/
def ofEpochDay (n : Int) : CivilDate :=
  let z := n + 719468
  let era := z / 146097
  let doe := z % 146097
  let yoe := (doe - doe / 1460 + doe / 36524 - doe / 146096) / 365
  let doy := doe - (365 * yoe + yoe / 4 - yoe / 100)
  let mp := (5 * doy + 2) / 153
  let day := doy - daysBeforeMonth mp + 1
  let month := if mp < 10 then mp + 3 else mp - 9
  let year := yoe + era * 400 + (if month ≤ 2 then 1 else 0)
  ⟨year, month, day⟩

end CivilDate

end WarehouseRows

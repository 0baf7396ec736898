import WarehouseRows.Proofs.FixedLayout
import WarehouseRows.Proofs.Whole

/-!
# The layout of dates

A date is written as a year of at least four digits, which may have a minus sign in front, and a
month and a day of two digits each, with hyphens between them. The reader takes a text apart from
the left; what it takes is just this layout, and the numbers are those of the parts.

## Main definitions

* `LocalDate.DateText`: the layout, with the digits of its parts.

## Main results

* `LocalDate.readParts?_eq_some`: the texts whose numbers are read.
* `LocalDate.ofChars?_eq_some`: the texts that are read as dates.
-/

namespace WarehouseRows.LocalDate

open Text

/-! ## The layout -/

/-- The parts of a text in the layout of dates. -/
structure DateText where
  negative : Bool
  year : List Char
  month : List Char
  day : List Char
  isYear : ∀ c ∈ year, c.isDigit = true
  long : 4 ≤ year.length
  isMonth : IsDigits 2 month
  isDay : IsDigits 2 day

namespace DateText

variable (x : DateText)

/-- The characters behind the sign. -/
def body : List Char :=
  x.year ++ '-' :: (x.month ++ '-' :: x.day)

/-- The characters of the text. -/
def chars : List Char :=
  signChars x.negative ++ x.body

/-- The text. -/
def text : String :=
  String.ofList x.chars

/-- The numbers of the text; a zero for the year keeps the minus sign. -/
def parts : Whole × Nat × Nat :=
  (Whole.signed x.negative (digitsValue x.year), digitsValue x.month, digitsValue x.day)

/-- The calendar day that the text denotes. -/
def civil : CivilDate :=
  ⟨Double.signed x.negative (digitsValue x.year), digitsValue x.month, digitsValue x.day⟩

/-- The date that the text denotes. -/
def date : LocalDate :=
  .on (Whole.signed x.negative (digitsValue x.year)) (digitsValue x.month) (digitsValue x.day)

/-- Behind the sign stands a digit. -/
theorem head?_body : (x.body.head? == some '-') = false := by
  obtain ⟨negative, year, month, day, isYear, long, isMonth, isDay⟩ := x
  cases year with
  | nil => exact absurd long (by decide)
  | cons c year =>
    have hdigit := isYear c List.mem_cons_self
    have hne : c ≠ '-' := by
      rintro rfl
      exact absurd hdigit (by decide)
    simpa [body] using hne

end DateText

/-! ## Reading -/

/-- The numbers of a text in the layout are read. -/
theorem readParts?_chars (x : DateText) : readParts? x.chars = some x.parts := by
  have hyear : splitDigits x.body = (x.year, '-' :: (x.month ++ '-' :: x.day)) :=
    splitDigits_append x.isYear (endsRun_cons _ rfl)
  have hmonth : exactDigits? 2 (x.month ++ '-' :: x.day) = some (x.month, '-' :: x.day) :=
    exactDigits?_eq_some.mpr ⟨x.isMonth, rfl⟩
  have hday : exactDigits? 2 x.day = some (x.day, []) :=
    exactDigits?_eq_some.mpr ⟨x.isDay, (List.append_nil _).symm⟩
  have hlong : ¬(x.year.length < 4 ∨ (!([] : List Char).isEmpty) = true) := by
    simp [x.long]
  cases hsign : x.negative with
  | true =>
    simp only [DateText.chars, signChars, hsign, readParts?, if_true, List.cons_append,
      List.nil_append, List.head?_cons, List.drop_succ_cons, List.drop_zero, BEq.rfl, hyear,
      expect?_cons, hmonth, hday, hlong, Option.bind_eq_bind, Option.bind_some, if_false,
      DateText.parts, Whole.signed]
    rfl
  | false =>
    simp only [DateText.chars, signChars, hsign, readParts?, Bool.false_eq_true, if_false,
      List.nil_append, x.head?_body, hyear, expect?_cons, hmonth, hday, hlong,
      Option.bind_eq_bind, Option.bind_some, DateText.parts, Whole.signed]
    rfl

/-- The texts in the layout, and their numbers, are those that are read. -/
theorem readParts?_eq_some {cs : List Char} {parts : Whole × Nat × Nat} :
    readParts? cs = some parts ↔ ∃ x : DateText, cs = x.chars ∧ parts = x.parts := by
  constructor
  · intro h
    have hsign : cs = signChars (cs.head? == some '-') ++
        (if (cs.head? == some '-') = true then cs.drop 1 else cs) := by
      cases cs with
      | nil => rfl
      | cons c cs => by_cases hc : c = '-' <;> simp [signChars, hc]
    generalize hnegative : (cs.head? == some '-') = negative at hsign
    simp only [readParts?, hnegative] at h
    generalize (if negative = true then cs.drop 1 else cs) = body at h hsign
    obtain ⟨hbody, isYear⟩ := splitDigits_eq body
    obtain ⟨behind, hdash, h⟩ := Option.bind_eq_some_iff.mp h
    obtain ⟨⟨month, _⟩, hmonth, h⟩ := Option.bind_eq_some_iff.mp h
    obtain ⟨_, hdash', h⟩ := Option.bind_eq_some_iff.mp h
    obtain ⟨⟨day, last⟩, hday, h⟩ := Option.bind_eq_some_iff.mp h
    simp only at hdash hdash' h
    split at h
    · exact absurd h (by simp)
    · rename_i hwhole
      simp only [not_or, Nat.not_lt, Bool.not_eq_true, Bool.not_eq_false', List.isEmpty_iff]
        at hwhole
      obtain ⟨long, rfl⟩ := hwhole
      obtain rfl := (Option.some.inj h).symm
      obtain ⟨isDay, rfl⟩ := exactDigits?_eq_some.mp hday
      obtain rfl := expect?_eq_some.mp hdash'
      obtain ⟨isMonth, rfl⟩ := exactDigits?_eq_some.mp hmonth
      rw [expect?_eq_some.mp hdash, List.append_nil] at hbody
      exact ⟨⟨negative, _, month, day, isYear, long, isMonth, isDay⟩,
        hsign.trans (congrArg _ hbody), rfl⟩
  · rintro ⟨x, rfl, rfl⟩
    exact readParts?_chars x

/-- Exactly the texts in the layout are read whose year, month and day come back from their day
number. -/
theorem ofChars?_eq_some {cs : List Char} {date : LocalDate} :
    ofChars? cs = some date ↔
      ∃ x : DateText, cs = x.chars ∧
        isReal x.civil.year x.civil.month x.civil.day = true ∧ date = x.date := by
  constructor
  · intro h
    obtain ⟨parts, hparts, h⟩ := Option.bind_eq_some_iff.mp h
    obtain ⟨x, rfl, rfl⟩ := readParts?_eq_some.mp hparts
    simp only [DateText.parts, ofWhole?, Whole.toInt_signed, Whole.toInt_ofInt] at h
    split at h
    · rename_i hreal
      exact ⟨x, rfl, hreal, (Option.some.inj h).symm⟩
    · exact absurd h (by simp)
  · rintro ⟨x, rfl, hreal, rfl⟩
    simp only [DateText.civil] at hreal
    simp only [ofChars?, readParts?_chars, DateText.parts, Option.bind_eq_bind, Option.bind_some,
      ofWhole?, Whole.toInt_signed, Whole.toInt_ofInt, hreal, if_true]
    rfl

end WarehouseRows.LocalDate

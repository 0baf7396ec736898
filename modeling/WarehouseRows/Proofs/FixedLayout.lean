import WarehouseRows.Proofs.Digits
import WarehouseRows.Row.Format

/-!
# The layout of instants

The fixed format of an instant has a date, a time of day, perhaps a fraction of one to six digits,
and the mark of universal time. The reader goes through a text part by part; what it takes is just
this layout, and the numbers are those of the parts.

## Main definitions

* `Timestamp.FixedText`: the layout, with the digits of its parts.

## Main results

* `Timestamp.readFields?_eq_some`: the texts whose numbers are read.
-/

namespace WarehouseRows

namespace Text

/-- Whether characters are a given count of digits. -/
structure IsDigits (n : Nat) (cs : List Char) : Prop where
  length_eq : cs.length = n
  digits : ∀ c ∈ cs, c.isDigit = true

instance (n : Nat) (cs : List Char) : Decidable (IsDigits n cs) :=
  decidable_of_iff (cs.length = n ∧ cs.all Char.isDigit = true)
    ⟨fun h => ⟨h.1, List.all_eq_true.mp h.2⟩, fun h => ⟨h.length_eq, List.all_eq_true.mpr h.digits⟩⟩

theorem IsDigits.digitsValue_lt {n : Nat} {cs : List Char} (h : IsDigits n cs) :
    digitsValue cs < 10 ^ n := by
  have hlt := Text.digitsValue_lt h.digits
  rwa [h.length_eq] at hlt

theorem exactDigits?_eq_some {n : Nat} {cs ds rest : List Char} :
    exactDigits? n cs = some (ds, rest) ↔ IsDigits n ds ∧ cs = ds ++ rest := by
  constructor
  · intro h
    obtain ⟨happend, hdigits⟩ := eq_append_of_exactDigits? h
    exact ⟨⟨length_of_exactDigits? h, hdigits⟩, happend⟩
  · rintro ⟨hdigits, rfl⟩
    exact exactDigits?_append rest hdigits.length_eq hdigits.digits

theorem expect?_eq_some {c : Char} {cs rest : List Char} :
    expect? c cs = some rest ↔ cs = c :: rest := by
  constructor
  · exact eq_cons_of_expect?
  · rintro rfl
    exact expect?_cons c rest

end Text

namespace Timestamp

open Text

/-! ## The layout -/

/-- The parts of a text in the fixed format. Without digits behind the point there is no point. -/
structure FixedText where
  year : List Char
  month : List Char
  day : List Char
  hour : List Char
  minute : List Char
  second : List Char
  fraction : List Char
  isYear : IsDigits 4 year
  isMonth : IsDigits 2 month
  isDay : IsDigits 2 day
  isHour : IsDigits 2 hour
  isMinute : IsDigits 2 minute
  isSecond : IsDigits 2 second
  isFraction : ∀ c ∈ fraction, c.isDigit = true
  short : fraction.length ≤ 6

namespace FixedText

variable (x : FixedText)

/-- The characters behind the seconds. -/
def rest : List Char :=
  fractionChars x.fraction ++ " UTC".toList

/-- The characters of the text. -/
def chars : List Char :=
  x.year ++ '-' :: (x.month ++ '-' :: (x.day ++ ' ' :: (x.hour ++ ':' :: (x.minute ++ ':' ::
    (x.second ++ x.rest)))))

/-- The first three digits of the fraction; missing digits are zeros. -/
def milli : Nat :=
  digitsValue ((padRight '0' 3 x.fraction).take 3)

/-- The numbers of the text. -/
def fields : Fields where
  year := digitsValue x.year
  month := digitsValue x.month
  day := digitsValue x.day
  hour := digitsValue x.hour
  minute := digitsValue x.minute
  second := digitsValue x.second
  milli := x.milli

/-- What is left of the fraction is less than a second. -/
theorem milli_lt : x.milli < 1000 := by
  have hdigits : ∀ c ∈ (padRight '0' 3 x.fraction).take 3, c.isDigit = true := by
    intro c hc
    rcases List.mem_append.mp (List.mem_of_mem_take hc) with hc | hc
    · exact x.isFraction c hc
    · rw [(List.mem_replicate.mp hc).2]
      rfl
  refine Nat.lt_of_lt_of_le (digitsValue_lt hdigits) ?_
  exact Nat.pow_le_pow_right (by decide) (List.length_take_le _ _)

end FixedText

/-- A fraction of one to six digits is read behind a point, and no fraction where there is none. -/
theorem readFraction?_eq_some {cs : List Char} {milli : Nat} :
    readFraction? cs = some (milli, " UTC".toList) ↔
      ∃ fraction : List Char, (∀ c ∈ fraction, c.isDigit = true) ∧ fraction.length ≤ 6 ∧
        cs = fractionChars fraction ++ " UTC".toList ∧
        milli = digitsValue ((padRight '0' 3 fraction).take 3) := by
  constructor
  · intro h
    rw [readFraction?.eq_def] at h
    split at h
    · rename_i behind
      obtain ⟨hsplit, hdigits⟩ := splitDigits_eq behind
      generalize splitDigits behind = run at h hsplit hdigits
      simp only at h
      split at h
      · exact absurd h (by simp)
      · rename_i hcount
        obtain ⟨rfl, hrest⟩ := Prod.mk.inj (Option.some.inj h)
        simp only [Bool.or_eq_true, decide_eq_true_eq, not_or, Bool.not_eq_true] at hcount
        refine ⟨run.1, hdigits, by omega, ?_, rfl⟩
        have hne : run.1 ≠ [] := List.isEmpty_eq_false_iff.mp hcount.1
        rw [fractionChars_of_ne_nil hne, hsplit, hrest, List.cons_append]
    · obtain ⟨rfl, rfl⟩ := Prod.mk.inj (Option.some.inj h)
      exact ⟨[], by simp, by simp, rfl, rfl⟩
  · rintro ⟨fraction, hdigits, hshort, rfl, rfl⟩
    cases fraction with
    | nil => rfl
    | cons c fraction =>
      have hsplit : splitDigits (c :: fraction ++ " UTC".toList) = (c :: fraction, " UTC".toList) :=
        splitDigits_append hdigits (endsRun_cons "UTC".toList rfl)
      have hcount : ¬6 < (c :: fraction).length := Nat.not_lt.mpr hshort
      change readFraction? ('.' :: (c :: fraction ++ " UTC".toList)) = _
      simp only [readFraction?, hsplit, List.isEmpty_cons, Bool.false_or, decide_eq_true_eq,
        if_neg hcount]

/-- The texts in the layout, and their numbers, are those that are read. -/
theorem readFields?_eq_some {cs : List Char} {f : Fields} :
    readFields? cs = some f ↔ ∃ x : FixedText, cs = x.chars ∧ f = x.fields := by
  constructor
  · intro h
    obtain ⟨⟨year, _⟩, hyear, h⟩ := Option.bind_eq_some_iff.mp h
    obtain ⟨_, hdash, h⟩ := Option.bind_eq_some_iff.mp h
    obtain ⟨⟨month, _⟩, hmonth, h⟩ := Option.bind_eq_some_iff.mp h
    obtain ⟨_, hdash', h⟩ := Option.bind_eq_some_iff.mp h
    obtain ⟨⟨day, _⟩, hday, h⟩ := Option.bind_eq_some_iff.mp h
    obtain ⟨_, hblank, h⟩ := Option.bind_eq_some_iff.mp h
    obtain ⟨⟨hour, _⟩, hhour, h⟩ := Option.bind_eq_some_iff.mp h
    obtain ⟨_, hcolon, h⟩ := Option.bind_eq_some_iff.mp h
    obtain ⟨⟨minute, _⟩, hminute, h⟩ := Option.bind_eq_some_iff.mp h
    obtain ⟨_, hcolon', h⟩ := Option.bind_eq_some_iff.mp h
    obtain ⟨⟨second, _⟩, hsecond, h⟩ := Option.bind_eq_some_iff.mp h
    obtain ⟨⟨milli, _⟩, hmilli, h⟩ := Option.bind_eq_some_iff.mp h
    simp only at hdash hdash' hblank hcolon hcolon' hmilli h
    split at h
    · rename_i hmark
      obtain rfl := Option.some.inj h
      subst hmark
      obtain ⟨isYear, rfl⟩ := exactDigits?_eq_some.mp hyear
      obtain rfl := expect?_eq_some.mp hdash
      obtain ⟨isMonth, rfl⟩ := exactDigits?_eq_some.mp hmonth
      obtain rfl := expect?_eq_some.mp hdash'
      obtain ⟨isDay, rfl⟩ := exactDigits?_eq_some.mp hday
      obtain rfl := expect?_eq_some.mp hblank
      obtain ⟨isHour, rfl⟩ := exactDigits?_eq_some.mp hhour
      obtain rfl := expect?_eq_some.mp hcolon
      obtain ⟨isMinute, rfl⟩ := exactDigits?_eq_some.mp hminute
      obtain rfl := expect?_eq_some.mp hcolon'
      obtain ⟨isSecond, rfl⟩ := exactDigits?_eq_some.mp hsecond
      obtain ⟨fraction, isFraction, short, rfl, rfl⟩ := readFraction?_eq_some.mp hmilli
      exact ⟨⟨year, month, day, hour, minute, second, fraction, isYear, isMonth, isDay, isHour,
        isMinute, isSecond, isFraction, short⟩, rfl, rfl⟩
    · exact absurd h (by simp)
  · rintro ⟨x, rfl, rfl⟩
    have hdigits {n : Nat} {ds : List Char} (h : IsDigits n ds) (rest : List Char) :
        exactDigits? n (ds ++ rest) = some (ds, rest) :=
      exactDigits?_eq_some.mpr ⟨h, rfl⟩
    have hfraction : readFraction? x.rest = some (x.milli, " UTC".toList) :=
      readFraction?_eq_some.mpr ⟨x.fraction, x.isFraction, x.short, rfl, rfl⟩
    simp only [readFields?, FixedText.chars, hdigits x.isYear, hdigits x.isMonth, hdigits x.isDay,
      hdigits x.isHour, hdigits x.isMinute, hdigits x.isSecond, hfraction, expect?_cons,
      Option.bind_eq_bind, Option.bind_some, if_true]
    rfl

/-- The text of an instant has four digits for the year and counts at most three behind the
point. -/
theorem bounds_of_readFields? {cs : List Char} {f : Fields} (h : readFields? cs = some f) :
    f.year < 10000 ∧ f.milli < 1000 := by
  obtain ⟨x, _, rfl⟩ := readFields?_eq_some.mp h
  exact ⟨x.isYear.digitsValue_lt, x.milli_lt⟩

end Timestamp

end WarehouseRows

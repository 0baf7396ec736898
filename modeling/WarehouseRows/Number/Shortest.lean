import WarehouseRows.Number.Double

/-!
# Shortest decimal text of a number

A number is written with the fewest significant digits that read back as the
same number; among equally short candidates the nearest wins. Positional notation
is used for magnitudes from `1e-6` up to, but not including, `1e21`; outside that
range an exponent with an explicit sign follows one digit before the point. Zero
of either sign is `0`.

## Main definitions

* `DecimalDigits`: significant digits and the place of the decimal point.
* `Double.shortest`: the digits to write.
* `Double.text`: the text.
* `Double.roundDigits`: the number nearest to a value rounded to a count of
  significant digits.
-/

namespace WarehouseRows

/-- The decimal `0.d₁…dₖ · 10 ^ point`, where `d₁…dₖ` are the `count` digits of
`digits`. -/
structure DecimalDigits where
  digits : Nat
  count : Nat
  point : Int
  deriving DecidableEq, Repr

namespace Double

/-! ## Digits -/

/-- The `n` with `10 ^ (n - 1) ≤ num / den < 10 ^ n`, for a positive fraction. -/
def pointPlace (num den : Nat) : Int :=
  if den ≤ num then digitCount (num / den)
  else 1 - digitCount ((den + num - 1) / num - 1)

/-- The numerator and denominator of `(num / den) / 10 ^ e`. -/
def scaleRatioTen (num den : Nat) (e : Int) : Nat × Nat :=
  if 0 ≤ e then (num, den * Nat.pow 10 e.toNat) else (num * Nat.pow 10 (-e).toNat, den)

/-- The digits of `units · 10 ^ (point - count)`. A carry into one more digit is
written as a single `1` one place further left. -/
def digitsOfUnits (units count : Nat) (point : Int) : DecimalDigits :=
  if units = Nat.pow 10 count then ⟨1, 1, point + 1⟩ else ⟨units, count, point⟩

/-- The candidate with `count` digits: of the two neighbours of the value on that
decimal grid the one that reads back as `± significand · 2 ^ exponent`, the nearer
when both do. -/
def candidate? (significand : Nat) (exponent : Int) (point : Int) (count : Nat) :
    Option DecimalDigits :=
  let r := ratio significand exponent
  let step := point - count
  let scaled := scaleRatioTen r.1 r.2 step
  let low := scaled.1 / scaled.2
  let rest := scaled.1 % scaled.2
  let readsBack (units : Nat) : Bool :=
    ofDecimal false units step == .finite false significand exponent
  let lowNearer := 2 * rest < scaled.2 || (2 * rest == scaled.2 && low % 2 == 0)
  let order := if lowNearer then [low, low + 1] else [low + 1, low]
  (order.find? readsBack).map fun units => digitsOfUnits units count point

/-- The fewest digits that read back as `significand · 2 ^ exponent`. -/
def shortest (significand : Nat) (exponent : Int) : DecimalDigits :=
  let r := ratio significand exponent
  let point := pointPlace r.1 r.2
  ((List.range 17).findSome? fun i => candidate? significand exponent point (i + 1)).getD
    ⟨significand, digitCount significand, digitCount significand⟩

/-! ## Text -/

/-- A run of zeros. -/
def zeros (n : Nat) : List Char :=
  List.replicate n '0'

/-- Digits with their point or exponent written out. -/
def DecimalDigits.layout (d : DecimalDigits) : List Char :=
  let digits := (Nat.repr d.digits).toList
  let e := d.point - 1
  if d.count ≤ d.point ∧ d.point ≤ 21 then
    digits ++ zeros (d.point - d.count).toNat
  else if 0 < d.point ∧ d.point ≤ 21 then
    digits.take d.point.toNat ++ '.' :: digits.drop d.point.toNat
  else if -6 < d.point ∧ d.point ≤ 0 then
    '0' :: '.' :: zeros (-d.point).toNat ++ digits
  else
    let mark := 'e' :: (if e < 0 then '-' else '+') :: (Nat.repr e.natAbs).toList
    match digits with
    | [first] => first :: mark
    | first :: rest => first :: '.' :: rest ++ mark
    | [] => mark

/-- The text of an absolute value: an integer below `2 ^ 53` with all its digits,
any other number with its shortest digits. -/
def magnitudeText (significand : Nat) (exponent : Int) : String :=
  let r := ratio significand exponent
  if r.1 % r.2 = 0 ∧ r.1 / r.2 < Nat.pow 2 53 then Nat.repr (r.1 / r.2)
  else String.ofList (DecimalDigits.layout (shortest significand exponent))

/-- The default text of a number. -/
def text : Double → String
  | .nan => "NaN"
  | .infinity false => "Infinity"
  | .infinity true => "-Infinity"
  | .finite negative m e =>
    if negative ∧ m ≠ 0 then "-" ++ magnitudeText m e else magnitudeText m e

/-! ## A fixed count of digits -/

/-- The number nearest to the value rounded to `count` significant digits, a tie
of the rounding going away from zero. -/
def roundDigits (count : Nat) : Double → Double
  | .finite negative m e =>
    if m = 0 then .finite negative m e
    else
      let r := ratio m e
      let step := pointPlace r.1 r.2 - count
      let scaled := scaleRatioTen r.1 r.2 step
      ofDecimal negative ((2 * scaled.1 + scaled.2) / (2 * scaled.2)) step
  | x => x

end Double

end WarehouseRows

/-!
# Binary64 numbers

The numbers of a JSON document and of a warehouse row are binary64 numbers: a
sign, a significand and a power of two, with two infinities and one `nan`. They
are kept here as exact data instead of machine words, so that each operation is
a rational computation followed by one rounding and can be reasoned about.

Every finite number produced by this module is in the normal form of its format:
the significand has the full 53 bits, or the exponent is the least one. Two
numbers are therefore the same data exactly when they are the same number and
zero has the same sign.

## Main definitions

* `Double`: a binary64 number.
* `BinaryFormat.nearest`: the number of a format that lies nearest to a fraction,
  a tie going to the even significand.
* `Double.ofRatio`, `Double.ofInt`, `Double.ofDecimal`: rounding into binary64.
* `Double.whole?`, `Double.truncated?`: reading an integer back.
* `Double.toSingle`: rounding to the 32-bit format.
* `Whole`: an integer that remembers the sign of a zero.
-/

namespace WarehouseRows

/-- A binary64 number. A finite one is `± significand · 2 ^ exponent`. -/
inductive Double where
  | nan
  | infinity (negative : Bool)
  | finite (negative : Bool) (significand : Nat) (exponent : Int)
  deriving DecidableEq, Repr, Inhabited

/-! ## Rounding a fraction -/

/-- The numerator and denominator of `(num / den) / 2 ^ e`. -/
def scaleRatio (num den : Nat) (e : Int) : Nat × Nat :=
  if 0 ≤ e then (num, den * Nat.pow 2 e.toNat) else (num * Nat.pow 2 (-e).toNat, den)

/-- The largest `e` with `2 ^ e ≤ num / den`, for a positive fraction. -/
def floorLog2 (num den : Nat) : Int :=
  let e : Int := (Nat.log2 num : Int) - Nat.log2 den
  let scaled := scaleRatio num den e
  if scaled.2 ≤ scaled.1 then e else e - 1

/-- The integer nearest to `num / den`, a tie going to the even one. -/
def roundHalfEven (num den : Nat) : Nat :=
  let quotient := num / den
  let twice := 2 * (num % den)
  if twice < den then quotient
  else if den < twice then quotient + 1
  else if quotient % 2 = 0 then quotient
  else quotient + 1

/-- A binary floating-point format: the bits of a significand and the range of
the exponents that stand beside a significand of that many bits. -/
structure BinaryFormat where
  precision : Nat
  minExponent : Int
  maxExponent : Int

/-- The 64-bit format. -/
def binary64 : BinaryFormat := ⟨53, -1074, 971⟩

/-- The 32-bit format. -/
def binary32 : BinaryFormat := ⟨24, -149, 104⟩

/-- The significand and exponent of the number of the format nearest to
`num / den`, a tie going to the even significand; `none` when the fraction
rounds past the largest finite number. -/
def BinaryFormat.nearest (f : BinaryFormat) (num den : Nat) : Option (Nat × Int) :=
  if num = 0 then some (0, f.minExponent)
  else
    let e := max (floorLog2 num den - (f.precision - 1)) f.minExponent
    let scaled := scaleRatio num den e
    let m := roundHalfEven scaled.1 scaled.2
    let carried := if m = Nat.pow 2 f.precision then (m / 2, e + 1) else (m, e)
    if f.maxExponent < carried.2 then none else some carried

namespace Double

/-! ## Building numbers -/

/-- The binary64 number nearest to `± num / den`. -/
def ofRatio (negative : Bool) (num den : Nat) : Double :=
  match binary64.nearest num den with
  | none => .infinity negative
  | some (m, e) => .finite negative m e

/-- The binary64 number nearest to an integer. -/
def ofInt (n : Int) : Double :=
  ofRatio (decide (n < 0)) n.natAbs 1

/-- The binary64 number nearest to a natural number. -/
def ofNat (n : Nat) : Double :=
  ofInt n

/-- Zero, without a sign. -/
def zero : Double := ofInt 0

/-- Zero with a minus sign. -/
def negZero : Double := ofRatio true 0 1

/-- The count of decimal digits of a natural number; one for zero. -/
def digitCount (n : Nat) : Nat :=
  (Nat.repr n).length

/-- The binary64 number nearest to `± digits · 10 ^ exponent`. Powers that are
sure to overflow or to vanish are decided by the count of digits alone, so the
work does not grow with the exponent. -/
def ofDecimal (negative : Bool) (digits : Nat) (exponent : Int) : Double :=
  let magnitude := exponent + digitCount digits
  if digits = 0 then ofRatio negative 0 1
  else if 310 < magnitude then .infinity negative
  else if magnitude < -330 then ofRatio negative 0 1
  else if 0 ≤ exponent then ofRatio negative (digits * Nat.pow 10 exponent.toNat) 1
  else ofRatio negative digits (Nat.pow 10 (-exponent).toNat)

/-! ## Reading numbers -/

/-- Neither infinite nor `nan`. -/
def isFinite : Double → Bool
  | .finite .. => true
  | _ => false

/-- Whether the number is `nan`. -/
def isNaN : Double → Bool
  | .nan => true
  | _ => false

/-- Whether the number is a zero of either sign. -/
def isZero : Double → Bool
  | .finite _ 0 _ => true
  | _ => false

/-- The absolute value of a finite number as a fraction. -/
def ratio (significand : Nat) (exponent : Int) : Nat × Nat :=
  if 0 ≤ exponent then (significand * Nat.pow 2 exponent.toNat, 1)
  else (significand, Nat.pow 2 (-exponent).toNat)

/-- An absolute value with its sign. -/
def signed (negative : Bool) (n : Nat) : Int :=
  if negative then -(n : Int) else n

/-- The integer that a number is; `none` when it is not one. -/
def whole? : Double → Option Int
  | .finite negative m e =>
    let r := ratio m e
    if r.1 % r.2 = 0 then some (signed negative (r.1 / r.2)) else none
  | _ => none

/-- The integer part of a finite number, cut toward zero. -/
def truncated? : Double → Option Int
  | .finite negative m e =>
    let r := ratio m e
    some (signed negative (r.1 / r.2))
  | _ => none

/-- Same number, where the two zeros are one number and `nan` is none. -/
def equal : Double → Double → Bool
  | .nan, _ => false
  | _, .nan => false
  | a, b => (a.isZero && b.isZero) || a == b

/-! ## Arithmetic -/

/-- The product with a positive integer, rounded. -/
def timesNat (k : Nat) : Double → Double
  | .nan => .nan
  | .infinity negative => .infinity negative
  | .finite negative m e =>
    let r := ratio m e
    ofRatio negative (r.1 * k) r.2

/-- The 32-bit number nearest to a number, as a binary64 number. -/
def toSingle : Double → Double
  | .nan => .nan
  | .infinity negative => .infinity negative
  | .finite negative m e =>
    let r := ratio m e
    match binary32.nearest r.1 r.2 with
    | none => .infinity negative
    | some (m', e') =>
      let r' := ratio m' e'
      ofRatio negative r'.1 r'.2

end Double

/-! ## Integers with a signed zero -/

/-- An integer as a binary64 number holds it: zero may carry a minus sign. -/
inductive Whole where
  | negZero
  | ofInt (n : Int)
  deriving DecidableEq, Repr, Inhabited

namespace Whole

/-- The integer, forgetting the sign of a zero. -/
def toInt : Whole → Int
  | .negZero => 0
  | .ofInt n => n

/-- The binary64 number that the integer is. -/
def toDouble : Whole → Double
  | .negZero => Double.negZero
  | .ofInt n => Double.ofInt n

/-- The integer that a number is, keeping the sign of a zero. -/
def ofDouble? (x : Double) : Option Whole :=
  match x with
  | .finite true 0 _ => some .negZero
  | _ => x.whole?.map .ofInt

@[simp] theorem toInt_negZero : Whole.negZero.toInt = 0 := rfl

@[simp] theorem toInt_ofInt (n : Int) : (Whole.ofInt n).toInt = n := rfl

end Whole

end WarehouseRows

import WarehouseRows.Error.Failure
import WarehouseRows.Number.Arithmetic
import WarehouseRows.Number.Shortest
import WarehouseRows.Number.Reading
import WarehouseRows.Text.Units

/-!
# Decimals

A decimal is an unscaled integer together with a scale: `12345` at scale `2` is
`123.45`. Two decimals are equal when both parts are, so `1.5` and `1.50` differ
although they compare as the same value.

The scale is an integer as a binary64 number holds it. It may be negative, and it
may be a zero with a sign. Text with an exponent beyond the range of binary64 gives
an infinite scale; such a decimal has no text and cannot be rescaled.

## Main definitions

* `Scale`, `Decimal`: the data.
* `Decimal.parse`, `Decimal.text`: decimal text.
* `Decimal.powerOfTen`, `Decimal.product`: the powers and products that are not too
  large.
* `Decimal.ofBytes`, `Decimal.toBytes`: the two's complement form of the unscaled
  integer, most significant byte first.
* `Decimal.setScale`, `Decimal.setScaleNumber`, `Decimal.compare`: rescaling and
  comparing.
-/

namespace WarehouseRows

/-! ## Scales -/

/-- The count of digits after the point. -/
inductive Scale where
  | places (n : Whole)
  | unbounded (negative : Bool)
  deriving DecidableEq, Repr, Inhabited

namespace Scale

/-- A scale of finitely many places. -/
def ofInt (n : Int) : Scale :=
  .places (.ofInt n)

/-- The scale as a number. -/
def toDouble : Scale → Double
  | .places n => n.toDouble
  | .unbounded negative => .infinity negative

/-- The scale that an integral number is. -/
def ofDouble? (x : Double) : Option Scale :=
  (Whole.ofDouble? x).map .places

/-- The scale that a number is, which may be infinite. -/
def ofNumber? : Double → Option Scale
  | .infinity negative => some (.unbounded negative)
  | x => ofDouble? x

/-- The scale after reading text with `places` digits behind the point and an
exponent: their difference in binary64 arithmetic. -/
def ofText (places : Nat) (exponent : Int) : Scale :=
  match (Double.ofInt exponent).whole? with
  | none => .unbounded (decide (0 < exponent))
  | some rounded =>
    match Whole.ofDouble? (Double.ofInt (places - rounded)) with
    | some n => .places n
    | none => .unbounded (decide (0 < exponent))

/-- Same number of places. -/
def same : Scale → Scale → Bool
  | .places a, .places b => a.toInt == b.toInt
  | .unbounded a, .unbounded b => a == b
  | _, _ => false

/-- Whether the first scale has fewer places. -/
def below : Scale → Scale → Bool
  | .places a, .places b => a.toInt < b.toInt
  | .places _, .unbounded negative => !negative
  | .unbounded negative, .places _ => negative
  | .unbounded a, .unbounded b => a && !b

/-- The first scale less the second one, in binary64 arithmetic: the difference of the
integers is rounded once. -/
def minus : Scale → Scale → Double
  | .places a, .places b => .ofInt (a.toInt - b.toInt)
  | .places _, .unbounded negative => .infinity !negative
  | .unbounded negative, .places _ => .infinity negative
  | .unbounded a, .unbounded b => (Double.infinity a).sub (.infinity b)

end Scale

/-! ## Decimals -/

/-- The number `unscaled · 10 ^ (-scale)`. -/
structure Decimal where
  unscaled : Int
  scale : Scale
  deriving DecidableEq, Repr, Inhabited

namespace Decimal

/-- What an operation answers when a power of ten would need an exponent that is
not an integer. -/
def noIntegerPower (exponent : Double) : Failure :=
  .range (s!"The number {exponent.text} cannot be converted to a BigInt " ++
    "because it is not an integer")

/-- The integer that a number is. -/
def integerOf (x : Double) : Except Failure Int :=
  match x.whole? with
  | some n => .ok n
  | none => .error (noIntegerPower x)

/-- The failure of an operation whose integer would be too large. -/
def tooLarge : Failure :=
  .range "Maximum BigInt size exceeded"

/-- The failure of an operation whose text would be too long. -/
def tooLong : Failure :=
  .range "Invalid string length"

/-- The words of 64 bits that there are for an absolute value. -/
def integerWords : Nat := 16777216

/-- The bits that there are for an absolute value. -/
def integerBits : Nat := 64 * integerWords

/-- The words of 64 bits that an absolute value takes. -/
def wordCount (n : Int) : Nat :=
  n.natAbs.log2 / 64 + 1

/-- The product of two integers. Its words are reckoned by those of the factors, so it may
be refused although it would fit; a zero is never too large. -/
def product (a b : Int) : Except Failure Int :=
  if a = 0 ∨ b = 0 ∨ wordCount a + wordCount b ≤ integerWords then .ok (a * b)
  else .error tooLarge

/-- The greatest exponent of a power of ten that is not too large. A power is computed by
squaring: the last product on the way to this one is of `10 ^ 268435456` and
`10 ^ 54793027`, which take all words together. -/
def largestPower : Nat := 323228483

/-- A power of ten. -/
def powerOfTen (n : Nat) : Except Failure Int :=
  if n ≤ largestPower then .ok (Nat.pow 10 n) else .error tooLarge

/-- The product of an integer and a power of ten. Even where the product is zero the
power must not be too large; without zeros to append there is nothing to compute. -/
def timesPower (n : Int) (zeros : Nat) : Except Failure Int :=
  if zeros = 0 then .ok n else powerOfTen zeros >>= product n

/-- The refusal of a scale that is not an integer. -/
def notWhole (scale : String) : ConversionError :=
  { code := .invalidValue
    message := s!"Decimal scale must be an integer, got {scale}" }

/-- A decimal from its parts; the scale has to be an integer. -/
def ofParts (unscaled : Int) (scale : Double) : Except ConversionError Decimal :=
  match Scale.ofDouble? scale with
  | some s => .ok ⟨unscaled, s⟩
  | none => .error (notWhole scale.text)

/-- Equal parts, where a zero scale has no sign. -/
def same (a b : Decimal) : Bool :=
  a.unscaled == b.unscaled && a.scale.same b.scale

/-! ### Text -/

/-- Decimal text taken apart: sign, digits before and after the point, exponent. -/
structure Literal where
  negative : Bool
  whole : List Char
  fraction : List Char
  exponent : Int

/-- Decimal text, blanks at its ends aside: an optional sign, digits with an
optional point among or around them, and an optional exponent with digits. -/
def readLiteral? (cs : List Char) : Option Literal :=
  let (negative, body) := Text.splitSign (Text.trimChars cs)
  let (whole, afterWhole) := Text.splitDigits body
  let (fraction, afterFraction) := Double.readFraction afterWhole
  let (exponent, rest) := Double.readExponent afterFraction
  if whole.isEmpty && fraction.isEmpty then none
  else if rest.isEmpty then some ⟨negative, whole, fraction, exponent⟩
  else none

/-- The decimal that text denotes. -/
def parse (text : String) : Except ConversionError Decimal :=
  match readLiteral? text.toList with
  | some l =>
    .ok ⟨Double.signed l.negative (Text.digitsValue (l.whole ++ l.fraction)),
      Scale.ofText l.fraction.length l.exponent⟩
  | none =>
    .error
      { code := .invalidValue
        message := s!"Cannot parse \"{text}\" as a decimal"
        valueType := some "string" }

/-- The text of `unscaled` with `places` digits after the point: plain notation, never an
exponent, and no point without digits after it. -/
def plainText (unscaled : Int) (places : Nat) : String :=
  if places = 0 then toString unscaled
  else
    let digits := Text.padNat (places + 1) unscaled.natAbs
    let point := digits.length - places
    let sign := if unscaled < 0 then ['-'] else []
    String.ofList (sign ++ digits.take point ++ '.' :: digits.drop point)

/-- The length of the text of an integer at a scale of so many places, when the places
are more than its digits. -/
def textLength (unscaled : Int) (places : Nat) : Nat :=
  places + 2 + (if unscaled < 0 then 1 else 0)

/-- The text of a decimal. Zeros take the place of a negative scale. -/
def text (d : Decimal) : Except Failure String :=
  match d.scale with
  | .places n =>
    if Text.longest < textLength d.unscaled n.toInt.toNat then .error tooLong
    else (timesPower d.unscaled (-n.toInt).toNat).map (plainText · n.toInt.toNat)
  | .unbounded true => .error (noIntegerPower (.infinity false))
  | .unbounded false => .error tooLong

/-- The binary64 number nearest to a decimal. -/
def toDouble (d : Decimal) : Except Failure Double :=
  d.text.map Double.ofText

/-! ### Bytes -/

/-- The unsigned number of bytes, most significant first. -/
def unsignedValue (bytes : List UInt8) : Nat :=
  bytes.foldl (fun n b => n * 256 + b.toNat) 0

/-- The two's complement number of bytes, most significant first. -/
def signedValue (bytes : List UInt8) : Int :=
  let n := unsignedValue bytes
  match bytes with
  | first :: _ => if 128 ≤ first.toNat then (n : Int) - Nat.pow 256 bytes.length else n
  | [] => n

/-- A decimal from the two's complement bytes of its unscaled integer. -/
def ofBytes (bytes : List UInt8) (scale : Double) : Except ConversionError Decimal :=
  ofParts (signedValue bytes) scale

/-- The last eight bits of an integer. -/
def lowByte (n : Int) : UInt8 :=
  UInt8.ofNat (n % 256).toNat

/-- The two's complement bytes of an integer in front of `tail`. Bytes are taken off the
low end until the rest of the integer repeats the sign bit of the last one. -/
def signedBytes (n : Int) (tail : List UInt8) : List UInt8 :=
  if n / 256 = 0 ∧ (lowByte n).toNat < 128 ∨ n / 256 = -1 ∧ 128 ≤ (lowByte n).toNat then
    lowByte n :: tail
  else signedBytes (n / 256) (lowByte n :: tail)
termination_by n.natAbs
decreasing_by
  -- only 0 and -1 are their own rest, and both end the bytes at once
  rename_i hgoesOn
  have hzero : n ≠ 0 := by
    rintro rfl
    exact hgoesOn (Or.inl (by decide))
  have hones : n ≠ -1 := by
    rintro rfl
    exact hgoesOn (Or.inr (by decide))
  omega

/-- The fewest two's complement bytes of the unscaled integer. -/
def toBytes (d : Decimal) : List UInt8 :=
  signedBytes d.unscaled []

/-! ### Rescaling and comparing -/

/-- What is said of a scale at which digits of a decimal would be lost. -/
def lossMessage (decimal scale : String) : String :=
  s!"Decimal {decimal} cannot be represented with scale {scale}"

/-- The refusal of a scale at which digits of a decimal would be lost. The decimal may
have a text that leaves no room for more to be said. -/
def digitsLost (decimal scale : String) : Failure :=
  if Text.longest < (lossMessage decimal scale).length then tooLong
  else .conversion { code := .precisionLoss, message := lossMessage decimal scale }

/-- An integer with zeros put behind it, as many as lie between two scales. -/
def raised (unscaled : Int) (gap : Double) : Except Failure Int := do
  let zeros ← integerOf gap
  timesPower unscaled zeros.toNat

/-- The unscaled integer with zeros taken from its end, as many as lie between two scales;
`target` is the scale of which is said that it loses digits, where they are not zeros. -/
def lowered (d : Decimal) (gap : Double) (target : String) : Except Failure Int := do
  let zeros ← integerOf gap
  let divisor ← powerOfTen zeros.toNat
  if d.unscaled.tmod divisor = 0 then pure (d.unscaled.tdiv divisor)
  else
    let text ← d.text
    .error (digitsLost text target)

/-- The decimal with another scale. Raising the scale is exact; lowering it
succeeds only when the dropped digits are zero. -/
def setScale (d : Decimal) (target : Scale) : Except Failure Decimal :=
  if d.scale.same target then .ok d
  else if d.scale.below target then (raised d.unscaled (target.minus d.scale)).map (⟨·, target⟩)
  else (d.lowered (d.scale.minus target) target.toDouble.text).map (⟨·, target⟩)

/-- The decimal with a scale that is given as any number. At a number that is no scale
there is no decimal, but this comes out last: the way to it may fail before. -/
def setScaleNumber (d : Decimal) (scale : Double) : Except Failure Decimal :=
  match Scale.ofNumber? scale with
  | some target => d.setScale target
  | none =>
    let held := d.scale.toDouble
    let rescaled :=
      if held.order? scale = some .lt then raised d.unscaled (scale.sub held)
      else d.lowered (held.sub scale) scale.text
    rescaled >>= fun unscaled => (ofParts unscaled scale).mapError .conversion

/-- The larger of two scales. -/
def largerScale (a b : Scale) : Scale :=
  if a.below b then b else a

/-- The order of two decimals by value: `-1`, `0` or `1`. -/
def compare (a b : Decimal) : Except Failure Int := do
  let scale := largerScale a.scale b.scale
  let x ← a.setScale scale
  let y ← b.setScale scale
  pure (if x.unscaled = y.unscaled then 0 else if x.unscaled < y.unscaled then -1 else 1)

end Decimal

end WarehouseRows

import WarehouseRows.Number.Double

/-!
# Arithmetic of binary64 numbers

Each operation is the exact result of its arguments, rounded once. A zero that comes
out of a sum has a minus sign only when both terms have one; in a product or a
quotient the signs combine; a remainder has the sign of the number that is divided.

## Main definitions

* `Double.neg`, `Double.add`, `Double.sub`, `Double.mul`, `Double.div`, `Double.rem`:
  the operations.
* `Double.order?`, `Double.orderInt?`: the order among numbers, and of a number and an
  integer.
-/

namespace WarehouseRows.Double

/-! ## Signs -/

/-- Whether a number carries a minus sign. -/
def isNegative : Double → Bool
  | .nan => false
  | .infinity negative => negative
  | .finite negative _ _ => negative

/-- The number with the other sign. -/
def neg : Double → Double
  | .nan => .nan
  | .infinity negative => .infinity !negative
  | .finite negative m e => .finite (!negative) m e

/-! ## Sums -/

/-- A finite number in units of `2 ^ least`, where `least` is at most its exponent. -/
def inUnits (negative : Bool) (significand : Nat) (exponent least : Int) : Int :=
  signed negative (significand * Nat.pow 2 (exponent - least).toNat)

/-- The number `units · 2 ^ exponent`, rounded; for no units, a zero with a sign. -/
def ofUnits (zeroNegative : Bool) (units exponent : Int) : Double :=
  if units = 0 then ofRatio zeroNegative 0 1
  else
    let r := ratio units.natAbs exponent
    ofRatio (decide (units < 0)) r.1 r.2

/-- The sum. -/
def add : Double → Double → Double
  | .nan, _ => .nan
  | _, .nan => .nan
  | .infinity a, .infinity b => if a = b then .infinity a else .nan
  | .infinity a, _ => .infinity a
  | _, .infinity b => .infinity b
  | .finite n₁ m₁ e₁, .finite n₂ m₂ e₂ =>
    let e := min e₁ e₂
    ofUnits (n₁ && n₂) (inUnits n₁ m₁ e₁ e + inUnits n₂ m₂ e₂ e) e

/-- The difference. -/
def sub (a b : Double) : Double :=
  a.add b.neg

/-! ## Products and quotients -/

/-- The product. -/
def mul : Double → Double → Double
  | .nan, _ => .nan
  | _, .nan => .nan
  | .finite n₁ m₁ e₁, .finite n₂ m₂ e₂ =>
    let r := ratio (m₁ * m₂) (e₁ + e₂)
    ofRatio (n₁ != n₂) r.1 r.2
  | a, b => if a.isZero || b.isZero then .nan else .infinity (a.isNegative != b.isNegative)

/-- The quotient. -/
def div : Double → Double → Double
  | .nan, _ => .nan
  | _, .nan => .nan
  | .infinity _, .infinity _ => .nan
  | .infinity n₁, .finite n₂ _ _ => .infinity (n₁ != n₂)
  | .finite n₁ _ _, .infinity n₂ => ofRatio (n₁ != n₂) 0 1
  | .finite n₁ m₁ e₁, .finite n₂ m₂ e₂ =>
    if m₂ = 0 then if m₁ = 0 then .nan else .infinity (n₁ != n₂)
    else
      let r := scaleRatio m₁ m₂ (e₂ - e₁)
      ofRatio (n₁ != n₂) r.1 r.2

/-- The remainder of the division that cuts its quotient toward zero. -/
def rem : Double → Double → Double
  | .finite n₁ m₁ e₁, .finite _ m₂ e₂ =>
    if m₂ = 0 then .nan
    else
      let e := min e₁ e₂
      ofUnits n₁ ((inUnits n₁ m₁ e₁ e).tmod (inUnits false m₂ e₂ e)) e
  | .finite n₁ m₁ e₁, .infinity _ => .finite n₁ m₁ e₁
  | _, _ => .nan

/-! ## Order -/

/-- The order of two numbers; `nan` has none. -/
def order? : Double → Double → Option Ordering
  | .nan, _ => none
  | _, .nan => none
  | .infinity a, .infinity b => some (if a = b then .eq else if a then .lt else .gt)
  | .infinity a, _ => some (if a then .lt else .gt)
  | _, .infinity b => some (if b then .gt else .lt)
  | .finite n₁ m₁ e₁, .finite n₂ m₂ e₂ =>
    let e := min e₁ e₂
    some (compare (inUnits n₁ m₁ e₁ e) (inUnits n₂ m₂ e₂ e))

/-- The order of a number and an integer. -/
def orderInt? : Double → Int → Option Ordering
  | .nan, _ => none
  | .infinity negative, _ => some (if negative then .lt else .gt)
  | .finite negative m e, n =>
    let r := ratio m e
    some (compare (signed negative r.1) (n * r.2))

end WarehouseRows.Double

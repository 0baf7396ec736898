import WarehouseRows.Number.Double
import WarehouseRows.Text.Blank
import WarehouseRows.Text.Digits

/-!
# Reading a number from text

Text denotes a number when, blanks at its ends aside, it is a decimal literal
with an optional sign, a signed or unsigned `Infinity`, or an unsigned integer
in base 16, 8 or 2 after `0x`, `0o` or `0b`. A decimal literal has digits on at
least one side of its point and an optional exponent. Empty text denotes zero.

## Main definitions

* `Double.ofText`: the number that text denotes, `nan` when it denotes none.
* `Double.readDecimal?`: an unsigned decimal literal.
* `Text.readInteger?`: the integer that text denotes.
-/

namespace WarehouseRows.Double

/-- A decimal literal: its digits as one number and the power of ten beside it. -/
structure DecimalLiteral where
  digits : Nat
  exponent : Int
  deriving DecidableEq, Repr

/-- An optional exponent part and the rest; a mark without digits is no exponent
part. -/
def readExponent (cs : List Char) : Int × List Char :=
  match cs with
  | c :: rest =>
    if c = 'e' ∨ c = 'E' then
      let (negative, rest) := Text.splitSign rest
      let (digits, rest) := Text.splitDigits rest
      if digits.isEmpty then (0, cs) else (signed negative (Text.digitsValue digits), rest)
    else (0, cs)
  | [] => (0, [])

/-- The fraction digits after a point, if a point comes next, and the rest. -/
def readFraction (cs : List Char) : List Char × List Char :=
  match cs with
  | '.' :: rest => Text.splitDigits rest
  | _ => ([], cs)

/-- An unsigned decimal literal that takes up all the characters. -/
def readDecimal? (cs : List Char) : Option DecimalLiteral :=
  let (whole, afterWhole) := Text.splitDigits cs
  let (fraction, afterFraction) := readFraction afterWhole
  let (exponent, rest) := readExponent afterFraction
  if whole.isEmpty && fraction.isEmpty then none
  else if rest.isEmpty then
    some ⟨Text.digitsValue (whole ++ fraction), exponent - fraction.length⟩
  else none

/-- The value of a digit in a base up to sixteen. -/
def baseDigit? (base : Nat) (c : Char) : Option Nat :=
  let v : Option Nat :=
    if c.isDigit then some (c.toNat - '0'.toNat)
    else if 'a' ≤ c ∧ c ≤ 'f' then some (c.toNat - 'a'.toNat + 10)
    else if 'A' ≤ c ∧ c ≤ 'F' then some (c.toNat - 'A'.toNat + 10)
    else none
  v.filter (· < base)

/-- The integer that digits of a base denote; at least one digit is needed. -/
def readBase? (base : Nat) (cs : List Char) : Option Nat :=
  if cs.isEmpty then none
  else cs.foldlM (fun n c => (baseDigit? base c).map fun d => base * n + d) 0

/-- The number that characters without blanks at the ends denote. -/
def ofTrimmed (cs : List Char) : Double :=
  match cs with
  | [] => zero
  | '0' :: 'x' :: digits | '0' :: 'X' :: digits => based 16 digits
  | '0' :: 'o' :: digits | '0' :: 'O' :: digits => based 8 digits
  | '0' :: 'b' :: digits | '0' :: 'B' :: digits => based 2 digits
  | cs =>
    let (negative, body) := Text.splitSign cs
    if body = "Infinity".toList then .infinity negative
    else
      match readDecimal? body with
      | some d => ofDecimal negative d.digits d.exponent
      | none => .nan
where
  /-- An integer in another base. -/
  based (base : Nat) (digits : List Char) : Double :=
    match readBase? base digits with
    | some n => ofNat n
    | none => .nan

/-- The number that text denotes; `nan` when it denotes none. -/
def ofText (s : String) : Double :=
  ofTrimmed (Text.trimChars s.toList)

end WarehouseRows.Double

namespace WarehouseRows.Text

/-- The integer that text denotes: digits with an optional sign, or unsigned digits of
another base behind its mark. Blanks at the ends do not count, and empty text is zero. -/
def readInteger? (s : String) : Option Int :=
  match Text.trimChars s.toList with
  | [] => some 0
  | '0' :: 'x' :: digits | '0' :: 'X' :: digits => (Double.readBase? 16 digits).map Int.ofNat
  | '0' :: 'o' :: digits | '0' :: 'O' :: digits => (Double.readBase? 8 digits).map Int.ofNat
  | '0' :: 'b' :: digits | '0' :: 'B' :: digits => (Double.readBase? 2 digits).map Int.ofNat
  | cs =>
    let (negative, digits) := Text.splitSign cs
    if digits.isEmpty || !digits.all Char.isDigit then none
    else some (Double.signed negative (Text.digitsValue digits))

end WarehouseRows.Text

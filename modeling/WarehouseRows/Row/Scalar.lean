import WarehouseRows.Row.Format
import WarehouseRows.Schema.Describe
import WarehouseRows.Text.Base64
import WarehouseRows.Value.Basic

/-!
# Scalars from text

The cells of a table row are text. Each kind of scalar reads its own grammar: a
bounded integer, a number, a decimal, base64 for bytes, and for an instant either
the fixed format or seconds since 1970. Text that is not in the grammar is refused,
except that a truth value is true for the word `true` in any letter case and false
for everything else.

## Main definitions

* `PrimitiveKind.parseText`: the value of a kind that text denotes.
* `PrimitiveKind.fits`: whether an integer has a form of a width.
-/

namespace WarehouseRows.PrimitiveKind

/-! ## Integers -/

/-- Whether an integer has a two's complement form of a width. -/
def fits (bits : Nat) (n : Int) : Bool :=
  -(Nat.pow 2 (bits - 1) : Int) ≤ n && n < Nat.pow 2 (bits - 1)

/-- The sign and the digits of an integer literal. -/
def integerLiteral? (cs : List Char) : Option (Bool × List Char) :=
  let (negative, digits) := Text.splitSign cs
  if digits.isEmpty || !digits.all Char.isDigit then none else some (negative, digits)

/-- The refusal of text that is not in the grammar of a kind. -/
def invalid (kind : PrimitiveKind) (text : String) : ConversionError :=
  { code := .invalidValue
    message := s!"Cannot parse \"{text}\" as {kind.label}"
    fieldType := some kind.label
    valueType := some "string" }

/-- An integer of a bounded width, as a number: the number that the literal denotes, if
this is an integer of the width. -/
def parseBounded (kind : PrimitiveKind) (bits : Nat) (text : String) :
    Except ConversionError Value :=
  let x := if (integerLiteral? text.toList).isSome then Double.ofText text else .nan
  match x.whole? with
  | some n => if fits bits n then .ok (.number x) else .error (kind.invalid text)
  | none => .error (kind.invalid text)

/-- A 64-bit integer, as a big integer: the integer of the literal, if wrapping it to 64
bits leaves it as it is. -/
def parseLong (text : String) : Except ConversionError Value :=
  match integerLiteral? text.toList with
  | some (negative, digits) =>
    let n := Double.signed negative (Text.digitsValue digits)
    if n.bmod (Nat.pow 2 64) = n then .ok (.integer n) else .error (invalid .int64 text)
  | none => .error (invalid .int64 text)

/-! ## Numbers -/

/-- The number that a floating-point literal denotes: a decimal literal with an
optional sign, or one of the words for infinity and `nan`, before which one plus
sign is passed over. -/
def floatLiteral? (text : String) : Option Double :=
  let cs := text.toList
  let unsigned := if cs.head? = some '+' then cs.drop 1 else cs
  if unsigned = "NaN".toList then some .nan
  else if unsigned = "Infinity".toList then some (.infinity false)
  else if unsigned = "-Infinity".toList then some (.infinity true)
  else
    let (negative, body) := Text.splitSign cs
    (Double.readDecimal? body).map fun d => Double.ofDecimal negative d.digits d.exponent

/-- A floating-point number. -/
def parseFloat (kind : PrimitiveKind) (text : String) : Except ConversionError Value :=
  match floatLiteral? text with
  | some x => .ok (.number (if kind = .float32 then x.toSingle else x))
  | none => .error (kind.invalid text)

/-! ## Other scalars -/

/-- Whether text is the word for true, in any letter case. -/
def isTrueWord (text : String) : Bool :=
  Text.toLower text == "true"

/-- Whether text ends in the mark of the fixed format of instants. -/
def endsInUtc (cs : List Char) : Bool :=
  "UTC".toList.isSuffixOf cs

/-- An instant: `null` for empty text, else the fixed format if the text ends in
`UTC`, else seconds. -/
def parseInstant (text : String) : Except ConversionError Value :=
  if text.isEmpty then .ok .null
  else if endsInUtc text.toList then (Timestamp.parse text).map .instant
  else (Timestamp.parseEpochSeconds text).map .instant

/-- Bytes in base64. -/
def parseBytes (text : String) : Except ConversionError Value :=
  match Base64.decode? text with
  | some content => .ok (.bytes content)
  | none => .error (invalid .bytes text)

/-- The value of a kind that text denotes. -/
def parseText (kind : PrimitiveKind) (text : String) : Except ConversionError Value :=
  match kind with
  | .byte => parseBounded .byte 8 text
  | .int16 => parseBounded .int16 16 text
  | .int32 => parseBounded .int32 32 text
  | .int64 => parseLong text
  | .float32 => parseFloat .float32 text
  | .float64 => parseFloat .float64 text
  | .decimal => (Decimal.parse text).map .decimal
  | .boolean => .ok (.bool (isTrueWord text))
  | .string => .ok (.string text)
  | .bytes => parseBytes text
  | .datetime => parseInstant text

end WarehouseRows.PrimitiveKind

/-!
# Units of text

Text is counted, cut and ordered in units of sixteen bits. A character beyond the first
plane takes two units, a high half and a low half; a half that stands alone is no
character and shows as the replacement character. A text has a greatest length.

## Main definitions

* `Text.units`, `Text.ofUnits`: a text as units, and back.
* `Text.orderUnits`: the order of two texts.
* `Text.fillLeft?`: a text filled up with zeros, unless it would be too long.
* `Text.longest`: the greatest length of a text.
-/

namespace WarehouseRows.Text

/-! ## Halves -/

/-- Whether a unit is the first half of a pair. -/
def isHighSurrogate (n : Nat) : Bool :=
  0xD800 ≤ n && n ≤ 0xDBFF

/-- Whether a unit is the second half of a pair. -/
def isLowSurrogate (n : Nat) : Bool :=
  0xDC00 ≤ n && n ≤ 0xDFFF

/-- The character of a unit that stands alone. -/
def charOfUnit (n : Nat) : Char :=
  if isHighSurrogate n || isLowSurrogate n then '\uFFFD' else Char.ofNat n

/-- The character of a pair of halves. -/
def charOfPair (high low : Nat) : Char :=
  Char.ofNat (0x10000 + (high - 0xD800) * 1024 + (low - 0xDC00))

/-! ## Texts as units -/

/-- The units of a character. -/
def unitsOfChar (c : Char) : List Nat :=
  if c.toNat < 0x10000 then [c.toNat]
  else [0xD800 + (c.toNat - 0x10000) / 1024, 0xDC00 + (c.toNat - 0x10000) % 1024]

/-- The units of a text. -/
def units (s : String) : List Nat :=
  s.toList.flatMap unitsOfChar

/-- The characters of units. -/
def charsOfUnits : List Nat → List Char
  | [] => []
  | [n] => [charOfUnit n]
  | high :: low :: rest =>
    if isHighSurrogate high && isLowSurrogate low then charOfPair high low :: charsOfUnits rest
    else charOfUnit high :: charsOfUnits (low :: rest)

/-- The text of units. -/
def ofUnits (us : List Nat) : String :=
  String.ofList (charsOfUnits us)

/-- The length of a text. -/
def unitCount (s : String) : Nat :=
  (units s).length

/-- The order of two lists of units: that of the first units that differ. -/
def orderUnits : List Nat → List Nat → Ordering
  | [], [] => .eq
  | [], _ => .lt
  | _, [] => .gt
  | a :: as, b :: bs => if a = b then orderUnits as bs else compare a b

/-! ## Filling up -/

/-- The greatest length of a text. -/
def longest : Nat := 536870888

/-- A text with zeros in front, up to a length; `none` if that is too long. -/
def fillLeft? (length : Nat) (s : String) : Option String :=
  if length ≤ unitCount s then some s
  else if longest < length then none
  else some (String.ofList (List.replicate (length - unitCount s) '0') ++ s)

end WarehouseRows.Text

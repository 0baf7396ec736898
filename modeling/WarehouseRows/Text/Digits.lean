/-!
# Digits

Reading and writing runs of decimal digits. Only the ten ASCII digits count.

## Main definitions

* `Text.digitsValue`: the number that a run of digits denotes.
* `Text.splitDigits`: the leading digits and what follows them.
* `Text.exactDigits?`: a fixed count of leading digits.
* `Text.padLeft`, `Text.padNat`: filling up to a width.
-/

namespace WarehouseRows.Text

/-- The value of one digit. -/
def digitValue (c : Char) : Nat :=
  c.toNat - '0'.toNat

/-- The number that a run of decimal digits denotes; zero for no digits. -/
def digitsValue (cs : List Char) : Nat :=
  cs.foldl (fun n c => 10 * n + digitValue c) 0

/-- The leading digits and the rest. -/
def splitDigits (cs : List Char) : List Char × List Char :=
  (cs.takeWhile Char.isDigit, cs.dropWhile Char.isDigit)

/-- Exactly `n` leading digits and the rest, which may go on with a digit. -/
def exactDigits? (n : Nat) (cs : List Char) : Option (List Char × List Char) :=
  let digits := cs.take n
  if digits.length = n ∧ digits.all Char.isDigit then some (digits, cs.drop n) else none

/-- The rest after one expected character. -/
def expect? (c : Char) : List Char → Option (List Char)
  | d :: rest => if d = c then some rest else none
  | [] => none

/-- A leading sign, if there is one: whether it is a minus, and the rest. -/
def splitSign : List Char → Bool × List Char
  | '-' :: rest => (true, rest)
  | '+' :: rest => (false, rest)
  | cs => (false, cs)

/-- The characters with copies of `c` in front, up to `width` in all. -/
def padLeft (c : Char) (width : Nat) (cs : List Char) : List Char :=
  List.replicate (width - cs.length) c ++ cs

/-- The characters with copies of `c` behind, up to `width` in all. -/
def padRight (c : Char) (width : Nat) (cs : List Char) : List Char :=
  cs ++ List.replicate (width - cs.length) c

/-- A natural number with zeros in front, up to `width` digits in all. -/
def padNat (width n : Nat) : List Char :=
  padLeft '0' width (Nat.repr n).toList

end WarehouseRows.Text

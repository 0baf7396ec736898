/-!
# Replacing matches in text

A rule looks at the text from a place on, and at the character in front of it, and
says how many characters match there and what stands in their stead. Replacing goes
from left to right; the characters of a match are not looked at again, and neither is
what replaces them.

## Main definitions

* `Match`: what a rule finds at a place.
* `replaceAll`: the text with all matches replaced.
-/

namespace WarehouseRows.Text

/-- A match at a place. -/
structure Match where
  /-- How many characters match behind the first. -/
  more : Nat
  replacement : List Char
  deriving Repr

/-- The characters behind a place, all matches replaced. `before` is the character in
front of the place, and the first `skip` characters belong to a match that has been
replaced already. -/
def replaceFrom (rule : Option Char → List Char → Option Match) :
    (before : Option Char) → (skip : Nat) → List Char → List Char
  | _, _, [] => []
  | _, skip + 1, c :: rest => replaceFrom rule (some c) skip rest
  | before, 0, c :: rest =>
    match rule before (c :: rest) with
    | some found => found.replacement ++ replaceFrom rule (some c) found.more rest
    | none => c :: replaceFrom rule (some c) 0 rest

/-- The text with all matches of a rule replaced. -/
def replaceAll (rule : Option Char → List Char → Option Match) (cs : List Char) : List Char :=
  replaceFrom rule none 0 cs

/-- The characters behind a text that they start with. -/
def after? (lead cs : List Char) : Option (List Char) :=
  if lead.isPrefixOf cs then some (cs.drop lead.length) else none

/-- The run of characters of a class in front and the characters behind it; there is
none when the run is empty. -/
def run? (p : Char → Bool) (cs : List Char) : Option (List Char × List Char) :=
  let taken := cs.takeWhile p
  if taken.isEmpty then none else some (taken, cs.dropWhile p)

end WarehouseRows.Text

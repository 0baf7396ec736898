import WarehouseRows.Json.Basic
import WarehouseRows.Number.Shortest
import WarehouseRows.Text.Digits

/-!
# JSON text

Writing a JSON value, either on one line without blanks or with each member and
item on a line of its own, two blanks deeper than what encloses it. In strings
only the quote, the backslash and the control characters below the blank are
escaped. A number that is not finite is written as `null`.

Each function takes the characters that come after what it writes, so that writing takes
time in proportion to the text.

## Main definitions

* `Json.compact`: the text on one line.
* `Json.indented`: the text over several lines.
-/

namespace WarehouseRows.Json

/-! ## Scalars -/

/-- A hexadecimal digit, in small letters. -/
def hexDigit (n : Nat) : Char :=
  if n < 10 then Char.ofNat ('0'.toNat + n) else Char.ofNat ('a'.toNat + (n - 10))

/-- The escape of a character by its number. -/
def numericEscape (c : Char) : List Char :=
  ['\\', 'u', '0', '0', hexDigit (c.toNat / 16), hexDigit (c.toNat % 16)]

/-- A character as it stands inside a string. -/
def escapeChar (c : Char) : List Char :=
  if c = '"' then ['\\', '"']
  else if c = '\\' then ['\\', '\\']
  else if c = '\n' then ['\\', 'n']
  else if c = '\r' then ['\\', 'r']
  else if c = '\t' then ['\\', 't']
  else if c = '\x08' then ['\\', 'b']
  else if c = '\x0c' then ['\\', 'f']
  else if c.toNat < 32 then numericEscape c
  else [c]

/-- A string with its quotes, and what comes after it. -/
def quotedThen (s : String) (after : List Char) : List Char :=
  '"' :: s.toList.flatMap escapeChar ++ '"' :: after

/-- The text of a number. -/
def numberText (x : Double) : String :=
  if x.isFinite then x.text else "null"

/-- The text of a truth value. -/
def boolText (b : Bool) : String :=
  if b then "true" else "false"

/-- A word and what comes after it. -/
def wordThen (word : String) (after : List Char) : List Char :=
  word.toList ++ after

/-! ## On one line -/

mutual

/-- A value on one line, and what comes after it. -/
def compactThen : Json → List Char → List Char
  | .null, after => wordThen "null" after
  | .bool b, after => wordThen (boolText b) after
  | .number x, after => wordThen (numberText x) after
  | .string s, after => quotedThen s after
  | .array items, after => '[' :: compactItemsThen items (']' :: after)
  | .object members, after => '\x7b' :: compactMembersThen members ('\x7d' :: after)

/-- Items with commas between them, and what comes after them. -/
def compactItemsThen : List Json → List Char → List Char
  | [], after => after
  | [item], after => compactThen item after
  | item :: rest, after => compactThen item (',' :: compactItemsThen rest after)

/-- Members with commas between them, and what comes after them. -/
def compactMembersThen : List (String × Json) → List Char → List Char
  | [], after => after
  | [(name, value)], after => quotedThen name (':' :: compactThen value after)
  | (name, value) :: rest, after =>
    quotedThen name (':' :: compactThen value (',' :: compactMembersThen rest after))

end

/-- The text of a value on one line. -/
def compact (j : Json) : String :=
  String.ofList (compactThen j [])

/-! ## Over several lines -/

/-- A line break and the blanks of a nesting depth, and what comes after them. -/
def newlineThen (depth : Nat) (after : List Char) : List Char :=
  '\n' :: List.replicate (2 * depth) ' ' ++ after

mutual

/-- A value that stands at a nesting depth, and what comes after it. -/
def indentedThen (depth : Nat) : Json → List Char → List Char
  | .null, after => wordThen "null" after
  | .bool b, after => wordThen (boolText b) after
  | .number x, after => wordThen (numberText x) after
  | .string s, after => quotedThen s after
  | .array [], after => '[' :: ']' :: after
  | .array items, after =>
    '[' :: indentedItemsThen (depth + 1) items (newlineThen depth (']' :: after))
  | .object [], after => '\x7b' :: '\x7d' :: after
  | .object members, after =>
    '\x7b' :: indentedMembersThen (depth + 1) members (newlineThen depth ('\x7d' :: after))

/-- Items, each on a line of its own, and what comes after them. -/
def indentedItemsThen (depth : Nat) : List Json → List Char → List Char
  | [], after => after
  | [item], after => newlineThen depth (indentedThen depth item after)
  | item :: rest, after =>
    newlineThen depth (indentedThen depth item (',' :: indentedItemsThen depth rest after))

/-- Members, each on a line of its own, and what comes after them. -/
def indentedMembersThen (depth : Nat) : List (String × Json) → List Char → List Char
  | [], after => after
  | [(name, value)], after =>
    newlineThen depth (quotedThen name (':' :: ' ' :: indentedThen depth value after))
  | (name, value) :: rest, after =>
    newlineThen depth <| quotedThen name <| ':' :: ' ' ::
      indentedThen depth value (',' :: indentedMembersThen depth rest after)

end

/-- The text of a value over several lines. -/
def indented (j : Json) : String :=
  String.ofList (indentedThen 0 j [])

end WarehouseRows.Json

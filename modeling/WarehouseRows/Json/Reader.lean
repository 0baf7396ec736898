import WarehouseRows.Json.Basic
import WarehouseRows.Number.Reading
import WarehouseRows.Text.Units

/-!
# Reading JSON text

Text is read by the JSON grammar and nothing wider: no comments, no trailing
commas, four kinds of blanks. Of repeated member names the last value counts. A
string escape that names half of a surrogate pair has no character and is read as
`U+FFFD`.

Every step of the reader consumes a character, so the count of characters bounds
the nesting and serves as the fuel of the recursion.

## Main definitions

* `Json.parse`: the value that text denotes, or where it stops being JSON.
-/

namespace WarehouseRows.Json

/-- What a reading step gives: a result and the characters after it, or the count
of characters that were left where reading failed. -/
abbrev Step (α : Type) := Except Nat (α × List Char)

/-! ## Blanks and fixed words -/

/-- The four blanks of the grammar. -/
def isJsonBlank (c : Char) : Bool :=
  c = ' ' || c = '\n' || c = '\r' || c = '\t'

/-- The characters after leading blanks. -/
def skipBlanks (cs : List Char) : List Char :=
  cs.dropWhile isJsonBlank

/-- A value that is written as a fixed word. -/
def readWord (word : List Char) (value : Json) (cs : List Char) : Step Json :=
  if word.isPrefixOf cs then .ok (value, cs.drop word.length) else .error cs.length

/-! ## Strings -/

/-- The value of a hexadecimal digit. -/
def hexValue? (c : Char) : Option Nat :=
  Double.baseDigit? 16 c

/-- The number that four hexadecimal digits denote. -/
def hexUnit? (a b c d : Char) : Option Nat := do
  let a ← hexValue? a
  let b ← hexValue? b
  let c ← hexValue? c
  let d ← hexValue? d
  pure (((a * 16 + b) * 16 + c) * 16 + d)

/-- The character that a one-letter escape stands for. -/
def simpleEscape? (c : Char) : Option Char :=
  match c with
  | '"' => some '"'
  | '\\' => some '\\'
  | '/' => some '/'
  | 'b' => some '\x08'
  | 'f' => some '\x0c'
  | 'n' => some '\n'
  | 'r' => some '\r'
  | 't' => some '\t'
  | _ => none

/-- The second half of a surrogate pair, when it is escaped next, and what
follows it. -/
def lowHalf? : List Char → Option (Nat × List Char)
  | '\\' :: 'u' :: a :: b :: c :: d :: rest =>
    match hexUnit? a b c d with
    | some n => if Text.isLowSurrogate n then some (n, rest) else none
    | none => none
  | _ => none

/-- The characters of a string after its first quote, up to and without the last.
Each character uses up one unit of fuel. -/
def readStringChars : Nat → List Char → Step (List Char)
  | 0, cs => .error cs.length
  | _, [] => .error 0
  | fuel + 1, c :: rest =>
    if c = '"' then .ok ([], rest)
    else if c = '\\' then
      match rest with
      | 'u' :: h₁ :: h₂ :: h₃ :: h₄ :: after =>
        match hexUnit? h₁ h₂ h₃ h₄ with
        | none => .error rest.length
        | some n =>
          match (if Text.isHighSurrogate n then lowHalf? after else none) with
          | some (low, after) => cons (Text.charOfPair n low) (readStringChars fuel after)
          | none => cons (Text.charOfUnit n) (readStringChars fuel after)
      | e :: after =>
        match simpleEscape? e with
        | some c => cons c (readStringChars fuel after)
        | none => .error rest.length
      | [] => .error 0
    else if c.toNat < 32 then .error (rest.length + 1)
    else cons c (readStringChars fuel rest)
where
  /-- One more character in front. -/
  cons (c : Char) : Step (List Char) → Step (List Char)
    | .ok (cs, rest) => .ok (c :: cs, rest)
    | .error left => .error left

/-- A string, its first quote included. -/
def readString (fuel : Nat) (cs : List Char) : Step String :=
  match cs with
  | '"' :: rest =>
    match readStringChars fuel rest with
    | .ok (chars, rest) => .ok (String.ofList chars, rest)
    | .error left => .error left
  | _ => .error cs.length

/-! ## Numbers -/

/-- The digits before the point: one zero, or digits that start with another. -/
def readIntegerPart (cs : List Char) : Step (List Char) :=
  match cs with
  | '0' :: rest => .ok (['0'], rest)
  | _ =>
    let (digits, rest) := Text.splitDigits cs
    if digits.isEmpty then .error cs.length else .ok (digits, rest)

/-- The digits after the point, if there is a point. -/
def readFractionPart (cs : List Char) : Step (List Char) :=
  match cs with
  | '.' :: rest =>
    let (digits, after) := Text.splitDigits rest
    if digits.isEmpty then .error rest.length else .ok (digits, after)
  | _ => .ok ([], cs)

/-- The exponent, if there is one; zero otherwise. -/
def readExponentPart (cs : List Char) : Step Int :=
  match cs with
  | c :: rest =>
    if c = 'e' ∨ c = 'E' then
      let (negative, rest) := Text.splitSign rest
      let (digits, after) := Text.splitDigits rest
      if digits.isEmpty then .error rest.length
      else .ok (Double.signed negative (Text.digitsValue digits), after)
    else .ok (0, cs)
  | [] => .ok (0, [])

/-- A number. -/
def readNumber (cs : List Char) : Step Json :=
  let negative := cs.head? == some '-'
  match readIntegerPart (if negative then cs.drop 1 else cs) with
  | .error left => .error left
  | .ok (whole, rest) =>
    match readFractionPart rest with
    | .error left => .error left
    | .ok (fraction, rest) =>
      match readExponentPart rest with
      | .error left => .error left
      | .ok (exponent, rest) =>
        let digits := Text.digitsValue (whole ++ fraction)
        .ok (.number (Double.ofDecimal negative digits (exponent - fraction.length)), rest)

/-! ## Values -/

mutual

/-- A value; blanks before it are skipped. -/
def readValue : Nat → List Char → Step Json
  | 0, cs => .error cs.length
  | fuel + 1, cs =>
    match skipBlanks cs with
    | [] => .error 0
    | '\x7b' :: rest =>
      match skipBlanks rest with
      | '\x7d' :: after => .ok (.object [], after)
      | _ =>
        match readMembers fuel rest with
        | .ok (members, after) => .ok (.object (Members.ofPairs members), after)
        | .error left => .error left
    | '[' :: rest =>
      match skipBlanks rest with
      | ']' :: after => .ok (.array [], after)
      | _ =>
        match readItems fuel rest with
        | .ok (items, after) => .ok (.array items, after)
        | .error left => .error left
    | '"' :: rest =>
      match readString fuel ('"' :: rest) with
      | .ok (s, after) => .ok (.string s, after)
      | .error left => .error left
    | 't' :: rest => readWord "true".toList (.bool true) ('t' :: rest)
    | 'f' :: rest => readWord "false".toList (.bool false) ('f' :: rest)
    | 'n' :: rest => readWord "null".toList .null ('n' :: rest)
    | cs => readNumber cs

/-- The items of an array up to and with its closing bracket. -/
def readItems : Nat → List Char → Step (List Json)
  | 0, cs => .error cs.length
  | fuel + 1, cs =>
    match readValue fuel cs with
    | .error left => .error left
    | .ok (item, rest) =>
      match skipBlanks rest with
      | ']' :: after => .ok ([item], after)
      | ',' :: after =>
        match readItems fuel after with
        | .ok (items, after) => .ok (item :: items, after)
        | .error left => .error left
      | rest => .error rest.length

/-- The members of an object up to and with its closing brace. -/
def readMembers : Nat → List Char → Step (List (String × Json))
  | 0, cs => .error cs.length
  | fuel + 1, cs =>
    match readString fuel (skipBlanks cs) with
    | .error left => .error left
    | .ok (name, rest) =>
      match skipBlanks rest with
      | ':' :: rest =>
        match readValue fuel rest with
        | .error left => .error left
        | .ok (value, rest) =>
          match skipBlanks rest with
          | '\x7d' :: after => .ok ([(name, value)], after)
          | ',' :: after =>
            match readMembers fuel after with
            | .ok (members, after) => .ok ((name, value) :: members, after)
            | .error left => .error left
          | rest => .error rest.length
      | rest => .error rest.length

end

/-! ## Documents -/

/-- Where a text stops being JSON, counted in characters from its start. -/
structure SyntaxFault where
  position : Nat
  deriving DecidableEq, Repr

/-- The fault in words. -/
def SyntaxFault.message (fault : SyntaxFault) : String :=
  s!"unexpected input at position {fault.position}"

/-- The value that a text denotes. -/
def parse (text : String) : Except SyntaxFault Json :=
  let cs := text.toList
  match readValue (2 * cs.length + 2) cs with
  | .error left => .error ⟨cs.length - left⟩
  | .ok (value, rest) =>
    match skipBlanks rest with
    | [] => .ok value
    | rest => .error ⟨cs.length - rest.length⟩

end WarehouseRows.Json

import WarehouseRows.Text.CaseTable

/-!
# Letter case

Capital and small forms of text by the full Unicode mappings, in no particular
language. One character may become several: `ß` becomes `SS`, and `İ` becomes `i`
with a combining dot. The capital sigma becomes the final form `ς` where a letter
stands before it and none after it, characters that are ignored for this purpose
aside.

## Main definitions

* `Text.toUpper`, `Text.toLower`: text in capital and in small letters.
* `Text.asciiLower`: small letters for the ASCII capitals only.
-/

namespace WarehouseRows.Text

/-! ## Classes -/

/-- Whether a code point lies in one of the ranges. -/
def inRanges (ranges : List (Nat × Nat)) (n : Nat) : Bool :=
  ranges.any fun r => r.1 ≤ n && n ≤ r.2

/-- A letter with case. -/
def isCased (c : Char) : Bool :=
  inRanges casedRanges c.toNat

/-- A character passed over when looking for a neighbouring letter. -/
def isCaseIgnorable (c : Char) : Bool :=
  inRanges caseIgnorableRanges c.toNat

/-! ## Mappings -/

/-- The image of a code point under the first run that holds it. -/
def mapRuns (runs : List CaseRun) (n : Nat) : Nat :=
  match runs.find? fun r => r.first ≤ n && n ≤ r.last && (n - r.first) % r.step == 0 with
  | some r => (n + r.offset).toNat
  | none => n

/-- The capital form of a character. -/
def upperOf (c : Char) : List Char :=
  match upperExpansions.lookup c.toNat with
  | some image => image.map Char.ofNat
  | none => [Char.ofNat (mapRuns upperRuns c.toNat)]

/-- The small form of a character on its own. -/
def lowerOf (c : Char) : List Char :=
  if c = 'İ' then ['i', '\u0307'] else [Char.ofNat (mapRuns lowerRuns c.toNat)]

/-- Whether the nearest character that is not passed over is a letter with case. -/
def nextIsCased (cs : List Char) : Bool :=
  match cs.dropWhile isCaseIgnorable with
  | c :: _ => isCased c
  | [] => false

/-- The small forms of characters; `before` holds those to the left, nearest
first. -/
def lowerChars (before : List Char) : List Char → List Char
  | [] => []
  | c :: rest =>
    let image :=
      if c = 'Σ' then
        if nextIsCased before && !nextIsCased rest then ['ς'] else ['σ']
      else lowerOf c
    image ++ lowerChars (c :: before) rest

/-- The text in capital letters. -/
def toUpper (s : String) : String :=
  String.ofList (s.toList.flatMap upperOf)

/-- The text in small letters. -/
def toLower (s : String) : String :=
  String.ofList (lowerChars [] s.toList)

/-! ## ASCII letters only -/

/-- The small form of an ASCII capital; any other character stays. -/
def asciiLowerChar (c : Char) : Char :=
  if 'A' ≤ c ∧ c ≤ 'Z' then Char.ofNat (c.toNat + 32) else c

/-- The text with small letters for the ASCII capitals. -/
def asciiLower (s : String) : String :=
  String.ofList (s.toList.map asciiLowerChar)

end WarehouseRows.Text

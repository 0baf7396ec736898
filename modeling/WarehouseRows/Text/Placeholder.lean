import WarehouseRows.Text.Blank

/-!
# Placeholders in text

A placeholder is a dollar sign with a text in braces behind it. The text is not
empty and has no closing brace in it; whatever else it holds, even a dollar sign
with an opening brace, belongs to it. Placeholders are found from left to right and
do not overlap.

The text of a placeholder is a name and, behind the first `:-`, a default, which
ends at the next `:-`.

## Main definitions

* `Piece`: a character of a text, or a placeholder.
* `Piece.scan`: the pieces of a text.
* `Placeholder.name`, `Placeholder.fallback`: what a placeholder asks for.
-/

namespace WarehouseRows

/-! ## The parts of a placeholder -/

/-- The text inside the braces of a placeholder. -/
abbrev Placeholder := List Char

namespace Placeholder

/-- The characters in front of the first `:-` and, if there is one, those behind
it. -/
def cut : List Char → List Char × Option (List Char)
  | [] => ([], none)
  | ':' :: '-' :: rest => ([], some rest)
  | c :: rest => (c :: (cut rest).1, (cut rest).2)

/-- The name that a placeholder asks for; blanks around it do not count. -/
def name (inner : Placeholder) : String :=
  String.ofList (Text.trimChars (cut inner).1)

/-- The default of a placeholder. -/
def fallback (inner : Placeholder) : Option String :=
  (cut inner).2.map fun rest => String.ofList (cut rest).1

/-- The placeholder as it is written. -/
def written (inner : Placeholder) : List Char :=
  '$' :: '{' :: inner ++ ['}']

end Placeholder

/-! ## Pieces -/

/-- A character of a text, or a placeholder. -/
inductive Piece where
  | plain (c : Char)
  | placeholder (inner : Placeholder)
  deriving DecidableEq, Repr

namespace Piece

mutual

/-- The pieces of a text. -/
def scan : List Char → List Piece
  | [] => []
  | '$' :: '{' :: rest => scanInside [] rest
  | c :: rest => plain c :: scan rest

/-- The pieces of a text that goes on inside an open placeholder; `seen` is what it
holds so far, last character first. -/
def scanInside (seen : List Char) : List Char → List Piece
  | [] => ('$' :: '{' :: seen.reverse).map plain
  | '}' :: rest =>
    if seen.isEmpty then plain '$' :: plain '{' :: plain '}' :: scan rest
    else placeholder seen.reverse :: scan rest
  | c :: rest => scanInside (c :: seen) rest

end

/-- The characters of a piece. -/
def written : Piece → List Char
  | plain c => [c]
  | placeholder inner => inner.written

end Piece

end WarehouseRows

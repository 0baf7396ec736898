/-!
# White space

The characters that trimming removes: the white space and line terminators of
Unicode text, with the byte order mark among them. The next-line control
`U+0085`, the Mongolian vowel separator `U+180E` and the zero-width space
`U+200B` are not blank.

## Main definitions

* `Text.isBlank`: a blank character.
* `Text.trimChars`: characters without the blanks at the two ends.
-/

namespace WarehouseRows.Text

/-- Whether trimming removes the character. -/
def isBlank (c : Char) : Bool :=
  let n := c.toNat
  (9 ≤ n && n ≤ 13) || n == 0x20 || n == 0xA0 || n == 0x1680 || (0x2000 ≤ n && n ≤ 0x200A) ||
    n == 0x2028 || n == 0x2029 || n == 0x202F || n == 0x205F || n == 0x3000 || n == 0xFEFF

/-- The characters without the blanks at the two ends. -/
def trimChars (cs : List Char) : List Char :=
  ((cs.dropWhile isBlank).reverse.dropWhile isBlank).reverse

end WarehouseRows.Text

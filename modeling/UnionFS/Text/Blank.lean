import UnionFS.Text.Pieces

/-!
# Blanks and lines

The characters that Unicode lists as white space, and the lines of a text.
-/

namespace UnionFS.Text

/-- A character with the property `White_Space`. -/
def isBlank (c : Char) : Bool :=
  let n := c.toNat
  (0x09 ≤ n && n ≤ 0x0D) || n == 0x20 || n == 0x85 || n == 0xA0 || n == 0x1680
    || (0x2000 ≤ n && n ≤ 0x200A) || n == 0x2028 || n == 0x2029 || n == 0x202F || n == 0x205F
    || n == 0x3000

/-- What stands between the line feeds of a text. -/
def lines (text : List Char) : List (List Char) :=
  pieces (· == '\n') text

/-- A text without the blanks at its ends. -/
def trim (text : List Char) : List Char :=
  ((text.dropWhile isBlank).reverse.dropWhile isBlank).reverse

end UnionFS.Text

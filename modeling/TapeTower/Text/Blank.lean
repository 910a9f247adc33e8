import TapeTower.Text.Ranges

/-!
# Blanks

The white space of Unicode, and trimming a text of it at both ends.
-/

namespace TapeTower.Text

/-- The ranges of code points that have the Unicode property `White_Space`. -/
def blankRanges : List (Nat × Nat) :=
  [(0x09, 0x0D), (0x20, 0x20), (0x85, 0x85), (0xA0, 0xA0), (0x1680, 0x1680), (0x2000, 0x200A),
    (0x2028, 0x2029), (0x202F, 0x202F), (0x205F, 0x205F), (0x3000, 0x3000)]

/-- A blank is a character of Unicode white space. -/
def isBlank (c : Char) : Bool :=
  inRanges blankRanges c

/-- A text without the blanks at its ends. -/
def trim (text : List Char) : List Char :=
  ((text.dropWhile isBlank).reverse.dropWhile isBlank).reverse

end TapeTower.Text

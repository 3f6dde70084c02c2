import Klingon.Text.Range

/-!
# Blank characters

A character is blank when it has the White_Space property: the ASCII blanks and controls, the
next-line control, the spaces of various widths, and the two separators.
-/

namespace Klingon.Text

/-- The characters with the White_Space property. -/
def blankRanges : List (Nat × Nat) :=
  [ (0x9, 0xD), (0x20, 0x20), (0x85, 0x85), (0xA0, 0xA0), (0x1680, 0x1680), (0x2000, 0x200A),
    (0x2028, 0x2029), (0x202F, 0x202F), (0x205F, 0x205F), (0x3000, 0x3000) ]

def isBlank (c : Char) : Bool :=
  inRanges blankRanges c

end Klingon.Text

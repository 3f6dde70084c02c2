/-!
# Ranges of characters

A class of characters is given by the ranges of code points it consists of, both ends included.
-/

namespace Klingon.Text

/-- A character belongs to a class when one of the ranges holds its code point. -/
def inRanges (ranges : List (Nat × Nat)) (c : Char) : Bool :=
  ranges.any fun r => r.1 ≤ c.toNat && c.toNat ≤ r.2

end Klingon.Text

/-!
# Ranges of code points

Classes of characters are given by tables of ranges.
-/

namespace TapeTower.Text

/-- Whether a character lies in one of the ranges, whose ends belong to them. -/
def inRanges (ranges : List (Nat × Nat)) (c : Char) : Bool :=
  ranges.any fun (low, high) => low ≤ c.toNat && c.toNat ≤ high

end TapeTower.Text

/-!
# Directions

The two ways along anything laid out in a line: a text or a tape.
-/

namespace TapeTower

/-- A way along a text or a tape. -/
inductive Direction where
  | forward
  | backward
  deriving DecidableEq, Repr

end TapeTower

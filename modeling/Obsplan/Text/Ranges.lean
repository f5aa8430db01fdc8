/-!
# Ranges of characters

A property of characters is given by an array of ascending ranges of code points.
-/

namespace Obsplan.Text

/-- Whether a character lies in one of the ranges. -/
def inRanges (ranges : Array (Nat × Nat)) (c : Char) : Bool :=
  ranges.any fun r => decide (r.1 ≤ c.toNat) && decide (c.toNat ≤ r.2)

end Obsplan.Text

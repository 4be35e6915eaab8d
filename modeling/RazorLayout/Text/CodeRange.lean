/-!
# Ranges of code points

A property of characters is given as a list of code point ranges, both ends included.
-/

namespace RazorLayout

/-- Whether the character lies in one of the ranges. -/
def inRanges (ranges : List (Nat × Nat)) (c : Char) : Bool :=
  ranges.any fun range => range.1 ≤ c.toNat && c.toNat ≤ range.2

end RazorLayout

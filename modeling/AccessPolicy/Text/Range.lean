/-!
# Ranges of characters

A class of characters is given by the ranges of their code points.
-/

namespace AccessPolicy.Text

/-- Whether a code point lies in one of some ranges, ends included. -/
def inRanges (ranges : List (Nat × Nat)) (n : Nat) : Bool :=
  ranges.any fun (low, high) => low ≤ n && n ≤ high

end AccessPolicy.Text

/-!
Sets of characters given as increasing ranges of code points.
-/

namespace ReadOnlyViews

/-- Increasing, disjoint ranges of code points, both ends included. -/
abbrev Ranges := List (Nat × Nat)

/-- Whether a code point lies in one of the ranges; the search ends at the first range above it. -/
def Ranges.has : Ranges → Nat → Bool
  | [], _ => false
  | (low, high) :: others, n => if n < low then false else n ≤ high || Ranges.has others n

end ReadOnlyViews

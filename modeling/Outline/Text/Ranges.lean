/-!
Sets of code points, written as ascending ranges.
-/
namespace Outline.Text
set_option autoImplicit false

/-- Whether a code point lies in one of the ranges. They are in ascending order, so the search ends
at the first range that starts above it. -/
def inRanges : List (Nat × Nat) → Nat → Bool
  | [], _ => false
  | (first, last) :: rest, c =>
    if c < first then false else if c ≤ last then true else inRanges rest c

end Outline.Text

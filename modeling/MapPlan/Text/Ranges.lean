/-! # Membership in a table of code point ranges -/

namespace MapPlan.Text

/-- Is `n` in one of the ranges? The ranges are inclusive, disjoint and ascending, so the search
stops at the first one that starts above `n`. -/
def inRanges : List (Nat × Nat) → Nat → Bool
  | [], _ => false
  | (lo, hi) :: ranges, n => lo ≤ n && (n ≤ hi || inRanges ranges n)

end MapPlan.Text

/-! Sets of code points as ascending lists of closed ranges. -/

namespace BearLex

/-- The code point `n` lies in one of the ranges, which are ascending. -/
def inRanges (n : Nat) : List (Nat × Nat) → Bool
  | [] => false
  | (first, last) :: rest => decide (first ≤ n) && (decide (n ≤ last) || inRanges n rest)

end BearLex

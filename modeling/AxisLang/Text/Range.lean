/-! Sets of code points given as ranges. -/
namespace AxisLang

/-- Whether a number lies in one of the ranges, ends included. The ranges are in increasing order,
so the search stops at the first range that ends at or after the number. -/
def inRanges (n : Nat) : List (Nat × Nat) → Bool
  | [] => false
  | (lo, hi) :: rest => if n ≤ hi then lo ≤ n else inRanges n rest

end AxisLang

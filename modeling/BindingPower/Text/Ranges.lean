/-! Sets of code points given as closed ranges in increasing order. -/
namespace BindingPower.Text

/-- Whether `n` lies in one of the ranges. The walk stops at the first range above `n`. -/
def inRanges : List (Nat × Nat) → Nat → Bool
  | [], _ => false
  | (low, high) :: rest, n => if n < low then false else if n ≤ high then true else inRanges rest n

end BindingPower.Text

/-
Sets of numbers given as ranges, as the character standard lists its classes.
-/

namespace ImportResolution.Text

/-- Whether a number lies in one of some ranges in rising order. -/
def inRanges (n : Nat) : List (Nat × Nat) → Bool
  | [] => false
  | (low, high) :: rest => if n < low then false else if n ≤ high then true else inRanges n rest

end ImportResolution.Text

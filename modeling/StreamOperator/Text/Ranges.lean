/-! Sets of code points given as ranges, both ends included. -/

namespace StreamOperator.Text

def inRanges (ranges : List (Nat × Nat)) (n : Nat) : Bool :=
  ranges.any fun (low, high) => low ≤ n && n ≤ high

end StreamOperator.Text

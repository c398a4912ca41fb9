/-!
Classes of characters given as ranges of code points.
-/

namespace SketchLisp.Text

/-- Whether a character lies in one of the ranges, whose first and last code
points are given. -/
def inRanges (ranges : List (Nat × Nat)) (c : Char) : Bool :=
  ranges.any fun (first, last) => first ≤ c.toNat && c.toNat ≤ last

/-- How many code points ranges that do not overlap hold. -/
def countInRanges : List (Nat × Nat) → Nat
  | [] => 0
  | (first, last) :: rest => last + 1 - first + countInRanges rest

end SketchLisp.Text

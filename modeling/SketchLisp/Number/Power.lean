/-!
Powers with whole exponents, as quotients of natural numbers.

The power `base ^ exponent` is `powNum base exponent / powDen base exponent`, of
which at least one is one.
-/

namespace SketchLisp

/-- The numerator of a power: the power itself, unless its exponent is negative. -/
def powNum (base : Nat) (exponent : Int) : Nat := Nat.pow base exponent.toNat

/-- The denominator of a power: one, unless its exponent is negative. -/
def powDen (base : Nat) (exponent : Int) : Nat := Nat.pow base (-exponent).toNat

@[simp] theorem powDen_natCast (base n : Nat) : powDen base n = 1 := by
  simp [powDen]

@[simp] theorem powNum_neg_natCast (base n : Nat) : powNum base (-n) = 1 := by
  simp [powNum]

end SketchLisp

/-!
Arities: how many operands a form or a procedure takes.
-/

namespace SketchLisp

/-- A condition on the number of operands. -/
inductive Arity where
  | exactly (count : Nat)
  | atLeast (count : Nat)
  | oneOf (first second : Nat)
deriving DecidableEq, Repr

namespace Arity

/-- Whether a number of operands is allowed. -/
def accepts : Arity → Nat → Bool
  | exactly n, count => count == n
  | atLeast n, count => n ≤ count
  | oneOf m n, count => count == m || count == n

theorem eq_of_accepts {n count : Nat} (h : (exactly n).accepts count = true) : count = n :=
  eq_of_beq h

/-- How messages show an arity. -/
def text : Arity → String
  | exactly n => s!"{n}"
  | atLeast n => s!"at least {n}"
  | oneOf m n => s!"{m} or {n}"

end Arity

end SketchLisp

import SketchLisp.Expr

/-!
Result lines: how the value of a program is shown.
-/

namespace SketchLisp

/-- The line that shows a value. Only its head is shown: a number or a boolean
in brackets, a figure as it is written, and nothing else. -/
def Expr.resultLine? (e : Expr) : Option String :=
  match e.head with
  | .number _ | .boolean _ => some ("(" ++ e.head.text ++ ")")
  | .point _ | .line _ | .arc _ => some e.head.text
  | .nothing | .symbol _ => none

end SketchLisp

import SketchLisp.Number.Numeral
import SketchLisp.Number.Shortest

/-!
Numbers as text.

* `Number.text`: a double in its shortest decimal, never with an exponent;
* `Number.read?`: the double nearest to a numeral.
-/

namespace SketchLisp.Number

/-- The text of a magnitude that stands for a number or for infinity. -/
def magnitudeText (bits : Nat) : List Char :=
  if bits = 0 then ['0']
  else if bits = Binary64.infinity then ['i', 'n', 'f']
  else (Decimal.shortest bits).positional

/-- The text of a double: the fewest digits that read back as the same double,
without an exponent and without a point that nothing follows. Zero keeps its
sign, and what is not a number has none. -/
def text (x : Float) : String :=
  let bits := Binary64.magnitude x
  if Binary64.infinity < bits then "NaN"
  else if Binary64.isNegative x then String.ofList ('-' :: magnitudeText bits)
  else String.ofList (magnitudeText bits)

/-- The double that a numeral stands for, if the text is one. -/
def read? (text : String) : Option Float := (Numeral.read? text.toList).map Numeral.toFloat

end SketchLisp.Number

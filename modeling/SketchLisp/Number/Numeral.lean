import SketchLisp.Number.Decimal

/-!
Numerals: the written form of numbers.

A numeral is an optional sign, digits with at most one point among or around
them, and an optional exponent, itself with an optional sign. There is at least
one digit before the exponent, and at least one in it.

* `Numeral.read?`: the numeral that a text spells, if it spells one;
* `Numeral.toFloat`: the double nearest to a numeral.
-/

namespace SketchLisp

/-- A signed decimal; zero has two signs. -/
structure Numeral where
  negative : Bool
  decimal : Decimal
deriving DecidableEq, Repr

namespace Numeral

/-- Takes an optional sign off a text; the flag tells whether it is a minus. -/
def readSign : List Char → Bool × List Char
  | '-' :: rest => (true, rest)
  | '+' :: rest => (false, rest)
  | rest => (false, rest)

/-- Takes the digits after the point off a text, if it starts with a point. -/
def readFraction : List Char → List Char × List Char
  | '.' :: rest => (rest.takeWhile Char.isDigit, rest.dropWhile Char.isDigit)
  | rest => ([], rest)

/-- The value of the rest of a numeral after its digits: nothing, or the letter
`e` in either case and a signed whole number. -/
def readExponent? : List Char → Option Int
  | [] => some 0
  | letter :: rest =>
    let (negative, digits) := readSign rest
    if (letter == 'e' || letter == 'E') && !digits.isEmpty && digits.all Char.isDigit then
      let size : Int := Nat.ofDigitChars 10 digits 0
      some (if negative then -size else size)
    else none

/-- The numeral that a text spells, if it spells one. -/
def read? (text : List Char) : Option Numeral :=
  let (negative, body) := readSign text
  let whole := body.takeWhile Char.isDigit
  let (fraction, rest) := readFraction (body.dropWhile Char.isDigit)
  if whole.isEmpty && fraction.isEmpty then none
  else
    (readExponent? rest).map fun exponent =>
      ⟨negative, ⟨Nat.ofDigitChars 10 (whole ++ fraction) 0, exponent - fraction.length⟩⟩

/-- The double nearest to a numeral, a half going to the even one. -/
def toFloat (n : Numeral) : Float := Binary64.ofMagnitude n.negative n.decimal.nearest

end Numeral

end SketchLisp

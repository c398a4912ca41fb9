import SketchLisp.Number.Binary64

/-!
Decimals: a natural number of units of a power of ten.

* `Decimal.nearest`: the magnitude of the double nearest to a decimal;
* `Decimal.positional`: a decimal written without an exponent.
-/

namespace SketchLisp

/-- The number `digits · 10 ^ exponent`. -/
structure Decimal where
  digits : Nat
  exponent : Int
deriving DecidableEq, Repr

namespace Decimal

/-- No double is as large as `10 ^ range`, and none but zero is as small as
`10 ^ -range`. -/
def range : Nat := 400

/-- The magnitude nearest to a decimal. Decimals far outside the range of
doubles are answered without computing their power of ten. -/
def nearest (d : Decimal) : Nat :=
  if d.digits = 0 then 0
  else if (range : Int) < d.exponent then Binary64.infinity
  else if d.exponent < -((d.digits.log2 + 1 + range : Nat) : Int) then 0
  else Binary64.nearest (d.digits * powNum 10 d.exponent) (powDen 10 d.exponent)

/-- The last `places` digits of `n`, zeros included. -/
def lastDigits (places n : Nat) : List Char :=
  let digits := Nat.toDigits 10 (n % Nat.pow 10 places)
  List.replicate (places - digits.length) '0' ++ digits

/-- A decimal written out: zeros fill the places up to the point, and the point
is written only if digits follow it. -/
def positional (d : Decimal) : List Char :=
  if 0 ≤ d.exponent then
    Nat.toDigits 10 d.digits ++ List.replicate d.exponent.toNat '0'
  else
    let places := (-d.exponent).toNat
    Nat.toDigits 10 (d.digits / powDen 10 d.exponent) ++ '.' :: lastDigits places d.digits

end Decimal

end SketchLisp

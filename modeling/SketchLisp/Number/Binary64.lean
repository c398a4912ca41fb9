import SketchLisp.Number.Power

/-!
The binary64 format, on magnitudes.

A magnitude is the 63-bit pattern of a double without its sign, taken as a
natural number. Magnitudes grow with the value they stand for, so that
rounding to the next double up is adding one, across every change of exponent
and up to infinity.

* `decode`: a finite magnitude as `significand · 2 ^ exponent`;
* `nearest`: the magnitude nearest to a quotient of natural numbers, a half
  going to the even one;
* `ofMagnitude`, `magnitude`, `isNegative`: the way to doubles and back.
-/

namespace SketchLisp.Binary64

/-! ### Patterns -/

/-- The number of stored bits of the significand. -/
def fractionBits : Nat := 52

/-- The leading bit of the significand, which is not stored. -/
def leadingBit : Nat := 0x10000000000000

/-- The bit that tells negative doubles from positive ones. -/
def signBit : Nat := 0x8000000000000000

/-- The exponent of the least significant bit of the smallest doubles. -/
def leastExponent : Int := -1074

/-- The magnitude of infinity. What lies above it is not a number. -/
def infinity : Nat := 0x7FF * leadingBit

/-- The double with a given sign and magnitude. -/
def ofMagnitude (negative : Bool) (bits : Nat) : Float :=
  Float.ofBits (UInt64.ofNat (if negative then signBit + bits else bits))

/-- The bits of a double without its sign. -/
def magnitude (x : Float) : Nat := x.toBits.toNat % signBit

/-- Whether the sign bit of a double is set, as it is for `-0`. -/
def isNegative (x : Float) : Bool := signBit ≤ x.toBits.toNat

/-- A number of the form `significand · 2 ^ exponent`. -/
structure Scaled where
  significand : Nat
  exponent : Int
deriving DecidableEq, Repr

/-- The value of a finite magnitude. Below the least normal exponent the
leading bit is not implied. -/
def decode (bits : Nat) : Scaled :=
  let field := bits / leadingBit
  let fraction := bits % leadingBit
  if field = 0 then ⟨fraction, leastExponent⟩
  else ⟨leadingBit + fraction, leastExponent + field - 1⟩

/-! ### Rounding -/

/-- The natural number nearest to `num / den`; a half goes to the even one. -/
def roundHalfEven (num den : Nat) : Nat :=
  let low := num / den
  let rest := num % den
  if 2 * rest < den then low
  else if den < 2 * rest then low + 1
  else low + low % 2

/-- The exponent `k` with `2 ^ k ≤ num / den < 2 ^ (k + 1)`, for positive
`num` and `den`. The difference of the two binary logarithms is `k` or one
more. -/
def floorLog2 (num den : Nat) : Int :=
  let k : Int := num.log2 - den.log2
  if den * powNum 2 k ≤ num * powDen 2 k then k else k - 1

/-- The magnitude nearest to `num / den`; a half goes to the even one, and what
is too large goes to infinity. A significand that rounds up to the next power
of two carries into the exponent by itself. -/
def nearest (num den : Nat) : Nat :=
  if num = 0 then 0
  else
    let exponent := max (floorLog2 num den - fractionBits) leastExponent
    let significand := roundHalfEven (num * powDen 2 exponent) (den * powNum 2 exponent)
    min ((exponent - leastExponent).toNat * leadingBit + significand) infinity

end SketchLisp.Binary64

import SketchLisp.Number.Decimal

/-!
The shortest decimal of a double.

The multiples of `10 ^ g` form a grid. On grids from coarse to fine, the two
neighbours of the value are tried, the nearer one first, and the first that
reads back as the same double is taken. If any point of a grid reads back, so
does one of the two neighbours; hence no decimal with fewer digits reads back.

* `shortest`: the decimal of a finite magnitude;
* `exact`: the value itself as a decimal, which always reads back.
-/

namespace SketchLisp.Decimal

open Binary64 (Scaled)

/-- A finite magnitude as a decimal, digit by digit: `2 ^ -k = 5 ^ k · 10 ^ -k`. -/
def exact (value : Scaled) : Decimal :=
  if 0 ≤ value.exponent then ⟨value.significand * powNum 2 value.exponent, 0⟩
  else ⟨value.significand * powDen 5 value.exponent, value.exponent⟩

/-- The two neighbours of a value among the multiples of `10 ^ grid`, the nearer
one first and of two equally near ones the larger. -/
def neighbours (value : Scaled) (grid : Int) : List Decimal :=
  let num := value.significand * powNum 2 value.exponent * powDen 10 grid
  let den := powDen 2 value.exponent * powNum 10 grid
  let low := num / den
  if 2 * (num % den) < den then [⟨low, grid⟩, ⟨low + 1, grid⟩]
  else [⟨low + 1, grid⟩, ⟨low, grid⟩]

/-- An exponent `k` with `value < 10 ^ k`, by `log 2 < 30103 / 100000`. -/
def coarsestGrid (value : Scaled) : Int :=
  (value.significand.log2 + 1 + value.exponent) * 30103 / 100000 + 1

/-- Seventeen digits always suffice; the estimate of the first grid may be one
or two places high. -/
def gridCount : Nat := 20

/-- The decimal with the fewest digits that reads back as the given magnitude,
the nearest one if there are several. -/
def shortest (bits : Nat) : Decimal :=
  let value := Binary64.decode bits
  let first := coarsestGrid value
  let found := (List.range gridCount).findSome? fun (i : Nat) =>
    (neighbours value (first - (i : Int))).find? fun d => d.nearest = bits
  found.getD (exact value)

end SketchLisp.Decimal

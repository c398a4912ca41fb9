import Mathlib.Analysis.Real.Pi.Bounds
import SketchLisp.Environment
import SketchLisp.Proofs.Rounding

/-!
The number that `pi` stands for.

It is less than half a step away from `π`, and every other double is at least a whole step away
from it, so none is nearer.

* `Binary64.exists_grid_or_lt_two`: a double lies on the grid of the doubles between `2` and `4`,
  or it is less than `2`;
* `Number.pi_nearest`: no double is nearer to `π` than `pi`.
-/

namespace SketchLisp

open Real (pi_gt_d20 pi_lt_d20)

namespace Binary64

/-- The step between doubles from `2` up to `4`. -/
def spacing : ℚ := 2 ^ (-51 : ℤ)

/-- A value with a large exponent is a whole number of steps. -/
lemma exists_value_eq_mul_spacing {v : Scaled} (h : -51 ≤ v.exponent) :
    ∃ n : ℕ, v.value = n * spacing := by
  obtain ⟨k, hk⟩ := Int.eq_ofNat_of_zero_le (show 0 ≤ v.exponent + 51 by omega)
  refine ⟨v.significand * 2 ^ k, ?_⟩
  rw [Scaled.value, spacing, show v.exponent = k + -51 by omega, zpow_add₀ two_ne_zero,
    zpow_natCast]
  push_cast
  ring

/-- Two different whole numbers of steps are at least one step apart. -/
lemma spacing_le_abs_sub {m n : ℕ} (h : m ≠ n) : spacing ≤ |m * spacing - n * spacing| := by
  have hspacing : 0 ≤ spacing := by
    rw [spacing]
    positivity
  have hone : (1 : ℚ) ≤ |(m : ℚ) - n| := by
    exact_mod_cast Int.one_le_abs (sub_ne_zero.2 (Nat.cast_injective.ne h))
  rw [← sub_mul, abs_mul, abs_of_nonneg hspacing]
  exact le_mul_of_one_le_left hspacing hone

/-- The doubles from `2` on are whole numbers of steps. -/
lemma exists_grid_or_lt_two (bits : ℕ) :
    (∃ n : ℕ, (decode bits).value = n * spacing) ∨ (decode bits).value < 2 := by
  rcases Nat.lt_or_ge bits (2 ^ 52) with hbits | hbits
  · right
    rw [decode_of_lt hbits]
    calc Scaled.value ⟨bits, -1074⟩ < 2 ^ (52 + -1074 : ℤ) := value_lt_zpow hbits
      _ ≤ 2 ^ (1 : ℤ) := zpow_le_zpow_right₀ one_le_two (by omega)
      _ = 2 := zpow_one 2
  · rw [decode_of_le hbits]
    rcases lt_or_ge ((bits / 2 ^ 52 : ℕ) - 1075 : ℤ) (-51) with hexp | hexp
    · right
      have hhigh : 2 ^ 52 + bits % 2 ^ 52 < 2 ^ 53 := by omega
      calc Scaled.value ⟨2 ^ 52 + bits % 2 ^ 52, (bits / 2 ^ 52 : ℕ) - 1075⟩
          < 2 ^ (53 + ((bits / 2 ^ 52 : ℕ) - 1075 : ℤ)) := value_lt_zpow hhigh
        _ ≤ 2 ^ (1 : ℤ) := zpow_le_zpow_right₀ one_le_two (by omega)
        _ = 2 := zpow_one 2
    · exact .inl (exists_value_eq_mul_spacing hexp)

end Binary64

namespace Number

open Binary64

lemma value_pi : (decode (magnitude pi)).value = (7074237752028440 : ℕ) * spacing := by
  have hdecode : decode (magnitude pi) = ⟨7074237752028440, -51⟩ := by decide
  rw [hdecode]
  rfl

/-- The number `pi` is within half a step of `π`. -/
lemma abs_value_pi_sub_lt :
    |((decode (magnitude pi)).value : ℝ) - Real.pi| < (spacing : ℝ) / 2 := by
  have hlow := pi_gt_d20
  have hhigh := pi_lt_d20
  rw [value_pi, spacing, abs_lt]
  push_cast
  norm_num
  constructor <;> linarith

/-- **The number `pi`** is positive, and no double is nearer to `π`. -/
theorem pi_nearest : isNegative pi = false ∧ ∀ bits : ℕ,
    |((decode (magnitude pi)).value : ℝ) - Real.pi|
      ≤ |((decode bits).value : ℝ) - Real.pi| := by
  refine ⟨by decide, fun bits => ?_⟩
  have hpi := abs_value_pi_sub_lt
  rcases exists_grid_or_lt_two bits with ⟨n, hn⟩ | hlt
  · by_cases hsame : n = 7074237752028440
    · rw [value_pi, hn, hsame]
    · -- another point of the grid is a whole step away
      have hapart : (spacing : ℝ)
          ≤ |((decode bits).value : ℝ) - (decode (magnitude pi)).value| := by
        rw [hn, value_pi]
        exact_mod_cast spacing_le_abs_sub hsame
      have htriangle := abs_sub_le ((decode bits).value : ℝ) Real.pi (decode (magnitude pi)).value
      rw [abs_sub_comm Real.pi] at htriangle
      linarith
  · have hbelow : ((decode bits).value : ℝ) < 2 := by exact_mod_cast hlt
    have hfar : 1 < |((decode bits).value : ℝ) - Real.pi| := by
      rw [abs_of_neg (by linarith [pi_gt_d20])]
      linarith [pi_gt_d20]
    have hsmall : (spacing : ℝ) ≤ 1 := by
      rw [spacing]
      norm_num
    linarith

end Number

end SketchLisp

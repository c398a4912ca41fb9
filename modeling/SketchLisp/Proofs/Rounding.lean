import SketchLisp.Number.Shortest
import SketchLisp.Proofs.Double

/-!
Rounding to the nearest magnitude, on values that need no rounding.

A quotient of natural numbers that is exactly the value of a magnitude rounds to
that magnitude. The exact decimal of a double therefore reads back, and so does
the shortest one, which was either seen to read back or is the exact one.

* `Scaled.value`, `Decimal.value`: the rational numbers that are meant;
* `zpow_floorLog2_le`, `lt_zpow_floorLog2`: the exponent of a quotient;
* `nearest_of_value_eq`: an exact value is its own nearest magnitude;
* `Decimal.nearest_shortest`: the shortest decimal reads back.
-/

namespace SketchLisp

/-- A power is the quotient of its numerator and its denominator. -/
lemma powNum_div_powDen {base : ℕ} (hbase : 0 < base) (k : ℤ) :
    (powNum base k : ℚ) / powDen base k = (base : ℚ) ^ k := by
  have hne : (base : ℚ) ≠ 0 := by exact_mod_cast hbase.ne'
  rcases Int.le_total 0 k with hk | hk
  · obtain ⟨n, rfl⟩ := Int.eq_ofNat_of_zero_le hk
    simp [powNum]
  · obtain ⟨n, hn⟩ := Int.eq_ofNat_of_zero_le (Int.neg_nonneg.2 hk)
    obtain rfl : k = -n := by omega
    simp [powDen]

lemma powNum_pos {base : ℕ} (hbase : 0 < base) (k : ℤ) : 0 < powNum base k :=
  Nat.pow_pos hbase

lemma powDen_pos {base : ℕ} (hbase : 0 < base) (k : ℤ) : 0 < powDen base k :=
  Nat.pow_pos hbase

namespace Binary64

/-! ### The exponent of a quotient -/

/-- The number that is meant. -/
def Scaled.value (v : Scaled) : ℚ := v.significand * (2 : ℚ) ^ v.exponent

/-- A natural number lies between two powers of two. -/
lemma zpow_log2_le {n : ℕ} (hn : 0 < n) : (2 : ℚ) ^ (n.log2 : ℤ) ≤ n := by
  rw [zpow_natCast]
  exact_mod_cast Nat.log2_self_le hn.ne'

lemma lt_zpow_log2 (n : ℕ) : (n : ℚ) < (2 : ℚ) ^ (n.log2 + 1 : ℤ) := by
  have h : n < 2 ^ (n.log2 + 1) := Nat.lt_log2_self
  exact_mod_cast h

/-- The comparison that corrects the first estimate of the exponent. -/
lemma le_mul_powDen_iff {num den : ℕ} (hden : 0 < den) (k : ℤ) :
    den * powNum 2 k ≤ num * powDen 2 k ↔ (2 : ℚ) ^ k ≤ num / den := by
  have hpow : (0 : ℚ) < powDen 2 k := by exact_mod_cast powDen_pos two_pos k
  have hden' : (0 : ℚ) < den := by exact_mod_cast hden
  have h2 := powNum_div_powDen two_pos k
  push_cast at h2
  rw [← h2, div_le_div_iff₀ hpow hden', mul_comm (powNum 2 k : ℚ)]
  exact_mod_cast Iff.rfl

variable {num den : ℕ}

/-- The quotient lies within one power of two around the first estimate. -/
lemma quotient_bounds (hnum : 0 < num) (hden : 0 < den) :
    (2 : ℚ) ^ ((num.log2 : ℤ) - den.log2 - 1) < num / den
      ∧ (num : ℚ) / den < (2 : ℚ) ^ ((num.log2 : ℤ) - den.log2 + 1) := by
  have hden' : (0 : ℚ) < den := by exact_mod_cast hden
  have hnum' : (0 : ℚ) < num := by exact_mod_cast hnum
  constructor
  · rw [lt_div_iff₀ hden']
    calc (2 : ℚ) ^ ((num.log2 : ℤ) - den.log2 - 1) * den
        < (2 : ℚ) ^ ((num.log2 : ℤ) - den.log2 - 1) * (2 : ℚ) ^ (den.log2 + 1 : ℤ) :=
          mul_lt_mul_of_pos_left (lt_zpow_log2 den) (by positivity)
      _ = (2 : ℚ) ^ (num.log2 : ℤ) := by
          rw [← zpow_add₀ two_ne_zero]
          congr 1
          ring
      _ ≤ num := zpow_log2_le hnum
  · rw [div_lt_iff₀ hden']
    calc (num : ℚ) < (2 : ℚ) ^ (num.log2 + 1 : ℤ) := lt_zpow_log2 num
      _ = (2 : ℚ) ^ ((num.log2 : ℤ) - den.log2 + 1) * (2 : ℚ) ^ (den.log2 : ℤ) := by
          rw [← zpow_add₀ two_ne_zero]
          congr 1
          ring
      _ ≤ (2 : ℚ) ^ ((num.log2 : ℤ) - den.log2 + 1) * den :=
          mul_le_mul_of_nonneg_left (zpow_log2_le hden) (by positivity)

lemma zpow_floorLog2_le (hnum : 0 < num) (hden : 0 < den) :
    (2 : ℚ) ^ floorLog2 num den ≤ num / den := by
  rw [floorLog2]
  split_ifs with h
  · exact (le_mul_powDen_iff hden _).1 h
  · exact (quotient_bounds hnum hden).1.le

lemma lt_zpow_floorLog2 (hnum : 0 < num) (hden : 0 < den) :
    (num : ℚ) / den < (2 : ℚ) ^ (floorLog2 num den + 1) := by
  rw [floorLog2]
  split_ifs with h
  · exact (quotient_bounds hnum hden).2
  · rw [le_mul_powDen_iff hden, not_le] at h
    simpa using h

/-- A lower bound for a quotient is one for its exponent. -/
lemma le_floorLog2 (hnum : 0 < num) (hden : 0 < den) {k : ℤ} (h : (2 : ℚ) ^ k ≤ num / den) :
    k ≤ floorLog2 num den := by
  have hlt := h.trans_lt (lt_zpow_floorLog2 hnum hden)
  have := (zpow_lt_zpow_iff_right₀ one_lt_two).1 hlt
  omega

/-- An upper bound for a quotient is one for its exponent. -/
lemma floorLog2_lt (hnum : 0 < num) (hden : 0 < den) {k : ℤ} (h : (num : ℚ) / den < 2 ^ k) :
    floorLog2 num den < k :=
  (zpow_lt_zpow_iff_right₀ one_lt_two).1 ((zpow_floorLog2_le hnum hden).trans_lt h)

/-! ### Exact values -/

/-- A whole number rounds to itself. -/
lemma roundHalfEven_mul (n : ℕ) (hden : 0 < den) : roundHalfEven (n * den) den = n := by
  simp [roundHalfEven, Nat.mul_div_cancel _ hden, hden]

/-- A quotient whose exponent is known and whose significand is whole needs no
rounding. -/
lemma nearest_of_exponent (hnum : 0 < num) (hden : 0 < den) {v : Scaled}
    (hexp : max (floorLog2 num den - fractionBits) leastExponent = v.exponent)
    (hvalue : (num : ℚ) / den = v.value) :
    nearest num den
      = min ((v.exponent - leastExponent).toNat * leadingBit + v.significand) infinity := by
  have hwhole : num * powDen 2 v.exponent
      = v.significand * (den * powNum 2 v.exponent) := by
    have hpow : (powDen 2 v.exponent : ℚ) ≠ 0 := by
      exact_mod_cast (powDen_pos two_pos _).ne'
    have hden' : (den : ℚ) ≠ 0 := by exact_mod_cast hden.ne'
    have h2 := powNum_div_powDen two_pos v.exponent
    push_cast at h2
    rw [Scaled.value, ← h2] at hvalue
    field_simp at hvalue
    exact_mod_cast (by linarith : (num : ℚ) * powDen 2 v.exponent
      = v.significand * (den * powNum 2 v.exponent))
  have hgrid : 0 < den * powNum 2 v.exponent := Nat.mul_pos hden (powNum_pos two_pos _)
  simp only [nearest, hexp, hwhole, roundHalfEven_mul _ hgrid]
  rw [if_neg hnum.ne']

/-- Below the least normal exponent a magnitude is its significand. -/
lemma decode_of_lt {bits : ℕ} (h : bits < 2 ^ 52) : decode bits = ⟨bits, -1074⟩ := by
  have hfield : bits / 2 ^ 52 = 0 := by omega
  simp only [decode, leadingBit_eq, leastExponent, hfield, if_true, Nat.mod_eq_of_lt h]

/-- From there on the leading bit is implied. -/
lemma decode_of_le {bits : ℕ} (h : 2 ^ 52 ≤ bits) :
    decode bits = ⟨2 ^ 52 + bits % 2 ^ 52, (bits / 2 ^ 52 : ℕ) - 1075⟩ := by
  have hfield : bits / 2 ^ 52 ≠ 0 := by omega
  simp only [decode, leadingBit_eq, leastExponent, hfield, if_false, Scaled.mk.injEq, true_and]
  ring

/-- A significand with its exponent lies between two powers of two. -/
lemma zpow_le_value {v : Scaled} {k : ℕ} (h : 2 ^ k ≤ v.significand) :
    (2 : ℚ) ^ (k + v.exponent) ≤ v.value := by
  rw [zpow_add₀ two_ne_zero, zpow_natCast, Scaled.value]
  have h' : ((2 : ℚ) ^ k) ≤ v.significand := by exact_mod_cast h
  exact mul_le_mul_of_nonneg_right h' (by positivity)

lemma value_lt_zpow {v : Scaled} {k : ℕ} (h : v.significand < 2 ^ k) :
    v.value < (2 : ℚ) ^ (k + v.exponent) := by
  rw [zpow_add₀ two_ne_zero, zpow_natCast, Scaled.value]
  have h' : (v.significand : ℚ) < 2 ^ k := by exact_mod_cast h
  exact mul_lt_mul_of_pos_right h' (by positivity)

/-- **Exact values read back**: a quotient that is the value of a finite
magnitude rounds to that magnitude. -/
theorem nearest_of_value_eq {bits : ℕ} (hfinite : bits < infinity) (hnum : 0 < num)
    (hden : 0 < den) (hvalue : (num : ℚ) / den = (decode bits).value) :
    nearest num den = bits := by
  rw [infinity_eq] at hfinite
  rcases Nat.lt_or_ge bits (2 ^ 52) with hbits | hbits
  · rw [decode_of_lt hbits] at hvalue
    have hexp : max (floorLog2 num den - fractionBits) leastExponent = -1074 := by
      have hlt := floorLog2_lt hnum hden (hvalue.trans_lt (value_lt_zpow hbits))
      simp only [fractionBits, leastExponent] at hlt ⊢
      omega
    rw [nearest_of_exponent hnum hden hexp hvalue, infinity_eq, leadingBit_eq]
    simp only [leastExponent]
    omega
  · rw [decode_of_le hbits] at hvalue
    have hexp : max (floorLog2 num den - fractionBits) leastExponent
        = (bits / 2 ^ 52 : ℕ) - 1075 := by
      have hlow : 2 ^ 52 ≤ 2 ^ 52 + bits % 2 ^ 52 := Nat.le_add_right _ _
      have hhigh : 2 ^ 52 + bits % 2 ^ 52 < 2 ^ 53 := by omega
      have hle := le_floorLog2 hnum hden ((zpow_le_value hlow).trans_eq hvalue.symm)
      have hlt := floorLog2_lt hnum hden (hvalue.trans_lt (value_lt_zpow hhigh))
      simp only [fractionBits, leastExponent] at hle hlt ⊢
      omega
    rw [nearest_of_exponent hnum hden hexp hvalue, infinity_eq, leadingBit_eq]
    simp only [leastExponent]
    omega

/-- The value of a positive magnitude has a positive significand. -/
lemma significand_decode_pos {bits : ℕ} (hpos : 0 < bits) : 0 < (decode bits).significand := by
  rcases Nat.lt_or_ge bits (2 ^ 52) with hbits | hbits
  · rwa [decode_of_lt hbits]
  · rw [decode_of_le hbits]
    exact Nat.add_pos_left (by norm_num) _

end Binary64

namespace Decimal

open Binary64 (Scaled decode infinity)

/-! ### Decimals that read back -/

/-- The number that is meant. -/
def value (d : Decimal) : ℚ := d.digits * (10 : ℚ) ^ d.exponent

/-- A decimal as a quotient. -/
lemma value_eq_div (d : Decimal) :
    d.value = (d.digits * powNum 10 d.exponent : ℕ) / (powDen 10 d.exponent : ℕ) := by
  have h := powNum_div_powDen (show 0 < 10 by norm_num) d.exponent
  push_cast at h ⊢
  rw [value, ← h, mul_div_assoc]

/-- Inside the range of doubles a decimal is rounded as a quotient. -/
lemma nearest_eq {d : Decimal} (hdigits : d.digits ≠ 0) (hhigh : d.exponent ≤ (range : ℤ))
    (hlow : -((d.digits.log2 + 1 + range : ℕ) : ℤ) ≤ d.exponent) :
    d.nearest = Binary64.nearest (d.digits * powNum 10 d.exponent) (powDen 10 d.exponent) := by
  rw [nearest, if_neg hdigits, if_neg (by omega), if_neg (by omega)]

/-- The exact decimal of a value has that value. -/
lemma value_exact (v : Scaled) : (exact v).value = v.value := by
  rw [exact, Scaled.value]
  split_ifs with h
  · obtain ⟨n, hn⟩ := Int.eq_ofNat_of_zero_le h
    simp [value, hn, powNum]
  · obtain ⟨n, hn⟩ := Int.eq_ofNat_of_zero_le (show 0 ≤ -v.exponent by omega)
    obtain he : v.exponent = -n := by omega
    have h10 : (10 : ℚ) ^ n = 5 ^ n * 2 ^ n := by
      rw [← mul_pow]
      norm_num
    simp only [value, he, powDen, neg_neg, Int.toNat_natCast, Nat.pow_eq, zpow_neg, zpow_natCast,
      h10]
    push_cast
    field_simp

/-- The exact decimal of a value has digits, and at least as many as places
behind the point. -/
lemma exact_bounds {v : Scaled} (hv : 0 < v.significand) :
    0 < (exact v).digits ∧ (exact v).exponent ≤ 0
      ∧ -((exact v).digits.log2 : ℤ) ≤ (exact v).exponent := by
  rw [exact]
  split_ifs with h
  · exact ⟨Nat.mul_pos hv (powNum_pos two_pos _), le_rfl, by simp only; omega⟩
  · obtain ⟨n, hn⟩ := Int.eq_ofNat_of_zero_le (show 0 ≤ -v.exponent by omega)
    have hdigits : 0 < v.significand * powDen 5 v.exponent :=
      Nat.mul_pos hv (powDen_pos (by norm_num) _)
    have hpow : 2 ^ n ≤ v.significand * powDen 5 v.exponent :=
      calc 2 ^ n ≤ 5 ^ n := Nat.pow_le_pow_left (by norm_num) n
        _ = powDen 5 v.exponent := by rw [powDen, hn, Int.toNat_natCast, Nat.pow_eq]
        _ ≤ v.significand * powDen 5 v.exponent := Nat.le_mul_of_pos_left _ hv
    have hlog := (Nat.le_log2 hdigits.ne').2 hpow
    exact ⟨hdigits, by simp only; omega, by simp only; omega⟩

/-- The exact decimal of a finite magnitude reads back. -/
theorem nearest_exact {bits : ℕ} (hpos : 0 < bits) (hfinite : bits < infinity) :
    (exact (decode bits)).nearest = bits := by
  obtain ⟨hdigits, hhigh, hlow⟩ := exact_bounds (Binary64.significand_decode_pos hpos)
  rw [nearest_eq hdigits.ne' (by omega) (by push_cast; omega)]
  refine Binary64.nearest_of_value_eq hfinite (Nat.mul_pos hdigits (powNum_pos (by norm_num) _))
    (powDen_pos (by norm_num) _) ?_
  rw [← value_eq_div, value_exact]

/-- **The shortest decimal of a finite magnitude reads back.** -/
theorem nearest_shortest {bits : ℕ} (hpos : 0 < bits) (hfinite : bits < infinity) :
    (shortest bits).nearest = bits := by
  simp only [shortest]
  generalize hfound : List.findSome? _ _ = found
  cases found with
  | none => exact nearest_exact hpos hfinite
  | some d =>
      obtain ⟨i, -, hi⟩ := List.exists_of_findSome?_eq_some hfound
      simpa using List.find?_some hi

end Decimal

end SketchLisp

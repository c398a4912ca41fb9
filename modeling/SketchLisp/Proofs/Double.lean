import Mathlib
import SketchLisp.Number.Binary64

/-!
Doubles and their bits.

A double is its bit pattern, of which only one is allowed for what is not a
number. Its sign and its magnitude are therefore all there is to know about it.

* `ofMagnitude_magnitude`: a double is given by its sign and its magnitude;
* `isFinite_iff`, `isNaN_iff`: the finite doubles are those whose magnitude is below
  infinity, and what is not a number lies above it;
* `magnitude_ofMagnitude`: up to infinity, each magnitude is that of its double.
-/

namespace SketchLisp.Binary64

open Float.Model (Format UnpackedFloat)
open Float.Model.UnpackedFloat (unpack unpackMantissa unpackExponent pack_unpack_of_valid)

/-- The patterns of doubles. -/
abbrev Pattern : Type := BitVec Format.binary64.numBits

/-! ### The parts of a pattern -/

lemma toNat_unpackMantissa (b : Pattern) : (unpackMantissa b).toNat = b.toNat % 2 ^ 52 := by
  simp [unpackMantissa]

lemma toNat_unpackExponent (b : Pattern) :
    (unpackExponent b).toNat = b.toNat / 2 ^ 52 % 2 ^ 11 := by
  simp [unpackExponent, Nat.shiftRight_eq_div_pow]

/-! ### Doubles by sign and magnitude -/

lemma signBit_eq : signBit = 2 ^ 63 := rfl

lemma leadingBit_eq : leadingBit = 2 ^ 52 := rfl

lemma infinity_eq : infinity = 2047 * 2 ^ 52 := rfl

/-- A double is given by its sign and its magnitude. -/
theorem ofMagnitude_magnitude (x : Float) : ofMagnitude (isNegative x) (magnitude x) = x := by
  have hx : x.toBits.toNat < 2 ^ 64 := x.toBits.toNat_lt
  have hbits : (if isNegative x then signBit + magnitude x else magnitude x)
      = x.toBits.toNat := by
    rw [isNegative, magnitude, signBit_eq]
    by_cases h : 2 ^ 63 ≤ x.toBits.toNat
    · rw [if_pos (by simpa using h)]
      omega
    · rw [if_neg (by simpa using h)]
      omega
  rw [ofMagnitude, hbits, UInt64.ofNat_toNat, Float.ofBits_toBits]

lemma unpackExponent_eq_greatest_iff (b : Pattern) :
    unpackExponent b = -1#_ ↔ b.toNat / 2 ^ 52 % 2 ^ 11 = 2047 := by
  rw [← BitVec.toNat_inj, toNat_unpackExponent]
  rfl

/-- What is not finite has the greatest exponent. -/
lemma isFinite_unpack (b : Pattern) :
    (unpack Format.binary64 b).isFinite ↔ b.toNat / 2 ^ 52 % 2 ^ 11 ≠ 2047 := by
  rw [Ne, ← unpackExponent_eq_greatest_iff, unpack]
  split_ifs <;> simp_all [UnpackedFloat.isFinite]

/-- The finite doubles are those below infinity. -/
theorem isFinite_iff {x : Float} : x.isFinite ↔ magnitude x < infinity := by
  have hx : x.isFinite ↔ x.toBits.toNat / 2 ^ 52 % 2 ^ 11 ≠ 2047 :=
    isFinite_unpack x.toBits.toBitVec
  rw [hx, magnitude, signBit_eq, infinity_eq]
  omega

/-- What is not a number has the greatest exponent, and a fraction besides. -/
lemma isNaN_unpack (b : Pattern) :
    (unpack Format.binary64 b).isNaN ↔ unpackExponent b = -1#_ ∧ unpackMantissa b ≠ 0#_ := by
  rw [unpack]
  split_ifs <;> simp_all [UnpackedFloat.isNaN]

lemma isNaN_unpack_iff (b : Pattern) :
    (unpack Format.binary64 b).isNaN ↔ infinity < b.toNat % signBit := by
  have hmantissa : unpackMantissa b = 0#_ ↔ b.toNat % 2 ^ 52 = 0 := by
    rw [← BitVec.toNat_inj, toNat_unpackMantissa]
    rfl
  rw [isNaN_unpack, Ne, unpackExponent_eq_greatest_iff, hmantissa, infinity_eq, signBit_eq]
  omega

/-- What is not a number lies above infinity. -/
theorem isNaN_iff {x : Float} : x.isNaN ↔ infinity < magnitude x :=
  isNaN_unpack_iff x.toBits.toBitVec

/-- A pattern up to infinity is the pattern of its double. -/
lemma toBits_ofBits {b : UInt64} (h : b.toNat % signBit ≤ infinity) :
    (Float.ofBits b).toBits = b := by
  have hvalid : Format.binary64.Valid b.toBitVec := by
    refine ⟨fun hexponent hmantissa => ?_⟩
    have hnan := (isNaN_unpack b.toBitVec).2 ⟨hexponent, hmantissa⟩
    exact absurd h (not_le.2 ((isNaN_unpack_iff b.toBitVec).1 hnan))
  simp only [Float.ofBits, Float.toBits, Float.Model.ofBits, Float.Model.pack,
    pack_unpack_of_valid hvalid]

/-- Magnitudes up to infinity are those of their doubles. -/
theorem magnitude_ofMagnitude {bits : ℕ} (h : bits ≤ infinity) (negative : Bool) :
    magnitude (ofMagnitude negative bits) = bits := by
  have hlt : bits < 2 ^ 63 := by
    rw [infinity_eq] at h
    omega
  have hbits : (UInt64.ofNat (if negative then signBit + bits else bits)).toNat % signBit
      = bits := by
    rw [UInt64.toNat_ofNat', signBit_eq]
    split <;> omega
  rw [magnitude, ofMagnitude, toBits_ofBits (hbits.trans_le h), hbits]

end SketchLisp.Binary64

import Mathlib
import SketchLisp.Proofs.Double

/-!
Sums, products and differences of doubles.

Arithmetic takes doubles apart, works with whole numbers, rounds, and puts the result
together again. What a sum rounds is a multiple of the least double, so that it does not
vanish; and neither rounding nor putting together looks at the sign.

* `parts`, `ofParts`: the way to signs, significands and exponents and back;
* `abs_sub_comm`: the distance of two doubles does not depend on their order;
* `sub_self_of_isFinite`, `sub_self_of_not_isFinite`: a double less itself is zero, or not
  a number;
* `one_mul`: one times a double is that double;
* `zero_add`: zero plus a double is that double, unless it is `-0`;
* `add_ne_negZero`: a sum is `-0` only if its first term is.
-/

namespace SketchLisp.Binary64

open Float.Model (Format UnpackedFloat totalExponent)
open Float.Model.UnpackedFloat hiding round normalize

/-! ### Parts -/

/-- What a double stands for: a sign with a significand and an exponent, a signed zero, a
signed infinity, or not a number. -/
def parts (x : Float) : UnpackedFloat := x.toModel.unpack

/-- The double that is put together from parts. -/
def ofParts (u : UnpackedFloat) : Float := .ofModel (.pack u)

lemma ofParts_parts (x : Float) : ofParts (parts x) = x := Float.ofBits_toBits x

lemma parts_injective : Function.Injective parts := Function.LeftInverse.injective ofParts_parts

lemma add_eq (x y : Float) : x + y = ofParts (add .binary64 (parts x) (parts y)) := rfl

lemma sub_eq (x y : Float) : x - y = ofParts (sub .binary64 (parts x) (parts y)) := rfl

lemma mul_eq (x y : Float) : x * y = ofParts (mul .binary64 (parts x) (parts y)) := rfl

lemma abs_eq (x : Float) : x.abs = ofParts (parts x).abs := rfl

lemma isFinite_eq (x : Float) : x.isFinite = (parts x).isFinite := rfl

/-- The finite doubles are those that are numbers and not infinite. -/
lemma isFinite_iff_not {x : Float} :
    x.isFinite = true ↔ x.isNaN = false ∧ x.isInf = false := by
  change (parts x).isFinite = true ↔ (parts x).isNaN = false ∧ (parts x).isInf = false
  cases parts x <;> simp [isFinite, isNaN, isInf]

lemma parts_zero : parts 0 = .zero .positive := rfl

lemma parts_negZero : parts (-0) = .zero .negative := rfl

lemma parts_one : parts 1 = .finite .positive (2 ^ 52) (-52) (by norm_num) := rfl

/-- Whether the exponent is the one that the format asks for: the significand has 53 bits,
or fewer and the least exponent. -/
def Canonical (m : ℕ) (e : ℤ) : Prop := e = max (m.log2 + 1 + e - 53) (-1074)

lemma targetExponent_eq (m : ℕ) (e : ℤ) :
    Format.binary64.targetExponent (totalExponent m e) = max (m.log2 + 1 + e - 53) (-1074) := rfl

lemma exponentBias_eq : Format.binary64.exponentBias = 1023 := rfl

/-- The leading bit stands above the stored ones. -/
lemma log2_leading (m : BitVec 52) : (1#1 ++ m).toNat.log2 = 52 := by
  have hm : m.toNat < 2 ^ 52 := m.isLt
  have hleading : (1#1 ++ m).toNat = 2 ^ 52 + m.toNat := by
    rw [BitVec.toNat_append, ← Nat.shiftLeft_add_eq_or_of_lt m.isLt]
    rfl
  rw [hleading, Nat.log2_eq_iff (by omega)]
  constructor <;> omega

/-- The parts of a double are canonical. -/
lemma canonical_of_unpack {b : Pattern} {s : Sign} {m : ℕ} {e : ℤ} {hm : 0 < m}
    (h : unpack .binary64 b = .finite s m e hm) : Canonical m e := by
  rw [unpack] at h
  split_ifs at h with _ _ hzero
  -- at the least exponent there is no leading bit
  · injection h with _ hm' he'
    have hlog : m.log2 < 52 := (Nat.log2_lt hm.ne').2 (hm' ▸ (unpackMantissa b).isLt)
    have he : e = -1074 := by
      rw [← he', hzero, exponentBias_eq]
      rfl
    rw [Canonical]
    omega
  · injection h with _ hm' he'
    have hlog : m.log2 = 52 := by rw [← hm', log2_leading]
    have he : e = (unpackExponent b).toNat - 1075 := by
      rw [← he', exponentBias_eq]
      rfl
    have hpos : (unpackExponent b).toNat ≠ 0 := fun h0 => hzero (BitVec.eq_of_toNat_eq h0)
    rw [Canonical]
    omega

/-! ### Rounding -/

/-- Shifting drops bits. -/
lemma mantissa_shiftRight (em : ExtendedMantissa) (k : ℕ) :
    (em >>> k).mantissa = em.mantissa / 2 ^ k := by
  change (k.repeat ExtendedMantissa.shiftRightOne em).mantissa = _
  induction k with
  | zero => simp [Nat.repeat]
  | succ k ih =>
      rw [Nat.repeat, ExtendedMantissa.shiftRightOne, ih, Nat.div_div_eq_div_mul, pow_succ]

/-- If only zeros are dropped, nothing is left to round. -/
lemma exact_shiftRight (m k : ℕ) :
    (⟨m * 2 ^ k, false, false⟩ : ExtendedMantissa) >>> k = ⟨m, false, false⟩ := by
  change k.repeat ExtendedMantissa.shiftRightOne _ = _
  induction k generalizing m with
  | zero => simp [Nat.repeat]
  | succ k ih =>
      rw [Nat.repeat, pow_succ', ← mul_assoc, ih]
      simp [ExtendedMantissa.shiftRightOne]

lemma mantissa_le_roundedMantissa (em : ExtendedMantissa) :
    em.mantissa ≤ em.roundedMantissa := by
  obtain ⟨m, _ | _, _ | _⟩ := em <;>
    simp [ExtendedMantissa.roundedMantissa, ExtendedMantissa.accuracy,
      Accuracy.roundToNearestEven]

/-- From the least exponent on, all bits but the first 53 are dropped. -/
lemma shift_from_least (m : ℕ) {e : ℤ} (he : -1074 ≤ e) :
    shiftToTargetExponent .binary64 m e .exact
      = ((⟨m, false, false⟩ : ExtendedMantissa) >>> (m.log2 - 52),
          e + ((m.log2 - 52 : ℕ) : ℤ)) := by
  have hshift : (max ((m.log2 : ℤ) + 1 + e - 53) (-1074) - e).toNat = m.log2 - 52 := by omega
  simp only [shiftToTargetExponent, shiftToExponent, targetExponent_eq, hshift]
  rfl

lemma div_shift_pos {m : ℕ} (hm : 0 < m) : 0 < m / 2 ^ (m.log2 - 52) := by
  have hle : 2 ^ (m.log2 - 52) ≤ 2 ^ m.log2 := Nat.pow_le_pow_right (by norm_num) (by omega)
  exact Nat.div_pos (hle.trans (Nat.log2_self_le hm.ne')) (by positivity)

lemma div_shift_lt (m : ℕ) : m / 2 ^ (m.log2 - 52) < 2 ^ 53 := by
  rw [Nat.div_lt_iff_lt_mul (by positivity), ← pow_add]
  exact Nat.lt_log2_self.trans_le (Nat.pow_le_pow_right (by norm_num) (by omega))

lemma log2_mul_two_pow {m : ℕ} (hm : m ≠ 0) (k : ℕ) : (m * 2 ^ k).log2 = m.log2 + k := by
  induction k with
  | zero => simp
  | succ k ih =>
      have hne : m * 2 ^ k ≠ 0 := by positivity
      rw [pow_succ', mul_left_comm, Nat.log2_two_mul hne, ih, add_assoc]

/-- Zeros behind a canonical significand are dropped. -/
lemma shift_of_canonical {m : ℕ} {e : ℤ} (h : Canonical m e) (hm : 0 < m) (k : ℕ) :
    shiftToTargetExponent .binary64 (m * 2 ^ k) (e - k) .exact = (⟨m, false, false⟩, e) := by
  have hlog := log2_mul_two_pow hm.ne' k
  rw [Canonical] at h
  have hshift : (max (((m * 2 ^ k).log2 : ℤ) + 1 + (e - k) - 53) (-1074) - (e - k)).toNat = k := by
    omega
  simp only [shiftToTargetExponent, shiftToExponent, targetExponent_eq, hshift]
  exact Prod.ext (exact_shiftRight m k) (by simp)

/-- Rounding shifts twice: the second time because a significand that was rounded up may
have one bit more. -/
lemma roundWithAccuracy_eq {m : ℕ} {e : ℤ} {first last : ExtendedMantissa × ℤ} (s : Sign)
    (hfirst : shiftToTargetExponent .binary64 m e .exact = first)
    (hlast : shiftToTargetExponent .binary64 first.1.roundedMantissa first.2 .exact = last)
    (hpos : 0 < last.1.mantissa) :
    roundWithAccuracy .binary64 s m e .exact = .finite s last.1.mantissa last.2 hpos := by
  simp [roundWithAccuracy, hfirst, hlast, hpos.ne']

/-- A multiple of the least double does not vanish when it is rounded. -/
lemma exists_roundWithAccuracy_eq (s : Sign) {m : ℕ} (hm : 0 < m) {e : ℤ} (he : -1074 ≤ e) :
    ∃ m' e' h, roundWithAccuracy .binary64 s m e .exact = .finite s m' e' h
      ∧ m' < 2 ^ 53 ∧ -1074 ≤ e' := by
  have hfirst := shift_from_least m he
  set em := (⟨m, false, false⟩ : ExtendedMantissa) >>> (m.log2 - 52) with hem
  have hpos : 0 < em.roundedMantissa := by
    refine lt_of_lt_of_le ?_ (mantissa_le_roundedMantissa em)
    rw [hem, mantissa_shiftRight]
    exact div_shift_pos hm
  have hlast := shift_from_least em.roundedMantissa
    (show -1074 ≤ e + ((m.log2 - 52 : ℕ) : ℤ) by omega)
  have hround := roundWithAccuracy_eq s hfirst hlast (by
    rw [mantissa_shiftRight]
    exact div_shift_pos hpos)
  refine ⟨_, _, _, hround, ?_, by simp only; omega⟩
  rw [mantissa_shiftRight]
  exact div_shift_lt _

/-- A canonical significand with zeros behind it is rounded to itself. -/
lemma roundWithAccuracy_of_canonical (s : Sign) {m : ℕ} {e : ℤ} (h : Canonical m e)
    (hm : 0 < m) (k : ℕ) :
    roundWithAccuracy .binary64 s (m * 2 ^ k) (e - k) .exact = .finite s m e hm := by
  have hlast : shiftToTargetExponent .binary64 m e .exact = (⟨m, false, false⟩, e) := by
    simpa using shift_of_canonical h hm 0
  exact roundWithAccuracy_eq s (shift_of_canonical h hm k) hlast hm

/-! ### Differences -/

/-- Parts that differ only in their sign have patterns that differ only there. -/
lemma exists_pack_eq {u v : UnpackedFloat} (h : u.abs = v.abs) : ∃ s t e m,
    pack .binary64 u = packComponents .binary64 s e m
      ∧ pack .binary64 v = packComponents .binary64 t e m := by
  cases u <;> cases v <;> cases h
  case finite.finite.refl =>
    simp only [pack]
    split_ifs <;> exact ⟨_, _, _, _, rfl, rfl⟩
  all_goals exact ⟨_, _, _, _, rfl, rfl⟩

lemma abs_unpack (s t : Sign) (e : BitVec 11) (m : BitVec 52) :
    (unpack .binary64 (packComponents .binary64 s e m)).abs
      = (unpack .binary64 (packComponents .binary64 t e m)).abs := by
  simp only [unpack, unpackExponent_packComponents, unpackMantissa_packComponents]
  split_ifs <;> simp only [UnpackedFloat.abs]

lemma abs_ofParts {u v : UnpackedFloat} (h : u.abs = v.abs) :
    (ofParts u).abs = (ofParts v).abs := by
  obtain ⟨s, t, e, m, hu, hv⟩ := exists_pack_eq h
  have hparts : (unpack .binary64 (pack .binary64 u)).abs
      = (unpack .binary64 (pack .binary64 v)).abs := by
    rw [hu, hv, abs_unpack s t]
  rw [abs_eq, abs_eq]
  exact congrArg ofParts hparts

lemma abs_round (s t : Sign) (m : ℕ) (e : ℤ) :
    (UnpackedFloat.round .binary64 s m e).abs = (UnpackedFloat.round .binary64 t m e).abs := by
  simp only [UnpackedFloat.round, roundWithAccuracy]
  split_ifs <;> rfl

lemma abs_normalize_neg (m e : ℤ) (s : Sign) :
    (UnpackedFloat.normalize .binary64 (-m) e s).abs
      = (UnpackedFloat.normalize .binary64 m e s).abs := by
  rcases lt_trichotomy m 0 with hm | rfl | hm
  · rw [UnpackedFloat.normalize, UnpackedFloat.normalize, Int.compare_eq_lt.2 hm,
      Int.compare_eq_gt.2 (by omega)]
    exact abs_round _ _ _ _
  · rw [neg_zero]
  · rw [UnpackedFloat.normalize, UnpackedFloat.normalize, Int.compare_eq_gt.2 hm,
      Int.compare_eq_lt.2 (by omega), neg_neg]
    exact abs_round _ _ _ _

lemma abs_sub_parts (u v : UnpackedFloat) :
    (sub .binary64 u v).abs = (sub .binary64 v u).abs := by
  cases u with
  | finite s m e hm =>
      cases v with
      | finite t n f hn =>
          simp only [sub]
          rw [min_comm f e, ← abs_normalize_neg, neg_sub]
      | _ => rfl
  | zero s =>
      cases v with
      | zero t => cases s <;> cases t <;> rfl
      | _ => rfl
  | infinity s =>
      cases v with
      | infinity t => cases s <;> cases t <;> rfl
      | _ => rfl
  | notANumber => cases v <;> rfl

/-- The distance of two doubles does not depend on their order. -/
protected theorem abs_sub_comm (x y : Float) : (x - y).abs = (y - x).abs := by
  rw [sub_eq, sub_eq]
  exact abs_ofParts (abs_sub_parts _ _)

/-- A finite double less itself is zero. -/
theorem sub_self_of_isFinite {x : Float} (h : x.isFinite) : x - x = 0 := by
  rw [isFinite_eq] at h
  have hparts : sub .binary64 (parts x) (parts x) = .zero .positive := by
    cases hx : parts x with
    | zero s => cases s <;> rfl
    | finite s m e hm => simp [sub, UnpackedFloat.normalize]
    | infinity | notANumber => simp [hx, isFinite] at h
  rw [sub_eq, hparts]
  rfl

/-- An infinity less itself is not a number. -/
theorem sub_self_of_not_isFinite {x : Float} (h : x.isFinite = false) : x - x = Float.nan := by
  rw [isFinite_eq] at h
  have hparts : sub .binary64 (parts x) (parts x) = .notANumber := by
    cases hx : parts x with
    | infinity s => cases s <;> rfl
    | notANumber => rfl
    | zero | finite => simp [hx, isFinite] at h
  rw [sub_eq, hparts]
  rfl

/-! ### Products -/

lemma positive_mul (s : Sign) : Sign.positive * s = s := by
  cases s <;> rfl

/-- One times a double is that double. -/
protected theorem one_mul (x : Float) : 1 * x = x := by
  have hparts : mul .binary64 (parts 1) (parts x) = parts x := by
    rw [parts_one]
    cases hx : parts x with
    | finite s m e hm =>
        have hround := roundWithAccuracy_of_canonical s (canonical_of_unpack hx) hm 52
        rw [mul_comm m, sub_eq_neg_add] at hround
        simp only [mul, positive_mul]
        exact hround
    | _ => simp [mul, positive_mul]
  rw [mul_eq, hparts, ofParts_parts]

/-! ### Sums -/

/-- Zero plus a double is that double, unless it is `-0`. -/
protected theorem zero_add {x : Float} (h : x ≠ -0) : 0 + x = x := by
  have hparts : add .binary64 (parts 0) (parts x) = parts x := by
    rw [parts_zero]
    cases hx : parts x with
    | zero s =>
        cases s with
        | positive => rfl
        | negative => exact absurd (parts_injective (hx.trans parts_negZero.symm)) h
    | _ => rfl
  rw [add_eq, hparts, ofParts_parts]

/-- Whether parts are not those of `-0`, and do not become `-0` when they are put together. -/
def AvoidsNegZero : UnpackedFloat → Prop
  | .zero s => s = .positive
  | .finite _ m e _ => m < 2 ^ 53 ∧ -1074 ≤ e
  | .infinity _ | .notANumber => True

lemma avoidsNegZero_parts {x : Float} (h : x ≠ -0) : AvoidsNegZero (parts x) := by
  cases hx : parts x with
  | zero s =>
      cases s with
      | positive => rfl
      | negative => exact absurd (parts_injective (hx.trans parts_negZero.symm)) h
  | finite s m e hm =>
      have hcanonical := canonical_of_unpack hx
      rw [Canonical] at hcanonical
      exact ⟨(Nat.log2_lt hm.ne').1 (by omega), by omega⟩
  | infinity | notANumber => trivial

lemma avoidsNegZero_round (s : Sign) {m : ℕ} (hm : 0 < m) {e : ℤ} (he : -1074 ≤ e) :
    AvoidsNegZero (UnpackedFloat.round .binary64 s m e) := by
  -- bits that the format has room for are first added behind the significand
  have hlong (k : ℕ) : 0 < m <<< k := by
    rw [Nat.shiftLeft_eq]
    positivity
  obtain ⟨m', e', h, hround, hlt, hle⟩ := exists_roundWithAccuracy_eq s
    (hlong (e - max ((m.log2 : ℤ) + 1 + e - 53) (-1074)).toNat)
    (show -1074 ≤ e - (e - max ((m.log2 : ℤ) + 1 + e - 53) (-1074)).toNat by omega)
  simp only [UnpackedFloat.round, decreaseExponent, targetExponent_eq, hround]
  exact ⟨hlt, hle⟩

lemma avoidsNegZero_normalize (m : ℤ) {e : ℤ} (he : -1074 ≤ e) :
    AvoidsNegZero (UnpackedFloat.normalize .binary64 m e .positive) := by
  rcases lt_trichotomy m 0 with hm | rfl | hm
  · rw [UnpackedFloat.normalize, Int.compare_eq_lt.2 hm]
    exact avoidsNegZero_round _ (by omega) he
  · rfl
  · rw [UnpackedFloat.normalize, Int.compare_eq_gt.2 hm]
    exact avoidsNegZero_round _ (by omega) he

lemma avoidsNegZero_add {u v : UnpackedFloat} (hu : AvoidsNegZero u)
    (hv : v = .zero .negative ∨ AvoidsNegZero v) : AvoidsNegZero (add .binary64 u v) := by
  cases u with
  | notANumber => trivial
  | infinity s =>
      cases v with
      | infinity t => cases s <;> cases t <;> trivial
      | _ => trivial
  | zero s =>
      obtain rfl : s = .positive := hu
      cases v with
      | zero t => cases t <;> rfl
      | finite t n f hn => exact hv.resolve_left (by simp)
      | infinity | notANumber => trivial
  | finite s m e hm =>
      cases v with
      | zero t => exact hu
      | finite t n f hn =>
          have hn' : AvoidsNegZero (.finite t n f hn) := hv.resolve_left (by simp)
          exact avoidsNegZero_normalize _ (le_min hu.2 hn'.2)
      | infinity | notANumber => trivial

/-- A significand is not zero in its pattern either, or else its exponent is not. -/
lemma pack_ne_packedZero {s t : Sign} {m : ℕ} {e : ℤ} (hm : 0 < m) (hlt : m < 2 ^ 53)
    (he : -1074 ≤ e) : pack .binary64 (.finite s m e hm) ≠ packedZero .binary64 t := by
  intro h
  have hexponent := congrArg unpackExponent h
  have hfraction := congrArg unpackMantissa h
  rw [pack] at hexponent hfraction
  split_ifs at hexponent hfraction with hgreat hleading
  -- too large: the exponent of infinity
  · simp [packedInfinity, packedZero] at hexponent
  -- with its leading bit, which only the exponent tells of
  · simp only [packedZero, unpackExponent_packComponents] at hexponent
    have hzero : (e + 1023 + 52).toNat % 2 ^ 11 = 0 := congrArg BitVec.toNat hexponent
    have hsmall : ¬ 2 ^ 11 ≤ (e + 1023 + 52).toNat + 1 := hgreat
    omega
  -- without it, so that all its bits are stored
  · simp only [packedZero, unpackMantissa_packComponents] at hfraction
    have hzero : m % 2 ^ 52 = 0 := congrArg BitVec.toNat hfraction
    have hlog : m.log2 < 53 := (Nat.log2_lt hm.ne').2 hlt
    have hshort : m.log2 + 1 ≠ 53 := hleading
    have hstored : m < 2 ^ 52 := (Nat.log2_lt hm.ne').1 (by omega)
    omega

lemma ofParts_ne_negZero {u : UnpackedFloat} (h : AvoidsNegZero u) : ofParts u ≠ -0 := by
  intro hu
  have hpack : pack .binary64 u = packedZero .binary64 .negative :=
    congrArg (fun x => x.toBits.toBitVec) hu
  cases u with
  | zero s =>
      obtain rfl : s = .positive := h
      exact absurd hpack (by decide)
  | finite s m e hm => exact pack_ne_packedZero hm h.1 h.2 hpack
  | infinity s => cases s <;> exact absurd hpack (by decide)
  | notANumber => exact absurd hpack (by decide)

/-- **A sum is `-0` only if its first term is**, however it is rounded. -/
theorem add_ne_negZero {x : Float} (h : x ≠ -0) (y : Float) : x + y ≠ -0 := by
  have hy : parts y = .zero .negative ∨ AvoidsNegZero (parts y) := by
    by_cases hy : y = -0
    · exact .inl (by rw [hy, parts_negZero])
    · exact .inr (avoidsNegZero_parts hy)
  exact ofParts_ne_negZero (avoidsNegZero_add (avoidsNegZero_parts h) hy)

end SketchLisp.Binary64

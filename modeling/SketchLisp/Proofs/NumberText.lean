import SketchLisp.Number.Text
import SketchLisp.Proofs.Rounding

/-!
Numbers written and read back.

A finite number is written as an optional minus, digits, and a point with more
digits if there are any. This text is a numeral, and it reads as the number it
was written for, down to the last bit and the sign of zero. The texts of the other
numbers are no numerals, but they are different too.

* `PlainDigits`: digits with a point among them, and the decimal they stand for;
* `PlainDigits.read?_chars`: such digits are read as their decimal;
* `Decimal.plain`: the digits in which a decimal is written;
* `Number.exists_text_eq`: the form of the text of a finite number;
* `Number.read?_text`: the text of a finite number reads back;
* `Number.text_injective`: different numbers have different texts;
* `Number.mem_text`: the characters of these texts.
-/

namespace SketchLisp

/-! ### Digits around a point -/

/-- Digits before and behind a point, at least one of them before it. -/
structure PlainDigits where
  whole : List Char
  fraction : List Char
  whole_ne_nil : whole ≠ []
  whole_isDigit : ∀ c ∈ whole, c.isDigit
  fraction_isDigit : ∀ c ∈ fraction, c.isDigit

namespace PlainDigits

/-- The point is written only if digits follow it. -/
def chars (p : PlainDigits) : List Char :=
  if p.fraction.isEmpty then p.whole else p.whole ++ '.' :: p.fraction

/-- The decimal that is meant. -/
def decimal (p : PlainDigits) : Decimal :=
  ⟨Nat.ofDigitChars 10 (p.whole ++ p.fraction) 0, -p.fraction.length⟩

/-- The first character is a digit. -/
lemma exists_chars_eq_cons (p : PlainDigits) : ∃ c cs, p.chars = c :: cs ∧ c.isDigit := by
  obtain ⟨c, cs, hcs⟩ := List.exists_cons_of_ne_nil p.whole_ne_nil
  have hc := p.whole_isDigit c (by simp [hcs])
  rw [chars]
  split
  · exact ⟨c, cs, hcs, hc⟩
  · exact ⟨c, cs ++ '.' :: p.fraction, by rw [hcs, List.cons_append], hc⟩

/-- The characters are digits and the point. -/
lemma mem_chars {p : PlainDigits} {c : Char} (h : c ∈ p.chars) : c.isDigit ∨ c = '.' := by
  rw [chars] at h
  split at h
  · exact .inl (p.whole_isDigit c h)
  · rcases List.mem_append.1 h with h | h
    · exact .inl (p.whole_isDigit c h)
    · rcases List.mem_cons.1 h with h | h
      · exact .inr h
      · exact .inl (p.fraction_isDigit c h)

/-- The digits are taken off the text part by part. -/
lemma read_parts (p : PlainDigits) :
    p.chars.takeWhile Char.isDigit = p.whole
      ∧ Numeral.readFraction (p.chars.dropWhile Char.isDigit) = (p.fraction, []) := by
  have hwhole := p.whole_isDigit
  rw [chars]
  split
  · next h =>
      rw [List.isEmpty_iff.1 h, List.takeWhile_eq_self_iff.2 hwhole,
        List.dropWhile_eq_nil_iff.2 hwhole]
      exact ⟨rfl, rfl⟩
  · rw [List.takeWhile_append_of_pos hwhole, List.dropWhile_append_of_pos hwhole]
    simp [Numeral.readFraction, List.takeWhile_eq_self_iff.2 p.fraction_isDigit,
      List.dropWhile_eq_nil_iff.2 p.fraction_isDigit]

/-- Digits behind an optional minus are read as their decimal. -/
lemma read?_of_readSign (p : PlainDigits) {negative : Bool} {cs : List Char}
    (h : Numeral.readSign cs = (negative, p.chars)) :
    Numeral.read? cs = some ⟨negative, p.decimal⟩ := by
  obtain ⟨hwhole, hrest⟩ := p.read_parts
  simp [Numeral.read?, h, hwhole, hrest, p.whole_ne_nil, Numeral.readExponent?, decimal]

lemma readSign_chars (p : PlainDigits) : Numeral.readSign p.chars = (false, p.chars) := by
  obtain ⟨c, cs, hcs, hc⟩ := p.exists_chars_eq_cons
  rw [hcs, Numeral.readSign]
  all_goals
    intro rest h
    obtain ⟨rfl, -⟩ := List.cons.inj h
    exact absurd hc (by decide)

/-- **Plain digits are read**: behind a minus or alone, they are read as the
decimal they stand for. -/
lemma read?_chars (p : PlainDigits) (negative : Bool) :
    Numeral.read? (if negative then '-' :: p.chars else p.chars) = some ⟨negative, p.decimal⟩ := by
  cases negative with
  | false => exact p.read?_of_readSign p.readSign_chars
  | true => exact p.read?_of_readSign rfl

end PlainDigits

/-! ### Decimals as digits -/

namespace Decimal

lemma isDigit_of_mem_toDigits {c : Char} {n : ℕ} (h : c ∈ Nat.toDigits 10 n) : c.isDigit :=
  Nat.isDigit_of_mem_toDigits (by norm_num) (by norm_num) h

lemma isDigit_of_mem_replicate {c : Char} {n : ℕ} (h : c ∈ List.replicate n '0') : c.isDigit := by
  rw [(List.mem_replicate.1 h).2]
  rfl

lemma isDigit_of_mem_lastDigits {c : Char} {places n : ℕ} (h : c ∈ lastDigits places n) :
    c.isDigit := by
  rw [lastDigits, List.mem_append] at h
  exact h.elim isDigit_of_mem_replicate isDigit_of_mem_toDigits

/-- Zeros in front fill the last digits up to their number. -/
lemma length_lastDigits {places : ℕ} (hplaces : 0 < places) (n : ℕ) :
    (lastDigits places n).length = places := by
  have hlt : n % 10 ^ places < 10 ^ places := Nat.mod_lt _ (by positivity)
  have hle := (Nat.length_toDigits_le_iff (by norm_num) hplaces).2 hlt
  simp only [lastDigits, List.length_append, List.length_replicate, Nat.pow_eq]
  omega

/-- The last digits stand for the remainder. -/
lemma ofDigitChars_lastDigits (places n : ℕ) :
    Nat.ofDigitChars 10 (lastDigits places n) 0 = n % 10 ^ places := by
  simp [lastDigits, Nat.ofDigitChars_append]

/-- The digits in which a decimal is written. -/
def plain (d : Decimal) : PlainDigits :=
  if 0 ≤ d.exponent then
    { whole := Nat.toDigits 10 d.digits ++ List.replicate d.exponent.toNat '0'
      fraction := []
      whole_ne_nil := by simp
      whole_isDigit := fun c hc =>
        (List.mem_append.1 hc).elim isDigit_of_mem_toDigits isDigit_of_mem_replicate
      fraction_isDigit := by simp }
  else
    { whole := Nat.toDigits 10 (d.digits / powDen 10 d.exponent)
      fraction := lastDigits (-d.exponent).toNat d.digits
      whole_ne_nil := by simp
      whole_isDigit := fun _ => isDigit_of_mem_toDigits
      fraction_isDigit := fun _ => isDigit_of_mem_lastDigits }

/-- Writing a decimal out gives these digits. -/
lemma positional_eq_chars (d : Decimal) : d.positional = d.plain.chars := by
  rw [positional, plain]
  split_ifs with h
  · rfl
  · have hlength := length_lastDigits (show 0 < (-d.exponent).toNat by omega) d.digits
    have hne : lastDigits (-d.exponent).toNat d.digits ≠ [] := by
      rw [← List.length_pos_iff_ne_nil]
      omega
    simp [PlainDigits.chars, hne]

/-- Without places behind the point, zeros stand for the exponent. -/
lemma decimal_plain_of_nonneg {d : Decimal} (h : 0 ≤ d.exponent) :
    d.plain.decimal = ⟨d.digits * powNum 10 d.exponent, 0⟩ := by
  simp [plain, h, PlainDigits.decimal, Nat.ofDigitChars_append, powNum, mul_comm]

/-- With places behind the point, the digits are those of the decimal. -/
lemma decimal_plain_of_neg {d : Decimal} (h : d.exponent < 0) : d.plain.decimal = d := by
  have hplaces : 0 < (-d.exponent).toNat := by omega
  have hdigits : Nat.ofDigitChars 10 (Nat.toDigits 10 (d.digits / powDen 10 d.exponent)
      ++ lastDigits (-d.exponent).toNat d.digits) 0 = d.digits := by
    rw [Nat.ofDigitChars_append, Nat.ofDigitChars_ten_toDigits,
      Nat.ofDigitChars_eq_ofDigitChars_zero, length_lastDigits hplaces, ofDigitChars_lastDigits,
      powDen, Nat.pow_eq]
    exact Nat.div_add_mod _ _
  have hexponent : -((-d.exponent).toNat : ℤ) = d.exponent := by omega
  simp only [plain, PlainDigits.decimal, if_neg (not_le.2 h), hdigits, length_lastDigits hplaces,
    hexponent]

/-- Writing zeros out does not change the double, since a decimal that is neither
zero nor infinite is inside the range of doubles. -/
lemma nearest_decimal_plain {d : Decimal} (hpos : 0 < d.nearest)
    (hfinite : d.nearest < Binary64.infinity) : d.plain.decimal.nearest = d.nearest := by
  rcases lt_or_ge d.exponent 0 with h | h
  · rw [decimal_plain_of_neg h]
  · have hdigits : d.digits ≠ 0 := by
      intro h0
      rw [nearest, if_pos h0] at hpos
      exact lt_irrefl 0 hpos
    have hrange : d.exponent ≤ (range : ℤ) := by
      by_contra hgt
      rw [nearest, if_neg hdigits, if_pos (by omega)] at hfinite
      exact lt_irrefl _ hfinite
    have hprod : d.digits * powNum 10 d.exponent ≠ 0 :=
      Nat.mul_ne_zero hdigits (powNum_pos (by norm_num) _).ne'
    obtain ⟨n, hn⟩ := Int.eq_ofNat_of_zero_le h
    rw [decimal_plain_of_nonneg h, nearest_eq hdigits hrange (by omega),
      nearest_eq hprod (by simp [range]) (by simp only; omega), hn]
    simp [powNum, powDen]

end Decimal

/-! ### Numbers -/

namespace Number

open Binary64 (magnitude isNegative infinity)

/-- The digits of a finite magnitude, which read back. -/
lemma exists_magnitudeText_eq {bits : ℕ} (hfinite : bits < infinity) :
    ∃ p : PlainDigits, magnitudeText bits = p.chars ∧ p.decimal.nearest = bits := by
  rcases Nat.eq_zero_or_pos bits with rfl | hpos
  · exact ⟨⟨['0'], [], by simp, by simp, by simp⟩, rfl, rfl⟩
  · have hread := Decimal.nearest_shortest hpos hfinite
    refine ⟨(Decimal.shortest bits).plain, ?_, ?_⟩
    · rw [magnitudeText, if_neg hpos.ne', if_neg hfinite.ne, Decimal.positional_eq_chars]
    · rw [Decimal.nearest_decimal_plain (by omega) (by omega), hread]

/-- **The text of a finite number**: an optional minus, and digits that stand for
its magnitude. -/
lemma exists_text_eq {x : Float} (hx : x.isFinite) :
    ∃ p : PlainDigits, (text x).toList = (if isNegative x then '-' :: p.chars else p.chars)
      ∧ p.decimal.nearest = magnitude x := by
  have hlt := Binary64.isFinite_iff.1 hx
  obtain ⟨p, hchars, hnearest⟩ := exists_magnitudeText_eq hlt
  refine ⟨p, ?_, hnearest⟩
  simp only [text, if_neg (not_lt.2 hlt.le), hchars]
  split <;> simp

/-- **A finite number reads back** from its text, bit for bit. -/
theorem read?_text {x : Float} (hx : x.isFinite) : read? (text x) = some x := by
  obtain ⟨p, hchars, hnearest⟩ := exists_text_eq hx
  rw [read?, hchars, p.read?_chars, Option.map_some, Numeral.toFloat, hnearest,
    Binary64.ofMagnitude_magnitude]

/-! ### Different numbers -/

lemma magnitudeText_infinity : magnitudeText infinity = ['i', 'n', 'f'] := rfl

/-- No other magnitude has the text of infinity, since digits come first. -/
lemma magnitudeText_ne_infinity {bits : ℕ} (h : bits < infinity) :
    magnitudeText bits ≠ magnitudeText infinity := by
  obtain ⟨p, hp, -⟩ := exists_magnitudeText_eq h
  obtain ⟨c, cs, hcs, hc⟩ := p.exists_chars_eq_cons
  rw [hp, hcs, magnitudeText_infinity]
  intro heq
  obtain ⟨rfl, -⟩ := List.cons.inj heq
  exact absurd hc (by decide)

/-- Different magnitudes up to infinity have different texts. -/
lemma magnitudeText_injOn : Set.InjOn magnitudeText (Set.Iic infinity) := by
  intro m hm n hn h
  rcases (Set.mem_Iic.1 hm).lt_or_eq with hm | rfl <;>
    rcases (Set.mem_Iic.1 hn).lt_or_eq with hn | rfl
  · obtain ⟨p, hp, rfl⟩ := exists_magnitudeText_eq hm
    obtain ⟨q, hq, rfl⟩ := exists_magnitudeText_eq hn
    have hread : Numeral.read? p.chars = Numeral.read? q.chars := by rw [← hp, ← hq, h]
    have hdecimal : p.decimal = q.decimal := by
      simpa [p.read?_of_readSign p.readSign_chars, q.read?_of_readSign q.readSign_chars] using hread
    rw [hdecimal]
  · exact absurd h (magnitudeText_ne_infinity hm)
  · exact absurd h.symm (magnitudeText_ne_infinity hn)
  · rfl

lemma mem_magnitudeText {bits : ℕ} (h : bits ≤ infinity) {c : Char}
    (hc : c ∈ magnitudeText bits) : c.isDigit ∨ c ∈ ['.', 'i', 'n', 'f'] := by
  rcases h.lt_or_eq with h | rfl
  · obtain ⟨p, hp, -⟩ := exists_magnitudeText_eq h
    rw [hp] at hc
    exact (PlainDigits.mem_chars hc).imp_right (by rintro rfl; simp)
  · rw [magnitudeText_infinity] at hc
    exact .inr (List.mem_cons_of_mem _ hc)

lemma text_of_infinity_lt {x : Float} (h : infinity < magnitude x) : text x = "NaN" := by
  rw [text, if_pos h]

/-- Up to infinity, the sign is written before the magnitude. -/
lemma toList_text {x : Float} (h : magnitude x ≤ infinity) :
    (text x).toList = (if isNegative x then ['-'] else []) ++ magnitudeText (magnitude x) := by
  rw [text, if_neg (not_lt.2 h)]
  split <;> simp

lemma mem_text_iff {x : Float} (h : magnitude x ≤ infinity) {c : Char} :
    c ∈ (text x).toList ↔ isNegative x ∧ c = '-' ∨ c ∈ magnitudeText (magnitude x) := by
  rw [toList_text h, List.mem_append]
  split <;> simp_all

/-- The characters in which numbers are written. -/
lemma mem_text {x : Float} {c : Char} (h : c ∈ (text x).toList) :
    c.isDigit ∨ c ∈ ['-', '.', 'i', 'n', 'f', 'N', 'a'] := by
  rcases lt_or_ge infinity (magnitude x) with hx | hx
  · simp only [text_of_infinity_lt hx, String.reduceToList, List.mem_cons, List.not_mem_nil,
      or_false] at h
    rcases h with rfl | rfl | rfl <;> simp
  · rcases (mem_text_iff hx).1 h with ⟨-, rfl⟩ | hc
    · simp
    · refine (mem_magnitudeText hx hc).imp_right fun hc => ?_
      simp only [List.mem_cons, List.not_mem_nil, or_false] at hc
      rcases hc with rfl | rfl | rfl | rfl <;> simp

/-- Up to infinity, the text tells the sign. -/
lemma minus_mem_text_iff {x : Float} (h : magnitude x ≤ infinity) :
    '-' ∈ (text x).toList ↔ isNegative x = true := by
  rw [mem_text_iff h, or_iff_left fun hmem => absurd (mem_magnitudeText h hmem) (by decide)]
  simp

lemma text_ne_of_magnitude_le {x y : Float} (hx : infinity < magnitude x)
    (hy : magnitude y ≤ infinity) : text x ≠ text y := by
  intro h
  have hmem : 'N' ∈ (text y).toList := by simp [← h, text_of_infinity_lt hx]
  rcases (mem_text_iff hy).1 hmem with ⟨-, hc⟩ | hc
  · exact absurd hc (by decide)
  · exact absurd (mem_magnitudeText hy hc) (by decide)

/-- **Different numbers have different texts**; the two zeros are different, and there is
only one double that is not a number. -/
theorem text_injective : Function.Injective text := by
  intro x y h
  rcases lt_or_ge infinity (magnitude x) with hx | hx <;>
    rcases lt_or_ge infinity (magnitude y) with hy | hy
  · have hnan {z : Float} (hz : infinity < magnitude z) : z = Float.nan := by
      simpa using Binary64.isNaN_iff.2 hz
    rw [hnan hx, hnan hy]
  · exact absurd h (text_ne_of_magnitude_le hx hy)
  · exact absurd h.symm (text_ne_of_magnitude_le hy hx)
  · have hsign : isNegative x = isNegative y := by
      rw [Bool.eq_iff_iff, ← minus_mem_text_iff hx, ← minus_mem_text_iff hy, h]
    have hmagnitude : magnitude x = magnitude y := by
      have hlist := toList_text hx
      rw [h, toList_text hy, hsign] at hlist
      exact magnitudeText_injOn hx hy (List.append_cancel_left hlist).symm
    rw [← Binary64.ofMagnitude_magnitude x, hsign, hmagnitude, Binary64.ofMagnitude_magnitude]

end Number

end SketchLisp

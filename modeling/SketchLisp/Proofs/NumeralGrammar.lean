import Mathlib.Computability.RegularExpressions
import Mathlib.Data.List.TakeWhile
import Mathlib.Tactic.IntervalCases
import SketchLisp.Number.Numeral

/-!
The grammar of numerals, and that reading follows it.

A numeral is an optional sign, digits with at most one point among or around them, and an
optional exponent. Reading takes these parts off a text one after another, each as long as
it can be, and nevertheless finds every text that can be divided into them in some way.

* `Pattern.oneOf`, `Pattern.optional`, `Pattern.digits`: small regular expressions;
* `Numeral.grammar`: the grammar, with its parts `Numeral.sign`, `Numeral.mantissa` and
  `Numeral.exponent`;
* `Numeral.mem_sign_mul_iff`, `Numeral.mem_mantissa_mul_iff`, `Numeral.mem_exponent_iff`: how
  reading finds each part;
* `Numeral.isSome_read?_iff`: a text is read as a numeral exactly if it matches the grammar.
-/

namespace SketchLisp

open RegularExpression (char matches'_mul matches'_add matches'_star)

/-! ### Small expressions -/

namespace Pattern

/-- One of some characters. -/
def oneOf (chars : List Char) : RegularExpression Char := (chars.map char).sum

/-- Something that can be left out. -/
def optional (r : RegularExpression Char) : RegularExpression Char := 1 + r

/-- One digit: `[0-9]`. -/
def digit : RegularExpression Char := oneOf ['0', '1', '2', '3', '4', '5', '6', '7', '8', '9']

/-- One or more digits: `[0-9]+`. -/
def digits : RegularExpression Char := digit * digit.star

lemma mem_oneOf_iff {chars text : List Char} :
    text ∈ (oneOf chars).matches' ↔ ∃ c ∈ chars, text = [c] := by
  induction chars with
  | nil => simp [oneOf]
  | cons c chars ih =>
      have hadd : (oneOf (c :: chars)).matches' = (char c).matches' + (oneOf chars).matches' := rfl
      rw [hadd, Language.mem_add, ih]
      simp only [List.mem_cons, exists_eq_or_imp]
      rfl

lemma mem_optional_iff {r : RegularExpression Char} {text : List Char} :
    text ∈ (optional r).matches' ↔ text = [] ∨ text ∈ r.matches' := Iff.rfl

lemma mem_char_mul_iff {c : Char} {r : RegularExpression Char} {text : List Char} :
    text ∈ (char c * r).matches' ↔ ∃ rest ∈ r.matches', text = c :: rest := by
  rw [matches'_mul, Language.mem_mul]
  constructor
  · rintro ⟨_, rfl, rest, hrest, rfl⟩
    exact ⟨rest, hrest, rfl⟩
  · rintro ⟨rest, hrest, rfl⟩
    exact ⟨[c], rfl, rest, hrest, rfl⟩

lemma isDigit_iff_mem {c : Char} :
    c.isDigit ↔ c ∈ ['0', '1', '2', '3', '4', '5', '6', '7', '8', '9'] := by
  constructor
  · intro h
    have hbounds : 48 ≤ c.toNat ∧ c.toNat ≤ 57 := by
      simpa [Char.isDigit, UInt32.le_iff_toNat_le] using h
    obtain ⟨hlow, hhigh⟩ := hbounds
    have hc := c.ofNat_toNat
    interval_cases c.toNat <;> rw [← hc] <;> decide
  · intro h
    have hall : ∀ d ∈ ['0', '1', '2', '3', '4', '5', '6', '7', '8', '9'], d.isDigit := by simp
    exact hall c h

lemma mem_digit_iff {text : List Char} : text ∈ digit.matches' ↔ ∃ c, c.isDigit ∧ text = [c] := by
  simp only [digit, mem_oneOf_iff, isDigit_iff_mem]

lemma mem_star_digit_iff {text : List Char} :
    text ∈ digit.star.matches' ↔ ∀ c ∈ text, c.isDigit := by
  rw [matches'_star, Language.mem_kstar]
  constructor
  · rintro ⟨pieces, rfl, hpieces⟩ c hc
    obtain ⟨piece, hpiece, hc⟩ := List.mem_flatten.1 hc
    obtain ⟨d, hd, rfl⟩ := mem_digit_iff.1 (hpieces piece hpiece)
    rwa [List.mem_singleton.1 hc]
  · intro h
    refine ⟨text.map fun c => [c], (List.flatMap_singleton' text).symm, fun piece hpiece => ?_⟩
    obtain ⟨c, hc, rfl⟩ := List.mem_map.1 hpiece
    exact mem_digit_iff.2 ⟨c, h c hc, rfl⟩

lemma mem_digits_iff {text : List Char} :
    text ∈ digits.matches' ↔ text ≠ [] ∧ ∀ c ∈ text, c.isDigit := by
  rw [digits, matches'_mul, Language.mem_mul]
  constructor
  · rintro ⟨first, hfirst, rest, hrest, rfl⟩
    obtain ⟨c, hc, rfl⟩ := mem_digit_iff.1 hfirst
    exact ⟨by simp, by simpa [hc] using mem_star_digit_iff.1 hrest⟩
  · rintro ⟨hne, h⟩
    obtain ⟨c, rest, rfl⟩ := List.exists_cons_of_ne_nil hne
    exact ⟨[c], mem_digit_iff.2 ⟨c, h c (by simp), rfl⟩, rest,
      mem_star_digit_iff.2 fun d hd => h d (by simp [hd]), rfl⟩

end Pattern

namespace Numeral

open Pattern

/-! ### The grammar -/

/-- An optional sign: `[+-]?`. -/
def sign : RegularExpression Char := optional (oneOf ['+', '-'])

/-- Digits with at most one point: `[0-9]+|[0-9]+\.[0-9]*|[0-9]*\.[0-9]+`. -/
def mantissa : RegularExpression Char :=
  digits + digits * (char '.' * digit.star) + digit.star * (char '.' * digits)

/-- An optional exponent: `([eE][+-]?[0-9]+)?`. -/
def exponent : RegularExpression Char := optional (oneOf ['e', 'E'] * (sign * digits))

/-- The numerals. -/
def grammar : RegularExpression Char := sign * (mantissa * exponent)

/-! ### Signs -/

/-- A sign is taken off where what follows it does not start with one. -/
lemma mem_sign_mul_iff {r : RegularExpression Char}
    (hr : ∀ text ∈ r.matches', text.head? ≠ some '+' ∧ text.head? ≠ some '-') {text : List Char} :
    text ∈ (sign * r).matches' ↔ (readSign text).2 ∈ r.matches' := by
  rw [matches'_mul, Language.mem_mul]
  constructor
  · rintro ⟨s, hs, rest, hrest, rfl⟩
    rcases mem_optional_iff.1 hs with rfl | hs
    · obtain ⟨hplus, hminus⟩ := hr rest hrest
      rw [List.nil_append, readSign]
      · exact hrest
      · rintro tail rfl
        exact hminus rfl
      · rintro tail rfl
        exact hplus rfl
    · obtain ⟨c, hc, rfl⟩ := mem_oneOf_iff.1 hs
      simp only [List.mem_cons, List.not_mem_nil, or_false] at hc
      rcases hc with rfl | rfl <;> exact hrest
  · intro h
    rw [readSign.eq_def] at h
    split at h
    · exact ⟨['-'], .inr (mem_oneOf_iff.2 ⟨'-', by simp, rfl⟩), _, h, rfl⟩
    · exact ⟨['+'], .inr (mem_oneOf_iff.2 ⟨'+', by simp, rfl⟩), _, h, rfl⟩
    · exact ⟨[], .inl rfl, _, h, rfl⟩

/-- What starts with a digit does not start with a sign. -/
lemma head?_ne_sign {text : List Char} (h : ∀ c ∈ text.head?, c.isDigit ∨ c = '.') :
    text.head? ≠ some '+' ∧ text.head? ≠ some '-' := by
  constructor <;> intro hsign <;> exact absurd (h _ hsign) (by decide)

/-! ### Exponents -/

lemma mem_exponent_cons_iff {letter : Char} {rest : List Char} : letter :: rest ∈ exponent.matches'
    ↔ (letter = 'e' ∨ letter = 'E') ∧ rest ∈ (sign * digits).matches' := by
  rw [exponent, mem_optional_iff, matches'_mul, Language.mem_mul]
  constructor
  · rintro (h | ⟨first, hfirst, others, hothers, h⟩)
    · simp at h
    · obtain ⟨c, hc, rfl⟩ := mem_oneOf_iff.1 hfirst
      obtain ⟨rfl, rfl⟩ := List.cons.inj h
      exact ⟨by simpa using hc, hothers⟩
  · rintro ⟨hletter, hrest⟩
    have hfirst : [letter] ∈ (oneOf ['e', 'E']).matches' :=
      mem_oneOf_iff.2 ⟨letter, by simpa using hletter, rfl⟩
    exact .inr ⟨[letter], hfirst, rest, hrest, rfl⟩

/-- **Exponents are read** where the grammar has them. -/
lemma mem_exponent_iff {text : List Char} :
    text ∈ exponent.matches' ↔ (readExponent? text).isSome := by
  have hdigits : ∀ cs ∈ digits.matches', cs.head? ≠ some '+' ∧ cs.head? ≠ some '-' := by
    intro cs hcs
    refine head?_ne_sign fun c hc => .inl ?_
    exact (mem_digits_iff.1 hcs).2 c (List.mem_of_mem_head? hc)
  cases text with
  | nil => simp [exponent, mem_optional_iff, readExponent?]
  | cons letter rest =>
      rw [mem_exponent_cons_iff, mem_sign_mul_iff hdigits, mem_digits_iff, readExponent?]
      simp [and_assoc]

/-- Neither a digit nor a point starts an exponent. -/
lemma head?_exponent {text : List Char} (h : text ∈ exponent.matches') :
    ∀ c ∈ text.head?, c.isDigit = false ∧ c ≠ '.' := by
  intro c hc
  obtain ⟨rest, rfl⟩ := List.head?_eq_some_iff.1 hc
  obtain ⟨rfl | rfl, -⟩ := mem_exponent_cons_iff.1 h
  · decide
  · decide

/-! ### Digits and a point -/

/-- A point with the digits behind it, or nothing. -/
def pointed : Option (List Char) → List Char
  | none => []
  | some fraction => '.' :: fraction

lemma mem_mantissa_iff {text : List Char} : text ∈ mantissa.matches' ↔ ∃ whole fraction,
    text = whole ++ pointed fraction ∧ whole ++ fraction.getD [] ≠ []
    ∧ (∀ c ∈ whole, c.isDigit) ∧ ∀ c ∈ fraction.getD [], c.isDigit := by
  simp only [mantissa, matches'_add, Language.mem_add, matches'_mul digits, matches'_mul digit.star,
    Language.mem_mul, mem_char_mul_iff, mem_digits_iff, mem_star_digit_iff]
  constructor
  · rintro ((⟨hne, h⟩ | ⟨whole, ⟨hne, hwhole⟩, _, ⟨fraction, hfraction, rfl⟩, rfl⟩)
      | ⟨whole, hwhole, _, ⟨fraction, ⟨hne, hfraction⟩, rfl⟩, rfl⟩)
    · exact ⟨text, none, by simp [pointed], by simpa using hne, h, by simp⟩
    · exact ⟨whole, some fraction, rfl, by simp [hne], hwhole, hfraction⟩
    · exact ⟨whole, some fraction, rfl, by simp [hne], hwhole, hfraction⟩
  · rintro ⟨whole, fraction, rfl, hne, hwhole, hfraction⟩
    cases fraction with
    | none => exact .inl (.inl ⟨by simpa [pointed] using hne, by simpa [pointed] using hwhole⟩)
    | some fraction =>
        by_cases hnil : whole = []
        · have hne' : fraction ≠ [] := by simpa [hnil] using hne
          exact .inr ⟨whole, hwhole, _, ⟨fraction, ⟨hne', hfraction⟩, rfl⟩, rfl⟩
        · exact .inl (.inr ⟨whole, ⟨hnil, hwhole⟩, _, ⟨fraction, hfraction, rfl⟩, rfl⟩)

/-- Digits behind a point are taken off together with it. -/
lemma exists_eq_pointed_append (text : List Char) : ∃ fraction,
    text = pointed fraction ++ (readFraction text).2
    ∧ (readFraction text).1 = fraction.getD [] ∧ ∀ c ∈ fraction.getD [], c.isDigit := by
  rw [readFraction.eq_def]
  split
  · next rest =>
      refine ⟨some (rest.takeWhile Char.isDigit), ?_, rfl, fun c hc => List.mem_takeWhile_imp hc⟩
      simp [pointed]
  · exact ⟨none, rfl, rfl, by simp⟩

/-- Digits and a point are taken off together, if what follows does not go on with them. -/
lemma read_mantissa {whole : List Char} (hwhole : ∀ c ∈ whole, c.isDigit)
    {fraction : Option (List Char)} (hfraction : ∀ c ∈ fraction.getD [], c.isDigit)
    {rest : List Char} (hrest : ∀ c ∈ rest.head?, c.isDigit = false ∧ c ≠ '.') :
    (whole ++ (pointed fraction ++ rest)).takeWhile Char.isDigit = whole
    ∧ readFraction ((whole ++ (pointed fraction ++ rest)).dropWhile Char.isDigit)
      = (fraction.getD [], rest) := by
  have hstop : rest.takeWhile Char.isDigit = [] ∧ rest.dropWhile Char.isDigit = rest := by
    cases rest with
    | nil => exact ⟨rfl, rfl⟩
    | cons c rest => simp [(hrest c rfl).1]
  rw [List.takeWhile_append_of_pos hwhole, List.dropWhile_append_of_pos hwhole]
  cases fraction with
  | none =>
      refine ⟨by simp [pointed, hstop.1], ?_⟩
      rw [pointed, List.nil_append, hstop.2, readFraction]
      · rfl
      · rintro tail rfl
        exact (hrest '.' rfl).2 rfl
  | some fraction =>
      have hpoint : ('.' : Char).isDigit = false := by decide
      have hdigits : ∀ c ∈ fraction, c.isDigit := hfraction
      refine ⟨by simp [pointed, hpoint], ?_⟩
      rw [pointed, List.cons_append, List.dropWhile_cons_of_neg (by simp [hpoint]), readFraction,
        List.takeWhile_append_of_pos hdigits, List.dropWhile_append_of_pos hdigits, hstop.1,
        hstop.2, List.append_nil]
      rfl

/-- **Digits and a point are read** as far as they go, and an exponent behind them. -/
lemma mem_mantissa_mul_iff {body : List Char} : body ∈ (mantissa * exponent).matches' ↔
    body.takeWhile Char.isDigit ++ (readFraction (body.dropWhile Char.isDigit)).1 ≠ []
    ∧ (readExponent? (readFraction (body.dropWhile Char.isDigit)).2).isSome := by
  rw [matches'_mul, Language.mem_mul]
  constructor
  -- taking all digits is never too many, since an exponent starts with none of them
  · rintro ⟨_, hmantissa, rest, hrest, rfl⟩
    obtain ⟨whole, fraction, rfl, hne, hwhole, hfraction⟩ := mem_mantissa_iff.1 hmantissa
    obtain ⟨hreadWhole, hreadFraction⟩ := read_mantissa hwhole hfraction (head?_exponent hrest)
    rw [List.append_assoc, hreadWhole, hreadFraction]
    exact ⟨hne, mem_exponent_iff.1 hrest⟩
  · rintro ⟨hne, hrest⟩
    have hwhole : ∀ c ∈ body.takeWhile Char.isDigit, c.isDigit := fun c hc =>
      List.mem_takeWhile_imp hc
    obtain ⟨fraction, heq, hread, hfraction⟩ :=
      exists_eq_pointed_append (body.dropWhile Char.isDigit)
    rw [hread] at hne
    refine ⟨body.takeWhile Char.isDigit ++ pointed fraction,
      mem_mantissa_iff.2 ⟨_, _, rfl, hne, hwhole, hfraction⟩, _, mem_exponent_iff.2 hrest, ?_⟩
    rw [List.append_assoc, ← heq, List.takeWhile_append_dropWhile]

/-- A digit or a point comes first. -/
lemma exists_cons_of_mem_mantissa {text : List Char} (h : text ∈ mantissa.matches') :
    ∃ c rest, text = c :: rest ∧ (c.isDigit ∨ c = '.') := by
  obtain ⟨whole, fraction, rfl, hne, hwhole, -⟩ := mem_mantissa_iff.1 h
  cases whole with
  | cons c rest => exact ⟨c, _, rfl, .inl (hwhole c (by simp))⟩
  | nil =>
      cases fraction with
      | none => simp at hne
      | some fraction => exact ⟨'.', fraction, rfl, .inr rfl⟩

/-- **Reading follows the grammar of numerals.** -/
lemma isSome_read?_iff {text : List Char} : (read? text).isSome ↔ text ∈ grammar.matches' := by
  have hsign : ∀ cs ∈ (mantissa * exponent).matches',
      cs.head? ≠ some '+' ∧ cs.head? ≠ some '-' := by
    rintro _ ⟨m, hm, rest, -, rfl⟩
    obtain ⟨c, cs, rfl, hc⟩ := exists_cons_of_mem_mantissa hm
    refine head?_ne_sign fun d hd => ?_
    obtain rfl : c = d := by simpa using hd
    exact hc
  rw [grammar, mem_sign_mul_iff hsign, mem_mantissa_mul_iff, read?]
  dsimp only
  split_ifs with hnone
  · rw [Bool.and_eq_true, List.isEmpty_iff, List.isEmpty_iff] at hnone
    simp [hnone]
  · rw [Bool.and_eq_true, List.isEmpty_iff, List.isEmpty_iff] at hnone
    rw [Option.isSome_map, ne_eq, List.append_eq_nil_iff]
    exact (and_iff_right hnone).symm

end Numeral

end SketchLisp

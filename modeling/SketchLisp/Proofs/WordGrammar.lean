import SketchLisp.Proofs.NumeralGrammar
import SketchLisp.Proofs.SourceTrees

/-!
The grammar of words.

Which atom a word stands for is decided by several tests that overlap and are tried in order.
Put together they come to this: numbers and booleans match regular expressions of their own, a
few kinds of words stand for nothing, and every other word is a name.

* `Word.number`, `Word.boolean`: the expressions for numbers and booleans;
* `Word.mem_number_iff`: the numbers among the words are the numerals that look like numbers;
* `Word.Malformed`: the words that stand for nothing;
* `Word.atom?_eq_number_iff`, `Word.atom?_eq_boolean_iff`, `Word.atom?_eq_none_iff`: when each
  answer is given;
* `word_follows_grammar`: the four answers, each with its words.
-/

namespace SketchLisp

open RegularExpression (char matches'_mul matches'_add)
open Pattern

namespace Word

/-! ### Expressions for words -/

/-- An exponent without a sign: `(e[0-9]+)?`. -/
def plainExponent : RegularExpression Char := optional (char 'e' * digits)

/-- Words for numbers: `-?[0-9]+(\.[0-9]*)?(e[0-9]+)?` and `-\.[0-9]+(e[0-9]+)?`. -/
def number : RegularExpression Char :=
  optional (char '-') * (digits * (optional (char '.' * digit.star) * plainExponent))
    + char '-' * (char '.' * (digits * plainExponent))

/-- Letters in either case. -/
def anyCase (letters : List Char) : RegularExpression Char :=
  (letters.map fun c => oneOf [c, c.toUpper]).prod

/-- The letters of a boolean. -/
def booleanLetters : Bool → List Char
  | true => ['t', 'r', 'u', 'e']
  | false => ['f', 'a', 'l', 's', 'e']

/-- Words for a boolean: `true` or `false` in any case of letters. -/
def boolean (b : Bool) : RegularExpression Char := anyCase (booleanLetters b)

/-! ### Booleans -/

/-- A letter in either case is that letter once its case is lowered. -/
lemma mem_cases_iff {c d : Char} (hd : d.isLower) : c ∈ [d, d.toUpper] ↔ c.toLower = d := by
  have hlower : d.toLower = d := Char.toLower_eq_of_not_isUpper (Char.not_isUpper_of_isLower hd)
  rw [List.mem_pair]
  constructor
  · rintro (rfl | rfl)
    · exact hlower
    · rw [Char.toLower_toUpper_eq_toLower, hlower]
  · rintro rfl
    by_cases hc : c.isUpper
    · refine .inr ?_
      rw [Char.toUpper_toLower_eq_toUpper, Char.toUpper_eq_of_not_isLower]
      exact Char.not_isLower_of_isUpper hc
    · exact .inl (Char.toLower_eq_of_not_isUpper hc).symm

/-- Letters in either case are those letters once their case is lowered. -/
lemma mem_anyCase_iff {letters text : List Char} (h : ∀ d ∈ letters, d.isLower) :
    text ∈ (anyCase letters).matches' ↔ text.map Char.toLower = letters := by
  induction letters generalizing text with
  | nil => simp [anyCase]
  | cons d letters ih =>
      have hd : d.isLower := h d (by simp)
      have hletters : ∀ d ∈ letters, d.isLower := fun d hd => h d (by simp [hd])
      have hmul : (anyCase (d :: letters)).matches'
          = (oneOf [d, d.toUpper]).matches' * (anyCase letters).matches' := rfl
      rw [hmul, Language.mem_mul, List.map_eq_cons_iff]
      constructor
      · rintro ⟨first, hfirst, rest, hrest, rfl⟩
        obtain ⟨c, hc, rfl⟩ := mem_oneOf_iff.1 hfirst
        exact ⟨c, rest, rfl, (mem_cases_iff hd).1 hc, (ih hletters).1 hrest⟩
      · rintro ⟨c, rest, rfl, hc, hrest⟩
        have hfirst : [c] ∈ (oneOf [d, d.toUpper]).matches' :=
          mem_oneOf_iff.2 ⟨c, (mem_cases_iff hd).2 hc, rfl⟩
        exact ⟨[c], hfirst, rest, (ih hletters).2 hrest, rfl⟩

lemma isLower_of_mem_booleanLetters {b : Bool} : ∀ d ∈ booleanLetters b, d.isLower := by
  cases b <;> simp [booleanLetters]

lemma mem_boolean_iff {text : List Char} {b : Bool} :
    text ∈ (boolean b).matches' ↔ text.map Char.toLower = booleanLetters b :=
  mem_anyCase_iff isLower_of_mem_booleanLetters

/-- Booleans are recognised in any case. -/
lemma boolean?_eq_some_iff {w : String} {b : Bool} :
    boolean? w = some b ↔ w.toList ∈ (boolean b).matches' := by
  rw [mem_boolean_iff, boolean?]
  cases b with
  | true => split_ifs with h <;> simp [booleanLetters, h]
  | false => split_ifs <;> simp_all [booleanLetters]

lemma boolean?_eq_none_iff_notMem {w : String} :
    boolean? w = none ↔ ∀ b, w.toList ∉ (boolean b).matches' := by
  simp only [Option.eq_none_iff_forall_ne_some, ne_eq, boolean?_eq_some_iff]

/-! ### Numbers -/

open Numeral (pointed mantissa mem_mantissa_iff)

lemma mem_plainExponent_iff {text : List Char} : text ∈ plainExponent.matches'
    ↔ text = [] ∨ ∃ size ∈ digits.matches', text = 'e' :: size := by
  rw [plainExponent, mem_optional_iff, mem_char_mul_iff]

lemma mem_point_iff {text : List Char} : text ∈ (optional (char '.' * digit.star)).matches'
    ↔ ∃ fraction, text = pointed fraction ∧ ∀ c ∈ fraction.getD [], c.isDigit := by
  rw [mem_optional_iff, mem_char_mul_iff]
  constructor
  · rintro (rfl | ⟨fraction, hfraction, rfl⟩)
    · exact ⟨none, rfl, by simp⟩
    · exact ⟨some fraction, rfl, mem_star_digit_iff.1 hfraction⟩
  · rintro ⟨_ | fraction, rfl, h⟩
    · exact .inl rfl
    · exact .inr ⟨fraction, mem_star_digit_iff.2 h, rfl⟩

/-- Digits with so many points and letters `e` among them at most. -/
structure Marked (points exponents : Nat) (cs : List Char) : Prop where
  chars : ∀ d ∈ cs, d.isDigit ∨ d = '.' ∨ d = 'e'
  points_le : cs.count '.' ≤ points
  exponents_le : cs.count 'e' ≤ exponents

namespace Marked

lemma of_isDigit {cs : List Char} (h : ∀ c ∈ cs, c.isDigit) : Marked 0 0 cs where
  chars d hd := .inl (h d hd)
  points_le := (count_eq_zero_of_isDigit h (by decide)).le
  exponents_le := (count_eq_zero_of_isDigit h (by decide)).le

lemma point : Marked 1 0 ['.'] := ⟨by simp, by decide, by decide⟩

lemma letter : Marked 0 1 ['e'] := ⟨by simp, by decide, by decide⟩

lemma append {p q p' q' : Nat} {cs ds : List Char} (h : Marked p q cs) (h' : Marked p' q' ds) :
    Marked (p + p') (q + q') (cs ++ ds) where
  chars d hd := (List.mem_append.1 hd).elim (h.chars d) (h'.chars d)
  points_le := by
    rw [List.count_append]
    exact Nat.add_le_add h.points_le h'.points_le
  exponents_le := by
    rw [List.count_append]
    exact Nat.add_le_add h.exponents_le h'.exponents_le

lemma sublist {p q : Nat} {cs ds : List Char} (h : Marked p q ds) (hsub : cs.Sublist ds) :
    Marked p q cs where
  chars d hd := h.chars d (hsub.subset hd)
  points_le := (hsub.count_le _).trans h.points_le
  exponents_le := (hsub.count_le _).trans h.exponents_le

end Marked

lemma numberShaped_iff {text : List Char} : NumberShaped text
    ↔ ∃ c rest, text = c :: rest ∧ (c.isDigit ∨ c = '-') ∧ Marked 1 1 rest := by
  constructor
  · rintro ⟨c, rest, htext, hc, hchars, hpoints, hexponents⟩
    exact ⟨c, rest, htext, hc, hchars, hpoints, hexponents⟩
  · rintro ⟨c, rest, htext, hc, hrest⟩
    exact ⟨c, rest, htext, hc, hrest.chars, hrest.points_le, hrest.exponents_le⟩

/-- Parts of a text that might be a number: an optional minus, digits with at most one point,
and an exponent without a sign. -/
structure Parts (text s m e : List Char) : Prop where
  eq_append : text = s ++ (m ++ e)
  minus : s = [] ∨ s = ['-']
  mantissa : m ∈ mantissa.matches'
  exponent : e ∈ plainExponent.matches'

/-- A number has such parts and does not start with a point. -/
lemma exists_parts_of_mem_number {text : List Char} (h : text ∈ number.matches') :
    text.head? ≠ some '.' ∧ ∃ s m e, Parts text s m e := by
  rw [number, matches'_add, Language.mem_add, mem_char_mul_iff] at h
  simp only [mem_char_mul_iff, matches'_mul (optional _), matches'_mul digits,
    Language.mem_mul] at h
  rcases h with ⟨s, hs, _, ⟨whole, hwhole, _, ⟨point, hpoint, e, he, rfl⟩, rfl⟩, rfl⟩
    | ⟨_, ⟨_, ⟨fraction, hfraction, e, he, rfl⟩, rfl⟩, rfl⟩
  · obtain ⟨hne, hwhole⟩ := mem_digits_iff.1 hwhole
    obtain ⟨fraction, rfl, hfraction⟩ := mem_point_iff.1 hpoint
    have hm : whole ++ pointed fraction ∈ mantissa.matches' :=
      mem_mantissa_iff.2 ⟨whole, fraction, rfl, by simp [hne], hwhole, hfraction⟩
    refine ⟨?_, s, _, e, by simp, hs, hm, he⟩
    obtain ⟨c, rest, rfl⟩ := List.exists_cons_of_ne_nil hne
    rcases mem_optional_iff.1 hs with rfl | rfl
    · intro hhead
      obtain rfl : c = '.' := by simpa using hhead
      exact absurd (hwhole '.' (by simp)) (by decide)
    · simp
  · obtain ⟨hne, hfraction⟩ := mem_digits_iff.1 hfraction
    have hm : '.' :: fraction ∈ mantissa.matches' :=
      mem_mantissa_iff.2 ⟨[], some fraction, rfl, by simpa using hne, by simp, hfraction⟩
    exact ⟨by simp, ['-'], _, e, rfl, .inr rfl, hm, he⟩

namespace Parts

/-- With digits before the point the minus is optional, and else the point stands behind it. -/
lemma mem_number {text s m e : List Char} (h : Parts text s m e) (hhead : text.head? ≠ some '.') :
    text ∈ number.matches' := by
  obtain ⟨rfl, hs, hm, he⟩ := h
  obtain ⟨whole, fraction, rfl, hne, hwhole, hfraction⟩ := mem_mantissa_iff.1 hm
  rw [number, matches'_add, Language.mem_add, mem_char_mul_iff]
  simp only [mem_char_mul_iff, matches'_mul (optional _), matches'_mul digits, Language.mem_mul]
  by_cases hnil : whole = []
  · subst hnil
    cases fraction with
    | none => simp at hne
    | some fraction =>
        rcases hs with rfl | rfl
        · simp [pointed] at hhead
        · refine .inr ⟨_, ⟨_, ⟨fraction, ?_, e, he, rfl⟩, rfl⟩, rfl⟩
          exact mem_digits_iff.2 ⟨by simpa using hne, hfraction⟩
  · refine .inl ⟨s, hs, _, ⟨whole, mem_digits_iff.2 ⟨hnil, hwhole⟩, _,
      ⟨pointed fraction, mem_point_iff.2 ⟨fraction, rfl, hfraction⟩, e, he, rfl⟩, rfl⟩, ?_⟩
    simp

/-- The parts are those of a numeral. -/
lemma mem_grammar {text s m e : List Char} (h : Parts text s m e) :
    text ∈ Numeral.grammar.matches' := by
  obtain ⟨rfl, hs, hm, he⟩ := h
  have hsign : s ∈ Numeral.sign.matches' := by
    rcases hs with rfl | rfl
    · exact .inl rfl
    · exact .inr (mem_oneOf_iff.2 ⟨'-', by simp, rfl⟩)
  have hexponent : e ∈ Numeral.exponent.matches' := by
    rcases mem_plainExponent_iff.1 he with rfl | ⟨size, hsize, rfl⟩
    · exact .inl rfl
    · exact Numeral.mem_exponent_cons_iff.2 ⟨.inl rfl, [], .inl rfl, size, hsize, rfl⟩
  exact ⟨s, hsign, m ++ e, ⟨m, hm, e, hexponent, rfl⟩, rfl⟩

/-- Behind the minus stand digits with at most one point and at most one `e`. -/
lemma marked {text s m e : List Char} (h : Parts text s m e) : Marked 1 1 (m ++ e) := by
  obtain ⟨whole, fraction, rfl, -, hwhole, hfraction⟩ := mem_mantissa_iff.1 h.mantissa
  have hpointed : Marked 1 0 (pointed fraction) := by
    cases fraction with
    | none => exact ⟨by simp [pointed], by simp [pointed], by simp [pointed]⟩
    | some fraction => exact Marked.point.append (.of_isDigit hfraction)
  have hexponent : Marked 0 1 e := by
    rcases mem_plainExponent_iff.1 h.exponent with rfl | ⟨size, hsize, rfl⟩
    · exact ⟨by simp, by simp, by simp⟩
    · exact Marked.letter.append (.of_isDigit (mem_digits_iff.1 hsize).2)
  exact ((Marked.of_isDigit hwhole).append hpointed).append hexponent

/-- With no point in front, the text looks like a number. -/
lemma numberShaped {text s m e : List Char} (h : Parts text s m e)
    (hhead : text.head? ≠ some '.') : NumberShaped text := by
  obtain ⟨c, rest, hm, hc⟩ := Numeral.exists_cons_of_mem_mantissa h.mantissa
  have hmarked := h.marked
  obtain ⟨rfl, hs, -, -⟩ := h
  rw [numberShaped_iff]
  rcases hs with rfl | rfl
  · refine ⟨c, rest ++ e, by simp [hm], ?_, hmarked.sublist (by simp [hm])⟩
    have hne : c ≠ '.' := by simpa [hm] using hhead
    exact .inl (hc.resolve_right hne)
  · exact ⟨'-', m ++ e, rfl, .inr rfl, hmarked⟩

end Parts

/-- An exponent among such characters has neither a sign nor a capital letter. -/
lemma mem_plainExponent_of_chars {e : List Char} (h : e ∈ Numeral.exponent.matches')
    (hchars : ∀ d ∈ e, d.isDigit ∨ d = '.' ∨ d = 'e') : e ∈ plainExponent.matches' := by
  rw [mem_plainExponent_iff]
  cases e with
  | nil => exact .inl rfl
  | cons letter rest =>
      obtain ⟨hletter, sg, hsg, size, hsize, rfl⟩ := Numeral.mem_exponent_cons_iff.1 h
      have hlower : letter = 'e' := by
        refine hletter.resolve_right ?_
        rintro rfl
        exact absurd (hchars 'E' (by simp)) (by decide)
      rcases mem_optional_iff.1 hsg with rfl | hsg
      · exact .inr ⟨size, hsize, by rw [hlower]; rfl⟩
      · obtain ⟨x, hx, rfl⟩ := mem_oneOf_iff.1 hsg
        have hall : ∀ x ∈ ['+', '-'], ¬ (x.isDigit ∨ x = '.' ∨ x = 'e') := by simp
        exact absurd (hchars x (by simp)) (hall x hx)

/-- A numeral that looks like a number has such parts, since a plus comes nowhere and a minus
only in front. -/
lemma exists_parts_of_mem_grammar {text : List Char} (hshape : NumberShaped text)
    (h : text ∈ Numeral.grammar.matches') : ∃ s m e, Parts text s m e := by
  obtain ⟨s, hs, _, ⟨m, hm, e, he, rfl⟩, rfl⟩ := h
  obtain ⟨c, rest, htext, hc, hrest⟩ := numberShaped_iff.1 hshape
  obtain ⟨first, others, rfl, -⟩ := Numeral.exists_cons_of_mem_mantissa hm
  obtain ⟨hminus, hsub⟩ : (s = [] ∨ s = ['-']) ∧ ∀ d ∈ e, d ∈ rest := by
    rcases mem_optional_iff.1 hs with rfl | hs
    · obtain ⟨-, rfl⟩ := List.cons.inj htext
      exact ⟨.inl rfl, fun d hd => by simp [hd]⟩
    · obtain ⟨x, hx, rfl⟩ := mem_oneOf_iff.1 hs
      obtain ⟨rfl, rfl⟩ := List.cons.inj htext
      have hne : x ≠ '+' := by
        rintro rfl
        exact absurd hc (by decide)
      exact ⟨.inr (by simpa [hne] using hx), fun d hd => by simp [hd]⟩
  exact ⟨s, _, e, rfl, hminus, hm, mem_plainExponent_of_chars he fun d hd =>
    hrest.chars d (hsub d hd)⟩

/-- **The numbers among the words** are the numerals that look like numbers. -/
lemma mem_number_iff {text : List Char} : text ∈ number.matches'
    ↔ NumberShaped text ∧ text ∈ Numeral.grammar.matches' := by
  constructor
  · intro h
    obtain ⟨hhead, s, m, e, hparts⟩ := exists_parts_of_mem_number h
    exact ⟨hparts.numberShaped hhead, hparts.mem_grammar⟩
  · rintro ⟨hshape, h⟩
    obtain ⟨s, m, e, hparts⟩ := exists_parts_of_mem_grammar hshape h
    refine hparts.mem_number ?_
    obtain ⟨c, rest, rfl, hc, -⟩ := numberShaped_iff.1 hshape
    intro hhead
    obtain rfl : c = '.' := by simpa using hhead
    exact absurd hc (by decide)

/-- Digits on one side of the point are enough behind a minus, but a number needs digits in its
exponent and does not start with a point. -/
example : "-.5e2".toList ∈ number.matches' ∧ "7.".toList ∈ number.matches'
    ∧ "1e".toList ∉ number.matches' ∧ ".5".toList ∉ number.matches' := by decide

/-! ### Answers -/

lemma mem_number_iff_read? {w : String} :
    w.toList ∈ number.matches' ↔ hasNumberShape w = true ∧ (Number.read? w).isSome := by
  rw [mem_number_iff, ← Numeral.isSome_read?_iff, hasNumberShape_iff, Number.read?,
    Option.isSome_map]

/-- A word that looks like a number is no boolean. -/
lemma boolean?_of_hasNumberShape {w : String} (h : hasNumberShape w = true) :
    boolean? w = none := by
  obtain ⟨c, rest, hw, hc, -⟩ := hasNumberShape_iff.1 h
  exact boolean?_of_head? (by rw [hw]; rfl) hc

/-- What spells a boolean or looks like a number is no bracket and, but for the minus, no name
of the language. -/
lemma not_vocabulary {w : String}
    (h : boolean? w ≠ none ∨ w ≠ "-" ∧ hasNumberShape w = true) : (w ≠ "(" ∧ w ≠ ")")
    ∧ (Vocabulary.isReserved w || Vocabulary.isSpecialCharacter w) = false := by
  refine ⟨⟨?_, ?_⟩, ?_⟩
  · rintro rfl
    exact absurd h (by decide)
  · rintro rfl
    exact absurd h (by decide)
  · rw [← Bool.not_eq_true]
    intro hw
    obtain ⟨-, hboolean, hname⟩ := isName_of_vocabulary hw
    obtain ⟨hminus, hshape⟩ := h.resolve_left (not_not_intro hboolean)
    exact absurd (hname.resolve_left hminus) (by simp [hshape])

/-- **Words for numbers** stand for the number that they are read as. -/
lemma atom?_eq_number_iff {w : String} {x : Float} : atom? w = some (.number x)
    ↔ w.toList ∈ number.matches' ∧ Number.read? w = some x := by
  rw [mem_number_iff_read?]
  constructor
  · intro h
    rcases atom?_cases h with ⟨hx, -⟩ | ⟨b, hx, -⟩ | ⟨y, hx, hshape, hread⟩
    · cases hx
    · cases hx
    · cases hx
      exact ⟨⟨hshape, by simp [hread]⟩, hread⟩
  · rintro ⟨⟨hshape, -⟩, hread⟩
    have hminus : w ≠ "-" := by
      rintro rfl
      cases hread
    obtain ⟨hbracket, hvocabulary⟩ := not_vocabulary (.inr ⟨hminus, hshape⟩)
    rw [atom?, if_neg (by simpa using hbracket), hvocabulary, boolean?_of_hasNumberShape hshape,
      hshape, hread]
    rfl

/-- Every word that matches the expression of numbers can be read as one. -/
lemma exists_atom?_eq_number_iff {w : String} :
    (∃ x, atom? w = some (.number x)) ↔ w.toList ∈ number.matches' := by
  constructor
  · rintro ⟨x, hx⟩
    exact (atom?_eq_number_iff.1 hx).1
  · intro hnumber
    obtain ⟨x, hx⟩ := Option.isSome_iff_exists.1 (mem_number_iff_read?.1 hnumber).2
    exact ⟨x, atom?_eq_number_iff.2 ⟨hnumber, hx⟩⟩

/-- **Words for booleans** stand for them. -/
lemma atom?_eq_boolean_iff {w : String} {b : Bool} :
    atom? w = some (.boolean b) ↔ w.toList ∈ (boolean b).matches' := by
  rw [← boolean?_eq_some_iff]
  constructor
  · intro h
    rcases atom?_cases h with ⟨hx, -⟩ | ⟨c, hx, hc⟩ | ⟨y, hx, -⟩
    · cases hx
    · cases hx
      exact hc
    · cases hx
  · intro h
    obtain ⟨hbracket, hvocabulary⟩ := not_vocabulary (.inl (h ▸ Option.some_ne_none b))
    rw [atom?, if_neg (by simpa using hbracket), hvocabulary, h]
    rfl

/-! ### Words that stand for nothing -/

/-- What keeps a word from standing for anything: it is empty or a bracket, it holds a blank, or
it starts as numbers do and is none. -/
inductive Malformed (w : String) : Prop
  | empty (h : w = "")
  | bracket (h : w = "(" ∨ w = ")")
  | digit {c : Char} (hfirst : w.toList.head? = some c) (hc : c.isDigit)
      (hnumber : w.toList ∉ number.matches')
  | blank {c : Char} (hc : c ∈ w.toList) (hblank : Text.isBlank c)
  | minus {rest : List Char} (hw : w.toList = '-' :: rest) (hne : w ≠ "-")
      (hrest : Marked 1 1 rest) (hnumber : w.toList ∉ number.matches')

lemma isBlank_of_isAlphanum {c : Char} (h : c.isAlphanum) : Text.isBlank c = false := by
  have hbounds : 48 ≤ c.toNat ∧ c.toNat ≤ 122 := by
    simp only [Char.isAlphanum, Char.isAlpha, Char.isUpper, Char.isLower, Char.isDigit,
      Bool.or_eq_true, Bool.and_eq_true, decide_eq_true_eq, UInt32.le_iff_toNat_le, ge_iff_le] at h
    change ((65 ≤ c.toNat ∧ c.toNat ≤ 90) ∨ (97 ≤ c.toNat ∧ c.toNat ≤ 122))
      ∨ (48 ≤ c.toNat ∧ c.toNat ≤ 57) at h
    omega
  have hranges : ∀ r ∈ Text.blankRanges, r.2 < 48 ∨ 122 < r.1 := by decide
  rw [Text.isBlank, Text.inRanges, List.any_eq_false]
  intro r hr
  have := hranges r hr
  simp only [Bool.and_eq_true, decide_eq_true_eq]
  omega

/-- No number holds a blank. -/
lemma isBlank_of_mem_number {text : List Char} (h : text ∈ number.matches') {c : Char}
    (hc : c ∈ text) : Text.isBlank c = false := by
  have hdigit : c.isDigit → Text.isBlank c = false := fun hd =>
    isBlank_of_isAlphanum (by simp [Char.isAlphanum, hd])
  obtain ⟨first, rest, rfl, hfirst, hrest⟩ := numberShaped_iff.1 (mem_number_iff.1 h).1
  rcases List.mem_cons.1 hc with rfl | hc
  · rcases hfirst with hd | rfl
    · exact hdigit hd
    · decide
  · rcases hrest.chars c hc with hd | rfl | rfl
    · exact hdigit hd
    · decide
    · decide

/-- No boolean holds a blank. -/
lemma isBlank_of_mem_boolean {text : List Char} {b : Bool} (h : text ∈ (boolean b).matches')
    {c : Char} (hc : c ∈ text) : Text.isBlank c = false := by
  have hlower : c.toLower ∈ booleanLetters b := by
    rw [← mem_boolean_iff.1 h]
    exact List.mem_map_of_mem hc
  have halpha : c.isAlpha := by
    rw [← Char.isLower_toLower_eq_isAlpha]
    exact isLower_of_mem_booleanLetters _ hlower
  exact isBlank_of_isAlphanum (by simp [Char.isAlphanum, halpha])

/-- A word that is in order stands for something. -/
lemma malformed_of_atom? {w : String} (h : atom? w = none) : Malformed w := by
  have hnumber : w.toList ∉ number.matches' := by
    intro hw
    obtain ⟨x, hx⟩ := exists_atom?_eq_number_iff.2 hw
    rw [hx] at h
    cases h
  have hboolean : boolean? w = none := by
    rw [boolean?_eq_none_iff_notMem]
    intro b hb
    rw [atom?_eq_boolean_iff.2 hb] at h
    cases h
  by_cases hempty : w = ""
  · exact .empty hempty
  by_cases hbracket : w = "(" ∨ w = ")"
  · exact .bracket hbracket
  by_cases hblank : ∃ c ∈ w.toList, Text.isBlank c
  · obtain ⟨c, hc, hblank⟩ := hblank
    exact .blank hc hblank
  by_cases hdigit : ∃ c, w.toList.head? = some c ∧ c.isDigit
  · obtain ⟨c, hfirst, hc⟩ := hdigit
    exact .digit hfirst hc hnumber
  -- what is left is a name but for its shape
  have hname : isName w = true :=
    isName_iff.2 ⟨hempty, by simpa using hblank, by simpa using hdigit⟩
  have hshape : ¬ (w = "-" ∨ hasNumberShape w = false) := by
    intro hshape
    rw [atom?_eq_symbol_iff.2 ⟨not_or.1 hbracket, hname, hboolean, hshape⟩] at h
    cases h
  rw [not_or, Bool.not_eq_false] at hshape
  obtain ⟨c, rest, hw, hc, hrest⟩ := numberShaped_iff.1 (hasNumberShape_iff.1 hshape.2)
  obtain rfl : c = '-' := hc.resolve_left fun hc => hdigit ⟨c, by rw [hw]; rfl, hc⟩
  exact .minus hw hshape.1 hrest hnumber

/-- What is no number, no boolean and no name stands for nothing. -/
lemma atom?_eq_none_of {w : String} (hnumber : w.toList ∉ number.matches')
    (hboolean : boolean? w = none) (hsymbol : atom? w ≠ some (.symbol w)) : atom? w = none := by
  rw [Option.eq_none_iff_forall_ne_some]
  intro a ha
  rcases atom?_cases ha with ⟨rfl, -⟩ | ⟨b, -, hb⟩ | ⟨x, rfl, -⟩
  · exact hsymbol ha
  · rw [hboolean] at hb
    cases hb
  · exact hnumber (atom?_eq_number_iff.1 ha).1

lemma Malformed.atom?_eq_none {w : String} (h : Malformed w) : atom? w = none := by
  cases h with
  | empty h => rw [h]; rfl
  | bracket h => rcases h with rfl | rfl <;> rfl
  | digit hfirst hc hnumber =>
      refine atom?_eq_none_of hnumber (boolean?_of_head? hfirst (.inl hc)) fun hsymbol => ?_
      obtain ⟨-, hname, -⟩ := atom?_eq_symbol_iff.1 hsymbol
      exact absurd hc (by simp [(isName_iff.1 hname).2.2 _ hfirst])
  | blank hc hblank =>
      refine atom?_eq_none_of (fun hnumber => ?_) ?_ fun hsymbol => ?_
      · exact absurd hblank (by simp [isBlank_of_mem_number hnumber hc])
      · rw [boolean?_eq_none_iff_notMem]
        intro b hb
        exact absurd hblank (by simp [isBlank_of_mem_boolean hb hc])
      · obtain ⟨-, hname, -⟩ := atom?_eq_symbol_iff.1 hsymbol
        exact absurd hblank (by simp [(isName_iff.1 hname).2.1 _ hc])
  | minus hw hne hrest hnumber =>
      have hboolean : boolean? w = none := boolean?_of_head? (by rw [hw]; rfl) (.inr rfl)
      refine atom?_eq_none_of hnumber hboolean fun hsymbol => ?_
      have hshape : hasNumberShape w = true :=
        hasNumberShape_iff.2 (numberShaped_iff.2 ⟨_, _, hw, .inr rfl, hrest⟩)
      obtain ⟨-, -, -, hminus⟩ := atom?_eq_symbol_iff.1 hsymbol
      simp [hne, hshape] at hminus

/-- **Words that stand for nothing.** -/
lemma atom?_eq_none_iff {w : String} : atom? w = none ↔ Malformed w :=
  ⟨malformed_of_atom?, Malformed.atom?_eq_none⟩

/-- **Words that stand for themselves** are all the others. -/
lemma atom?_eq_symbol_iff_not {w : String} : atom? w = some (.symbol w)
    ↔ w.toList ∉ number.matches' ∧ (∀ b, w.toList ∉ (boolean b).matches') ∧ ¬ Malformed w := by
  constructor
  · intro h
    refine ⟨fun hnumber => ?_, fun b hb => ?_, fun hmalformed => ?_⟩
    · obtain ⟨x, hx⟩ := exists_atom?_eq_number_iff.2 hnumber
      rw [hx] at h
      cases h
    · rw [atom?_eq_boolean_iff.2 hb] at h
      cases h
    · rw [hmalformed.atom?_eq_none] at h
      cases h
  · rintro ⟨hnumber, hboolean, hmalformed⟩
    by_contra hsymbol
    have hnone := boolean?_eq_none_iff_notMem.2 hboolean
    exact hmalformed (malformed_of_atom? (atom?_eq_none_of hnumber hnone hsymbol))

end Word

/-- **The grammar of words**: a word stands for a number exactly if it matches the expression of
numbers, and then for the number that it is read as. It stands for a boolean exactly if it
spells that boolean in some case of letters, and for nothing exactly if it is malformed. Every
other word is a name and stands for itself. -/
theorem word_follows_grammar (w : String) :
    ((∃ x, Word.atom? w = some (.number x)) ↔ w.toList ∈ Word.number.matches')
    ∧ (∀ x, Word.atom? w = some (.number x)
      ↔ w.toList ∈ Word.number.matches' ∧ Number.read? w = some x)
    ∧ (∀ b, Word.atom? w = some (.boolean b) ↔ w.toList ∈ (Word.boolean b).matches')
    ∧ (Word.atom? w = none ↔ Word.Malformed w)
    ∧ (Word.atom? w = some (.symbol w) ↔ w.toList ∉ Word.number.matches'
      ∧ (∀ b, w.toList ∉ (Word.boolean b).matches') ∧ ¬ Word.Malformed w) :=
  ⟨Word.exists_atom?_eq_number_iff, fun _ => Word.atom?_eq_number_iff,
    fun _ => Word.atom?_eq_boolean_iff, Word.atom?_eq_none_iff, Word.atom?_eq_symbol_iff_not⟩

end SketchLisp

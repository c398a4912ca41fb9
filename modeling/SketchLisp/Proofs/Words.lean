import SketchLisp.Proofs.NumberText
import SketchLisp.Proofs.Scanning
import SketchLisp.Word

/-!
Words and atoms: what a word can stand for, and that atoms read back.

A name, a boolean and a finite number are each written as a plain word that
stands for them again. Infinity is not: it is written as a name.

* `Word.atom?_cases`: a word stands for itself as a name, a boolean or a number;
* `Word.atom?_number_text`: the text of a finite number stands for it;
* `Word.Spells`: a plain word that stands for an atom, with
  `Word.Spells.text` for the written form of the atom.
-/

namespace SketchLisp

/-- A digit or a minus, then digits with at most one point and at most one `e` among them. -/
def NumberShaped (cs : List Char) : Prop :=
  ∃ c rest, cs = c :: rest ∧ (c.isDigit ∨ c = '-')
    ∧ (∀ d ∈ rest, d.isDigit ∨ d = '.' ∨ d = 'e') ∧ rest.count '.' ≤ 1 ∧ rest.count 'e' ≤ 1

namespace Word

/-- A word stands for itself as a name, for the boolean that it spells, or for the number that
it looks like and is read as. A name belongs to the language, or it looks like neither of the
others. -/
lemma atom?_cases {w : String} {a : Atom} (h : atom? w = some a) :
    (a = .symbol w ∧ ((Vocabulary.isReserved w || Vocabulary.isSpecialCharacter w) = true
        ∨ isName w = true ∧ boolean? w = none ∧ hasNumberShape w = false))
      ∨ (∃ b, a = .boolean b ∧ boolean? w = some b)
      ∨ ∃ x, a = .number x ∧ hasNumberShape w = true ∧ Number.read? w = some x := by
  rw [atom?] at h
  split at h
  · simp at h
  split at h
  · next hvocabulary => exact .inl ⟨(Option.some.inj h).symm, .inl hvocabulary⟩
  split at h
  · next b hb => exact .inr (.inl ⟨b, (Option.some.inj h).symm, hb⟩)
  next hboolean =>
    split at h
    · next hshape =>
        obtain ⟨x, hread, hx⟩ := Option.map_eq_some_iff.1 h
        exact .inr (.inr ⟨x, hx.symm, hshape, hread⟩)
    next hshape =>
      split at h
      · next hname =>
          exact .inl ⟨(Option.some.inj h).symm, .inr ⟨hname, hboolean, by simpa using hshape⟩⟩
      · simp at h

/-! ### Words that look like numbers -/

/-- A point or an `e` that was seen counts like one that is still to come. -/
lemma continuesNumber_iff {seenPoint seenExponent : Bool} {cs : List Char} :
    continuesNumber seenPoint seenExponent cs = true
      ↔ (∀ d ∈ cs, d.isDigit ∨ d = '.' ∨ d = 'e')
        ∧ seenPoint.toNat + cs.count '.' ≤ 1 ∧ seenExponent.toNat + cs.count 'e' ≤ 1 := by
  fun_induction continuesNumber seenPoint seenExponent cs with
  | case1 seenPoint seenExponent => simp [Bool.toNat_le]
  | case2 seenPoint seenExponent c rest hdigit ih =>
      have hpoint : c ≠ '.' := by rintro rfl; exact absurd hdigit (by decide)
      have hexponent : c ≠ 'e' := by rintro rfl; exact absurd hdigit (by decide)
      rw [ih, List.count_cons_of_ne hpoint, List.count_cons_of_ne hexponent]
      simp [hdigit]
  | case3 seenPoint seenExponent c rest hdigit hpoint ih =>
      obtain ⟨rfl, rfl⟩ : c = '.' ∧ seenPoint = false := by simpa using hpoint
      rw [ih, List.count_cons_self, List.count_cons_of_ne (by decide)]
      simp
  | case4 seenPoint seenExponent c rest hdigit hpoint hexponent ih =>
      obtain ⟨rfl, rfl⟩ : c = 'e' ∧ seenExponent = false := by simpa using hexponent
      rw [ih, List.count_cons_self, List.count_cons_of_ne (by decide)]
      simp
  | case5 seenPoint seenExponent c rest hdigit hpoint hexponent =>
      refine iff_of_false (by simp) ?_
      rintro ⟨hchars, hpoints, hexponents⟩
      rcases hchars c (by simp) with hc | rfl | rfl
      · exact hdigit hc
      · cases seenPoint <;> simp_all
      · cases seenExponent <;> simp_all

/-- **The shape of numbers, by counting**: each point and each `e` is met once by the scan,
which refuses a second one. -/
lemma hasNumberShape_iff {w : String} : hasNumberShape w = true ↔ NumberShaped w.toList := by
  rw [hasNumberShape, NumberShaped]
  cases w.toList with
  | nil => simp
  | cons c rest => simp [continuesNumber_iff]

/-! ### Words that start as numbers do -/

/-- Whether a word starts with a digit, or with a minus and a digit. -/
def startsAsNumber (w : String) : Bool :=
  match w.toList with
  | c :: rest => c.isDigit || (c == '-' && (rest.head?.any Char.isDigit))
  | [] => false

/-- No name of the language starts as a number does. -/
lemma isReserved_of_startsAsNumber {w : String} (h : startsAsNumber w) :
    Vocabulary.isReserved w = false := by
  have hreserved : ∀ s ∈ Vocabulary.keywords ++ Vocabulary.arithmeticOperators
      ++ Vocabulary.procedureNames ++ [Vocabulary.pi], startsAsNumber s = false := by decide
  rw [← Bool.not_eq_true]
  intro hw
  exact absurd h (by simp [hreserved w (Vocabulary.isReserved_iff_mem.1 hw)])

lemma isSpecialCharacter_of_startsAsNumber {w : String} (h : startsAsNumber w) :
    Vocabulary.isSpecialCharacter w = false := by
  have hspecial : ∀ s ∈ Vocabulary.specialCharacters, startsAsNumber s = false := by decide
  rw [← Bool.not_eq_true]
  intro hw
  exact absurd h (by simp [hspecial w (by simpa [Vocabulary.isSpecialCharacter] using hw)])

/-- A digit is no capital letter. -/
lemma toLower_of_isDigit {c : Char} (h : c.isDigit) : c.toLower = c := by
  have hle : c.val ≤ '9'.val := by
    rw [Char.isDigit, Bool.and_eq_true, decide_eq_true_eq, decide_eq_true_eq] at h
    exact h.2
  rw [Char.toLower, dif_neg]
  rintro ⟨hge, -⟩
  exact absurd (UInt32.le_trans hge hle) (by decide)

/-- No boolean starts with a digit or a minus. -/
lemma boolean?_of_head? {w : String} {c : Char} (hw : w.toList.head? = some c)
    (hc : c.isDigit ∨ c = '-') : boolean? w = none := by
  have hlower : c.toLower = c := by
    rcases hc with hc | rfl
    · exact toLower_of_isDigit hc
    · rfl
  have hne : c ≠ 't' ∧ c ≠ 'f' := by
    rcases hc with hc | rfl
    · constructor <;> rintro rfl <;> exact absurd hc (by decide)
    · decide
  obtain ⟨rest, hrest⟩ := List.head?_eq_some_iff.1 hw
  simp [boolean?, hrest, hlower, hne.1, hne.2]

/-- A word that starts as a number does is no boolean. -/
lemma boolean?_of_startsAsNumber {w : String} (h : startsAsNumber w) : boolean? w = none := by
  rw [startsAsNumber] at h
  cases hw : w.toList with
  | nil => rw [hw] at h; simp at h
  | cons c rest =>
      simp only [hw, Bool.or_eq_true, Bool.and_eq_true, beq_iff_eq] at h
      exact boolean?_of_head? (by rw [hw]; rfl) (h.imp_right And.left)

/-! ### Numbers -/

/-- What is not a digit does not occur among digits. -/
lemma count_eq_zero_of_isDigit {cs : List Char} (h : ∀ c ∈ cs, c.isDigit) {d : Char}
    (hd : d.isDigit = false) : cs.count d = 0 := by
  refine List.count_eq_zero.2 fun hmem => ?_
  rw [h d hmem] at hd
  exact absurd hd (by simp)

lemma count_point_chars (p : PlainDigits) : p.chars.count '.' ≤ 1 := by
  have hwhole := count_eq_zero_of_isDigit p.whole_isDigit (d := '.') (by decide)
  have hfraction := count_eq_zero_of_isDigit p.fraction_isDigit (d := '.') (by decide)
  rw [PlainDigits.chars]
  split
  · omega
  · rw [List.count_append, List.count_cons_self]
    omega

lemma count_exponent_chars (p : PlainDigits) : p.chars.count 'e' = 0 := by
  refine List.count_eq_zero.2 fun h => ?_
  exact (PlainDigits.mem_chars h).elim (by decide) (by decide)

/-- Plain digits look like a number, behind a minus or alone. -/
lemma hasNumberShape_of_chars {w : String} {p : PlainDigits} {negative : Bool}
    (hw : w.toList = if negative then '-' :: p.chars else p.chars) : hasNumberShape w := by
  -- the tail of the word is part of the digits
  obtain ⟨c, rest, hcons, hc, hrest⟩ : ∃ c rest, w.toList = c :: rest
      ∧ (c.isDigit ∨ c = '-') ∧ rest.Sublist p.chars := by
    cases negative with
    | true => exact ⟨'-', p.chars, hw, .inr rfl, List.Sublist.refl _⟩
    | false =>
        obtain ⟨c, cs, hcs, hc⟩ := p.exists_chars_eq_cons
        refine ⟨c, cs, hw.trans hcs, .inl hc, ?_⟩
        rw [hcs]
        exact List.sublist_cons_self c cs
  have hall : ∀ d ∈ rest, d.isDigit ∨ d = '.' := fun d hd =>
    PlainDigits.mem_chars (hrest.subset hd)
  have hpoint := (hrest.count_le '.').trans (count_point_chars p)
  have hexponent := (hrest.count_le 'e').trans_eq (count_exponent_chars p)
  refine hasNumberShape_iff.2 ⟨c, rest, hcons, hc, fun d hd => ?_, hpoint, by omega⟩
  exact (hall d hd).imp_right .inl

lemma startsAsNumber_of_chars {w : String} {p : PlainDigits} {negative : Bool}
    (hw : w.toList = if negative then '-' :: p.chars else p.chars) : startsAsNumber w := by
  obtain ⟨c, cs, hcs, hc⟩ := p.exists_chars_eq_cons
  cases negative <;> simp [startsAsNumber, hw, hcs, hc]

/-- The text of a finite number stands for it. -/
lemma atom?_number_text {x : Float} (hx : x.isFinite) :
    atom? (Number.text x) = some (.number x) := by
  obtain ⟨p, hchars, -⟩ := Number.exists_text_eq hx
  have hstart := startsAsNumber_of_chars hchars
  have hbracket : (Number.text x = "(" || Number.text x = ")") = false := by
    rw [Bool.or_eq_false_iff, decide_eq_false_iff_not, decide_eq_false_iff_not]
    constructor <;> intro h <;> rw [h] at hstart <;> exact absurd hstart (by decide)
  rw [atom?, hbracket, isReserved_of_startsAsNumber hstart,
    isSpecialCharacter_of_startsAsNumber hstart, boolean?_of_startsAsNumber hstart,
    hasNumberShape_of_chars hchars, Number.read?_text hx]
  rfl

/-! ### Written atoms -/

/-- A plain word that stands for an atom. -/
structure Spells (w : String) (a : Atom) : Prop where
  plain : Token.PlainWord w
  atom : atom? w = some a

lemma role_of_isDigit {c : Char} (h : c.isDigit) : Token.role c = .letter := by
  rw [Token.role_eq_letter_iff]
  refine ⟨?_, ?_, ?_, ?_, ?_, ?_⟩ <;> rintro rfl <;> exact absurd h (by decide)

/-- The text of a finite number is a plain word. -/
lemma plainWord_number_text {x : Float} (hx : x.isFinite) : Token.PlainWord (Number.text x) := by
  obtain ⟨p, hchars, -⟩ := Number.exists_text_eq hx
  have hletter : ∀ c ∈ p.chars, Token.role c = .letter := by
    intro c hc
    rcases PlainDigits.mem_chars hc with h | rfl
    · exact role_of_isDigit h
    · rfl
  obtain ⟨c, cs, hcs, -⟩ := p.exists_chars_eq_cons
  rw [Token.PlainWord, hchars]
  split
  · refine ⟨by simp, fun d hd => ?_⟩
    rcases List.mem_cons.1 hd with rfl | hd
    · rfl
    · exact hletter d hd
  · exact ⟨by simp [hcs], hletter⟩

lemma spells_boolean_text (b : Bool) : Spells (Atom.boolean b).text (.boolean b) := by
  refine ⟨⟨?_, ?_⟩, ?_⟩
  · cases b <;> simp [Atom.text]
  · cases b <;> simp [Atom.text, Token.role, Token.isLineBreak]
  · cases b <;> rfl

/-- **Atoms read back**: if an atom has a plain word at all and is not an infinite
number, its written form is one. -/
lemma Spells.text {w : String} {a : Atom} (h : Spells w a)
    (hfinite : ∀ x, a = .number x → x.isFinite) : Spells a.text a := by
  rcases atom?_cases h.atom with ⟨rfl, -⟩ | ⟨b, rfl, -⟩ | ⟨x, rfl, -⟩
  · exact h
  · exact spells_boolean_text b
  · have hx := hfinite x rfl
    exact ⟨plainWord_number_text hx, atom?_number_text hx⟩

end Word

end SketchLisp

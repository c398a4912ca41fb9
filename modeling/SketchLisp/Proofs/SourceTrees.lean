import SketchLisp.Proofs.StandardNames
import SketchLisp.Proofs.WrittenForm

/-!
Which expressions can be written.

Not every expression can be read from a text: the heads of one that can be are booleans,
numbers and names that look like neither, and all of these can be written, infinite numbers
and unusual names included.

* `SourceName`, `Atom.IsSource`: names and atoms as they stand in a text;
* `Word.atom?_eq_symbol_iff`: the words that stand for themselves;
* `Word.exists_spells_iff`: an atom has a plain word exactly if it is such an atom;
* `Token.kinds_spaced`: tokens can be written with blanks behind them;
* `exists_parse_iff_isSource`: an expression can be read from some text exactly if all its
  heads are such atoms.
-/

namespace SketchLisp

/-! ### Names and atoms of a text -/

/-- A name as it can stand in a text. -/
structure SourceName (s : String) : Prop where
  ne_empty : s ≠ ""
  no_blank : ∀ c ∈ s.toList, Text.isBlank c = false
  no_mark : ∀ c ∈ s.toList, c ≠ '(' ∧ c ≠ ')' ∧ c ≠ ';'
  no_leading_digit : ∀ c, s.toList.head? = some c → c.isDigit = false
  no_boolean : s.toList.map Char.toLower ≠ "true".toList
    ∧ s.toList.map Char.toLower ≠ "false".toList
  no_number : s = "-" ∨ ¬ NumberShaped s.toList

/-- An atom as it can stand in a text. -/
def Atom.IsSource : Atom → Prop
  | boolean _ => True
  | number x => x.isNaN = false
  | symbol s => SourceName s
  | nothing | point _ | line _ | arc _ => False

namespace Word

/-! ### Names -/

lemma boolean?_eq_none_iff {w : String} : boolean? w = none ↔
    w.toList.map Char.toLower ≠ "true".toList ∧ w.toList.map Char.toLower ≠ "false".toList := by
  have htrueText : "true".toList = ['t', 'r', 'u', 'e'] := by simp
  have hfalseText : "false".toList = ['f', 'a', 'l', 's', 'e'] := by simp
  rw [boolean?, htrueText, hfalseText]
  split_ifs with htrue hfalse
  · exact iff_of_false (by simp) fun h => h.1 htrue
  · exact iff_of_false (by simp) fun h => h.2 hfalse
  · exact iff_of_true rfl ⟨htrue, hfalse⟩

lemma isName_iff {w : String} : isName w = true ↔ w ≠ ""
    ∧ (∀ c ∈ w.toList, Text.isBlank c = false)
    ∧ ∀ c, w.toList.head? = some c → c.isDigit = false := by
  rw [isName, ← String.toList_inj.ne]
  cases w.toList with
  | nil => simp
  | cons c rest => simp [and_comm]

/-- The names of the language and the special characters are names as programs have them,
except that a minus alone looks like a number. -/
lemma isName_of_vocabulary {w : String}
    (h : (Vocabulary.isReserved w || Vocabulary.isSpecialCharacter w) = true) :
    isName w = true ∧ boolean? w = none ∧ (w = "-" ∨ hasNumberShape w = false) := by
  rcases Bool.or_eq_true_iff.1 h with h | h
  · have hall : ∀ s ∈ Vocabulary.keywords ++ Vocabulary.arithmeticOperators
          ++ Vocabulary.procedureNames ++ [Vocabulary.pi],
        isName s = true ∧ boolean? s = none ∧ (s = "-" ∨ hasNumberShape s = false) := by decide
    exact hall w (Vocabulary.isReserved_iff_mem.1 h)
  · have hall : ∀ s ∈ Vocabulary.specialCharacters,
        isName s = true ∧ boolean? s = none ∧ (s = "-" ∨ hasNumberShape s = false) := by decide
    exact hall w (by simpa [Vocabulary.isSpecialCharacter] using h)

/-- **The words that stand for themselves.** -/
lemma atom?_eq_symbol_iff {w : String} : atom? w = some (.symbol w) ↔ (w ≠ "(" ∧ w ≠ ")")
    ∧ isName w = true ∧ boolean? w = none ∧ (w = "-" ∨ hasNumberShape w = false) := by
  constructor
  · intro h
    refine ⟨⟨?_, ?_⟩, ?_⟩
    · rintro rfl
      simp [atom?] at h
    · rintro rfl
      simp [atom?] at h
    · rcases atom?_cases h with ⟨-, hvocabulary | hname⟩ | ⟨b, hb, -⟩ | ⟨x, hx, -⟩
      · exact isName_of_vocabulary hvocabulary
      · exact ⟨hname.1, hname.2.1, .inr hname.2.2⟩
      · cases hb
      · cases hx
  · rintro ⟨hbracket, hname, hboolean, rfl | hshape⟩
    · rfl
    · rw [atom?, if_neg (by simpa using hbracket), hboolean, hshape, hname]
      simp

end Word

namespace SourceName

/-- No character of a name ends a word or starts a comment. -/
lemma plainWord {s : String} (h : SourceName s) : Token.PlainWord s := by
  refine ⟨by simpa using h.ne_empty, fun c hc => ?_⟩
  have hblank : ∀ d : Char, Text.isBlank d = true → c ≠ d := by
    rintro d hd rfl
    exact absurd (h.no_blank c hc) (by simp [hd])
  exact Token.role_eq_letter_iff.2 ⟨hblank '\n' (by decide), hblank '\r' (by decide),
    hblank ' ' (by decide), h.no_mark c hc⟩

end SourceName

namespace Word

/-- Names are the words that stand for themselves, if no character ends them. -/
lemma spells_symbol_iff {s : String} : Spells s (.symbol s) ↔ SourceName s := by
  constructor
  · rintro ⟨hplain, hatom⟩
    obtain ⟨-, hname, hboolean, hnumber⟩ := atom?_eq_symbol_iff.1 hatom
    obtain ⟨hne, hblank, hdigit⟩ := isName_iff.1 hname
    refine ⟨hne, hblank, fun c hc => ?_, hdigit, boolean?_eq_none_iff.1 hboolean, ?_⟩
    · obtain ⟨-, -, -, hmark⟩ := Token.role_eq_letter_iff.1 (hplain.2 c hc)
      exact hmark
    · rwa [← hasNumberShape_iff, Bool.not_eq_true]
  · intro h
    refine ⟨h.plainWord, atom?_eq_symbol_iff.2 ⟨⟨?_, ?_⟩, ?_, ?_, ?_⟩⟩
    · rintro rfl
      exact (h.no_mark '(' (by simp)).1 rfl
    · rintro rfl
      exact (h.no_mark ')' (by simp)).2.1 rfl
    · exact isName_iff.2 ⟨h.ne_empty, h.no_blank, h.no_leading_digit⟩
    · exact boolean?_eq_none_iff.2 h.no_boolean
    · rw [← Bool.not_eq_true, hasNumberShape_iff]
      exact h.no_number

end Word

/-! ### Numbers -/

/-- Rounding gives at most infinity. -/
lemma Decimal.nearest_le_infinity (d : Decimal) : d.nearest ≤ Binary64.infinity := by
  rw [nearest]
  split_ifs
  · exact Nat.zero_le _
  · exact le_rfl
  · exact Nat.zero_le _
  · rw [Binary64.nearest]
    split_ifs
    · exact Nat.zero_le _
    · exact min_le_right _ _

/-- What is read as a number is a number, though it may be infinite. -/
lemma Number.isNaN_of_read? {text : String} {x : Float} (h : read? text = some x) :
    x.isNaN = false := by
  obtain ⟨n, -, rfl⟩ := Option.map_eq_some_iff.1 h
  rw [← Bool.not_eq_true, Binary64.isNaN_iff, Numeral.toFloat,
    Binary64.magnitude_ofMagnitude n.decimal.nearest_le_infinity, not_lt]
  exact n.decimal.nearest_le_infinity

namespace Word

/-- A word whose number is too large stands for infinity. -/
lemma exists_spells_infinity (negative : Bool) :
    ∃ w, Spells w (.number (Binary64.ofMagnitude negative Binary64.infinity)) := by
  cases negative with
  | false => exact ⟨"1e999", ⟨by simp, by simp [Token.role_eq_letter_iff]⟩, rfl⟩
  | true => exact ⟨"-1e999", ⟨by simp, by simp [Token.role_eq_letter_iff]⟩, rfl⟩

lemma exists_spells_number {x : Float} (hx : x.isNaN = false) : ∃ w, Spells w (.number x) := by
  by_cases hfinite : x.isFinite
  · exact ⟨_, plainWord_number_text hfinite, atom?_number_text hfinite⟩
  -- what is neither finite nor NaN has the magnitude of infinity
  · have hle : Binary64.magnitude x ≤ Binary64.infinity := by
      rwa [← not_lt, ← Binary64.isNaN_iff, Bool.not_eq_true]
    have hge : Binary64.infinity ≤ Binary64.magnitude x := by
      rwa [← not_lt, ← Binary64.isFinite_iff]
    obtain ⟨w, hw⟩ := exists_spells_infinity (Binary64.isNegative x)
    rw [← hle.antisymm hge, Binary64.ofMagnitude_magnitude] at hw
    exact ⟨w, hw⟩

/-- **The atoms that words can spell.** -/
lemma exists_spells_iff {a : Atom} : (∃ w, Spells w a) ↔ a.IsSource := by
  constructor
  · rintro ⟨w, hw⟩
    rcases atom?_cases hw.atom with ⟨rfl, -⟩ | ⟨b, rfl, -⟩ | ⟨x, rfl, -, hread⟩
    · exact spells_symbol_iff.1 hw
    · trivial
    · exact Number.isNaN_of_read? hread
  · intro h
    cases a with
    | boolean b => exact ⟨_, spells_boolean_text b⟩
    | number x => exact exists_spells_number h
    | symbol s => exact ⟨s, spells_symbol_iff.2 h⟩
    | nothing => exact h.elim
    | point _ => exact h.elim
    | line _ => exact h.elim
    | arc _ => exact h.elim

end Word

/-! ### Tokens with blanks behind them -/

namespace Token

/-- Tokens written with a blank behind each. -/
def spaced (ks : List Kind) : List Char := ks.flatMap fun k => k.text.toList ++ [' ']

/-- Whether tokens are brackets and plain words. -/
def AllPlain (ks : List Kind) : Prop := ∀ w, .word w ∈ ks → PlainWord w

lemma kinds_text {k : Kind} (h : AllPlain [k]) :
    EndsOutside k.text.toList ∧ kinds k.text.toList = [k] := by
  cases k with
  | opening => exact ⟨endsOutside_of_role (by simp [Kind.text, role, isLineBreak]), rfl⟩
  | closing => exact ⟨endsOutside_of_role (by simp [Kind.text, role, isLineBreak]), rfl⟩
  | word w =>
      have hw := h w (by simp)
      exact ⟨(CommentFree.of_plainWord hw).endsOutside, kinds_of_plainWord hw⟩

/-- The blanks keep the tokens apart. -/
lemma kinds_spaced {ks : List Kind} (h : AllPlain ks) : kinds (spaced ks) = ks := by
  induction ks with
  | nil => rfl
  | cons k ks ih =>
      obtain ⟨houtside, hkind⟩ := kinds_text (k := k) fun w hw => h w (by simp_all)
      have hchars : spaced (k :: ks) = k.text.toList ++ ' ' :: spaced ks := by simp [spaced]
      rw [hchars, kinds_append_blank houtside, hkind, ih fun w hw => h w (by simp [hw])]
      rfl

end Token

/-! ### Trees -/

namespace Expr

/-- Operands can be derived from plain words one after another if each of them can. -/
lemma exists_derivesEach {es : List Expr}
    (h : ∀ e ∈ es, ∃ ks, Derives ks e ∧ Token.AllPlain ks) :
    ∃ ks, DerivesEach ks es ∧ Token.AllPlain ks := by
  induction es with
  | nil => exact ⟨[], .nil, by simp [Token.AllPlain]⟩
  | cons e es ih =>
      obtain ⟨ks, hks, hplain⟩ := h e (by simp)
      obtain ⟨ls, hls, hplains⟩ := ih fun f hf => h f (by simp [hf])
      exact ⟨ks ++ ls, .cons hks hls, fun w hw =>
        (List.mem_append.1 hw).elim (hplain w) (hplains w)⟩

/-- An expression can be derived from plain words if each head has one. -/
lemma exists_derives (e : Expr) : (∀ n ∈ e.nodes, ∃ w, Word.Spells w n.head) →
    ∃ ks, Derives ks e ∧ Token.AllPlain ks := by
  induction e using Expr.ind with
  | step a es ih =>
      intro h
      obtain ⟨v, hv⟩ : ∃ v, Word.Spells v a := h _ (mem_nodes_self _)
      obtain ⟨ks, hks, hplain⟩ := exists_derivesEach fun e he =>
        ih e he fun n hn => h n (mem_nodes_of_operand he hn)
      -- brackets also around a head without operands, which is the same as the head alone
      refine ⟨_, .group hv.atom hks, fun w hw => ?_⟩
      simp only [List.mem_cons, List.mem_append, List.not_mem_nil, reduceCtorEq, false_or,
        or_false, Token.Kind.word.injEq] at hw
      rcases hw with rfl | hw
      · exact hv.plain
      · exact hplain w hw

end Expr

/-- **The expressions that can be written** are those whose heads are booleans, numbers and
names as they stand in a text. -/
theorem exists_parse_iff_isSource (e : Expr) :
    (∃ text, Expr.parse text = .ok e) ↔ ∀ n ∈ e.nodes, n.head.IsSource := by
  constructor
  · rintro ⟨text, h⟩ n hn
    exact Word.exists_spells_iff.1 (Expr.exists_spells h hn)
  · intro h
    obtain ⟨ks, hks, hplain⟩ := e.exists_derives fun n hn => Word.exists_spells_iff.2 (h n hn)
    refine ⟨String.ofList (Token.spaced ks), Reading.program_eq_ok_iff.2 ?_⟩
    rwa [Token.map_kind_scan, String.toList_ofList, Token.kinds_spaced hplain]

end SketchLisp

import SketchLisp.Proofs.NumberText
import SketchLisp.ResultLine

/-!
Result lines tell values apart.

A result line is made of brackets, commas, numbers and the words `True` and `False`. Since
numbers are written without brackets and commas, the line can be cut behind each of these
marks in one way only, and the pieces tell which atom is shown.

* `Piece`: a text without marks, and the mark behind it;
* `Piece.flatMap_chars_injective`: a text is cut into pieces in one way;
* `Atom.pieces`: the pieces of the line of an atom, and `Atom.eq_of_pieces_eq` for the atom
  that they tell;
* `result_line_unambiguous`: values with the same result line have the same head.
-/

namespace SketchLisp

/-! ### Pieces -/

/-- What stands between numbers. -/
inductive Mark where
  | opening
  | closing
  | comma

namespace Mark

/-- The character of a mark. -/
def char : Mark → Char
  | opening => '('
  | closing => ')'
  | comma => ','

lemma char_injective : Function.Injective char := by
  intro m n h
  cases m <;> cases n <;> simp_all [char]

end Mark

/-- Whether a character is a mark. -/
def isMark (c : Char) : Bool := c == '(' || c == ')' || c == ','

lemma Mark.isMark_char (m : Mark) : isMark m.char = true := by
  cases m <;> rfl

/-- A text without marks, and the mark behind it. -/
structure Piece where
  body : List Char
  mark : Mark
  plain : ∀ c ∈ body, isMark c = false

namespace Piece

/-- The characters of a piece. -/
def chars (p : Piece) : List Char := p.body ++ [p.mark.char]

lemma takeWhile_chars (p : Piece) (rest : List Char) :
    (p.chars ++ rest).takeWhile (fun c => !isMark c) = p.body := by
  rw [chars, List.append_assoc, List.takeWhile_append_of_pos (by simpa using p.plain)]
  simp [p.mark.isMark_char]

lemma dropWhile_chars (p : Piece) (rest : List Char) :
    (p.chars ++ rest).dropWhile (fun c => !isMark c) = p.mark.char :: rest := by
  rw [chars, List.append_assoc, List.dropWhile_append_of_pos (by simpa using p.plain)]
  simp [p.mark.isMark_char]

/-- The first piece of a text ends with its first mark. -/
lemma append_inj {p q : Piece} {cs ds : List Char} (h : p.chars ++ cs = q.chars ++ ds) :
    p = q ∧ cs = ds := by
  have hbody : p.body = q.body := by rw [← p.takeWhile_chars cs, h, q.takeWhile_chars]
  have hrest : p.mark.char :: cs = q.mark.char :: ds := by
    rw [← p.dropWhile_chars cs, h, q.dropWhile_chars]
  obtain ⟨hchar, hcs⟩ := List.cons.inj hrest
  have hmark := Mark.char_injective hchar
  cases p
  cases q
  simp_all

/-- **A text is cut into pieces in one way.** -/
lemma flatMap_chars_injective : Function.Injective (List.flatMap chars) := by
  intro ps qs h
  induction ps generalizing qs with
  | nil =>
      cases qs with
      | nil => rfl
      | cons q qs => simp [chars] at h
  | cons p ps ih =>
      cases qs with
      | nil => simp [chars] at h
      | cons q qs =>
          rw [List.flatMap_cons, List.flatMap_cons] at h
          obtain ⟨rfl, hrest⟩ := append_inj h
          rw [ih hrest]

/-- A mark with nothing before it. -/
def bare (m : Mark) : Piece := ⟨[], m, by simp⟩

/-- A truth value before a bracket. -/
def truth (b : Bool) : Piece where
  body := (Atom.boolean b).text.toList
  mark := .closing
  plain := by cases b <;> simp [Atom.text, isMark]

/-- Numbers are written without marks. -/
lemma isMark_of_mem_text {x : Float} {c : Char} (h : c ∈ (Number.text x).toList) :
    isMark c = false := by
  rw [Bool.eq_false_iff]
  intro hmark
  have hcases : c = '(' ∨ c = ')' ∨ c = ',' := by simpa [isMark, or_assoc] using hmark
  rcases hcases with rfl | rfl | rfl <;> exact absurd (Number.mem_text h) (by decide)

/-- A number before a mark. -/
def number (x : Float) (m : Mark) : Piece :=
  ⟨(Number.text x).toList, m, fun _ => isMark_of_mem_text⟩

@[simp] lemma truth_inj {b c : Bool} : truth b = truth c ↔ b = c := by
  refine ⟨fun heq => ?_, fun hbc => by rw [hbc]⟩
  injection heq with hbody
  revert hbody
  cases b <;> cases c <;> simp [Atom.text]

@[simp] lemma number_inj {x y : Float} {m : Mark} : number x m = number y m ↔ x = y := by
  refine ⟨fun heq => ?_, fun hxy => by rw [hxy]⟩
  injection heq with hbody
  exact Number.text_injective (String.toList_injective hbody)

/-- No number is written as a truth value. -/
@[simp] lemma number_ne_truth (x : Float) (m : Mark) (b : Bool) : number x m ≠ truth b := by
  intro heq
  injection heq with hbody
  have hmem : 'e' ∈ (Number.text x).toList := by
    rw [hbody]
    cases b <;> simp [Atom.text]
  exact absurd (Number.mem_text hmem) (by decide)

end Piece

/-! ### Atoms -/

open Piece

/-- The pieces of a point as it is written. -/
def Point.pieces (p : Point) : List Piece :=
  [bare .opening, number p.x .comma, number p.y .closing]

/-- The pieces of the line that shows an atom. -/
def Atom.pieces : Atom → List Piece
  | .nothing | .symbol _ => []
  | .boolean b => [bare .opening, truth b]
  | .number x => [bare .opening, Piece.number x .closing]
  | .point p => p.pieces
  | .line l => bare .opening :: (l.first.pieces ++ l.second.pieces ++ [bare .closing])
  | .arc a => bare .opening :: (a.center.pieces ++ a.start.pieces
      ++ [bare .opening, Piece.number a.span .closing, bare .closing])

lemma Point.toList_text (p : Point) : p.text.toList = p.pieces.flatMap chars := by
  simp [Point.text, Point.pieces, chars, bare, Piece.number, Mark.char]

/-- The line of a value consists of the pieces of its head. -/
lemma Expr.toList_resultLine {e : Expr} {line : String} (h : e.resultLine? = some line) :
    line.toList = e.head.pieces.flatMap chars := by
  rw [resultLine?] at h
  cases ha : e.head with
  | nothing | symbol => simp [ha] at h
  | boolean | number | point | line | arc =>
      simp only [ha, Option.some.injEq] at h
      subst h
      simp [Atom.text, Line.text, Arc.text, Point.toList_text, Atom.pieces, chars, bare, truth,
        Piece.number, Mark.char]

@[simp] lemma Point.length_pieces (p : Point) : p.pieces.length = 3 := rfl

@[simp] lemma Point.pieces_inj {p q : Point} : p.pieces = q.pieces ↔ p = q := by
  cases p
  cases q
  simp [Point.pieces]

@[simp] lemma Point.pieces_append_inj {p q : Point} {ps qs : List Piece} :
    p.pieces ++ ps = q.pieces ++ qs ↔ p = q ∧ ps = qs := by
  constructor
  · intro h
    obtain ⟨hpieces, hrest⟩ := List.append_inj h (by simp)
    exact ⟨Point.pieces_inj.1 hpieces, hrest⟩
  · rintro ⟨rfl, rfl⟩
    rfl

/-- **The pieces of a line tell the atom** that is shown. -/
lemma Atom.eq_of_pieces_eq {a b : Atom} (ha : a.kind ∈ [.number, .boolean, .point, .line, .arc])
    (h : a.pieces = b.pieces) : a = b := by
  have hlength := congrArg List.length h
  -- but for truth values and numbers, the number of pieces tells the kind
  cases a with
  | nothing | symbol => simp [kind] at ha
  | boolean v =>
      cases b with
      | boolean w => simpa [pieces] using h
      | number x => exact absurd h.symm (by simp [pieces])
      | _ => simp [pieces] at hlength
  | number x =>
      cases b with
      | boolean w => exact absurd h (by simp [pieces])
      | number y => simpa [pieces] using h
      | _ => simp [pieces] at hlength
  | point p =>
      cases b with
      | point q => simpa [pieces] using h
      | _ => simp [pieces] at hlength
  | line l =>
      cases b with
      | line k =>
          have hpoints : l.first = k.first ∧ l.second = k.second := by simpa [pieces] using h
          cases l
          cases k
          simpa using hpoints
      | _ => simp [pieces] at hlength
  | arc c =>
      cases b with
      | arc d =>
          have hparts : c.center = d.center ∧ c.start = d.start ∧ c.span = d.span := by
            simpa [pieces] using h
          cases c
          cases d
          simpa using hparts
      | _ => simp [pieces] at hlength

/-- Only numbers, truth values and figures are shown. -/
lemma Expr.kind_of_resultLine {e : Expr} {line : String} (h : e.resultLine? = some line) :
    e.head.kind ∈ [.number, .boolean, .point, .line, .arc] := by
  rw [resultLine?] at h
  cases ha : e.head with
  | nothing | symbol => simp [ha] at h
  | boolean | number | point | line | arc => simp [Atom.kind]

/-- **Result lines are unambiguous**: what is shown is a number, a truth value, a point, a
line or an arc, and another value has the same result line exactly if its head is the same
atom. Atoms are the same down to the bits of their numbers, so that `-0` is not `0`; there
is only one double that is not a number. -/
theorem result_line_unambiguous {v : Expr} {line : String} (hv : v.resultLine? = some line) :
    v.head.kind ∈ [.number, .boolean, .point, .line, .arc]
    ∧ ∀ w : Expr, w.resultLine? = some line ↔ w.head = v.head := by
  refine ⟨Expr.kind_of_resultLine hv, fun w => ⟨fun hw => ?_, fun hhead => ?_⟩⟩
  · have hpieces : w.head.pieces = v.head.pieces := by
      apply flatMap_chars_injective
      rw [← Expr.toList_resultLine hw, Expr.toList_resultLine hv]
    exact Atom.eq_of_pieces_eq (Expr.kind_of_resultLine hw) hpieces
  · rw [← hv, Expr.resultLine?, Expr.resultLine?, hhead]

/-- A point with the coordinate `-0` is shown unlike one with the coordinate `0`; operands are
not shown. -/
theorem result_line_unambiguous_signed_zero :
    (Expr.leaf (.point ⟨-0, Float.nan⟩)).resultLine? = some "(-0,NaN)"
    ∧ (Expr.leaf (.point ⟨0, Float.nan⟩)).resultLine? ≠ some "(-0,NaN)"
    ∧ (Expr.node (.point ⟨-0, Float.nan⟩) [.leaf .nothing]).resultLine? = some "(-0,NaN)" := by
  have hline : (Expr.leaf (.point ⟨-0, Float.nan⟩)).resultLine? = some "(-0,NaN)" := by decide
  obtain ⟨-, hsame⟩ := result_line_unambiguous hline
  refine ⟨hline, fun hother => ?_, (hsame _).2 rfl⟩
  have hzero : (0 : Float) = -0 := by simpa using (hsame _).1 hother
  exact absurd hzero (by decide)

end SketchLisp

import SketchLisp.Expr
import SketchLisp.SyntaxError
import SketchLisp.Word

/-!
Reading expressions off tokens, by recursive descent.

An expression takes at least one token if there is one, so that reading ends:
what is left of the tokens carries that bound.

* `Reading.Taken`: what reading comes to, and the tokens that are left;
* `Reading.expression`: reads one expression and leaves the tokens after it;
* `Reading.program`: reads one expression that takes all tokens;
* `Expr.parse`: the expression that a text spells.
-/

namespace SketchLisp

namespace Reading

/-- What reading `tokens` comes to, and the tokens that are left. A wrong token is taken. -/
structure Taken (tokens : List Token) where
  result : Except SyntaxError Expr
  rest : List Token
  /-- At least one token is taken, if there is one. -/
  length_rest : rest.length ≤ tokens.length - 1

/-- The same outcome, seen from tokens further to the front. -/
def Taken.within {tokens more : List Token} (h : tokens.length ≤ more.length)
    (taken : Taken tokens) : Taken more :=
  { taken with length_rest := Nat.le_trans taken.length_rest (Nat.sub_le_sub_right h 1) }

/-- The atom of a word. -/
def atom (t : Token) (word : String) : Except SyntaxError Atom :=
  match Word.atom? word with
  | some a => .ok a
  | none => .error (.invalidToken t)

mutual

/-- Takes one expression. -/
def takeExpression : (tokens : List Token) → Taken tokens
  | [] => ⟨.error .noTokens, [], Nat.le_refl _⟩
  | t :: rest =>
    match t.kind with
    | .opening => (takeGroup t rest).within (by simp)
    | .closing => ⟨.error (.unexpectedClosing t), rest, Nat.le_refl _⟩
    | .word w => ⟨(atom t w).map .leaf, rest, Nat.le_refl _⟩
termination_by tokens => (tokens.length, 0)

/-- Takes the rest of a group whose opening bracket has been taken. -/
def takeGroup (opening : Token) : (tokens : List Token) → Taken tokens
  | [] => ⟨.error (.unmatchedOpening opening), [], Nat.le_refl _⟩
  | t :: rest =>
    match t.kind with
    | .closing => ⟨.error (.emptyExpression opening), rest, Nat.le_refl _⟩
    | .opening => ⟨.error (.invalidHead t), rest, Nat.le_refl _⟩
    | .word w =>
      match atom t w with
      | .error error => ⟨.error error, rest, Nat.le_refl _⟩
      | .ok head => (takeOperands opening head [] rest).within (by simp)
termination_by tokens => (tokens.length, 0)

/-- Takes operands of a group up to its closing bracket, behind those taken already, of which
`latest` holds the last one first. -/
def takeOperands (opening : Token) (head : Atom) (latest : List Expr) :
    (tokens : List Token) → Taken tokens
  | [] => ⟨.error (.unmatchedOpening opening), [], Nat.le_refl _⟩
  | t :: rest =>
    match t.kind with
    | .closing => ⟨.ok (.node head latest.reverse), rest, Nat.le_refl _⟩
    | _ =>
      match takeExpression (t :: rest) with
      | ⟨.error error, left, h⟩ => ⟨.error error, left, h⟩
      | ⟨.ok e, left, h⟩ =>
        (takeOperands opening head (e :: latest) left).within (Nat.le_trans h (Nat.sub_le _ 1))
termination_by tokens => (tokens.length, 1)
decreasing_by
  · exact Prod.Lex.right _ Nat.one_pos
  · exact Prod.Lex.left _ _ (Nat.lt_succ_of_le h)

end

/-- Reads one expression and leaves the tokens after it. -/
def expression (tokens : List Token) : Except SyntaxError Expr × List Token :=
  let taken := takeExpression tokens
  (taken.result, taken.rest)

/-- Reads one expression, after which no token may follow; one that does is
taken. -/
def program (tokens : List Token) : Except SyntaxError Expr × List Token :=
  match expression tokens with
  | (.ok _, t :: rest) => (.error (.excessTokens t), rest)
  | outcome => outcome

end Reading

/-- The expression that a text spells. -/
def Expr.parse (text : String) : Except SyntaxError Expr := (Reading.program (Token.scan text)).1

end SketchLisp

import Mathlib.Tactic.Common
import SketchLisp.Proofs.Scanning
import SketchLisp.Reading

/-!
Reading one token at a time.

The descent that reads an expression can also be run token by token: what has been read so far
is a `Reading`, that is nothing, a stack of groups that are still open, or a complete
expression, and each token moves it on or is an error. Proofs about reading are by induction on
the tokens for this form.

* `Reading.step`: what one token does, and `Reading.advance` for a run of tokens;
* `Reading.resume_takeExpression`, `Reading.resume_takeGroup`, `Reading.resume_takeOperands`:
  inside open groups, a run goes on with what the descent takes there;
* `Reading.expression_eq_advance`: the descent is the run from the start;
* `Expr.parse_of_advance`: for evaluating the reading of a text.
-/

namespace SketchLisp

/-- An open group: its bracket, its head, and its operands so far, the latest
first. -/
structure OpenGroup where
  opening : Token
  head : Atom
  latest : List Expr

namespace OpenGroup

/-- Adds an operand to a group. -/
def add (g : OpenGroup) (e : Expr) : OpenGroup := { g with latest := e :: g.latest }

/-- The expression that a group becomes when it is closed. -/
def close (g : OpenGroup) : Expr := .node g.head g.latest.reverse

end OpenGroup

/-- How far an expression has been read. -/
inductive Reading where
  /-- Nothing is read yet. -/
  | start
  /-- A bracket was opened inside the groups of `outer`; its head is next. -/
  | head (opening : Token) (outer : List OpenGroup)
  /-- Operands or the closing bracket of `group` are next. -/
  | operands (group : OpenGroup) (outer : List OpenGroup)
  /-- The expression is complete. -/
  | done (e : Expr)

namespace Reading

/-- Hands a complete expression to the innermost open group, if there is one. -/
def complete (e : Expr) : List OpenGroup → Reading
  | [] => done e
  | g :: outer => operands (g.add e) outer

/-- What one token does. -/
def step (r : Reading) (t : Token) : Except SyntaxError Reading :=
  match r, t.kind with
  | start, .opening => .ok (head t [])
  | start, .closing => .error (.unexpectedClosing t)
  | start, .word w => (atom t w).map fun a => done (.leaf a)
  | head _ _, .opening => .error (.invalidHead t)
  | head opening _, .closing => .error (.emptyExpression opening)
  | head opening outer, .word w => (atom t w).map fun a => operands ⟨opening, a, []⟩ outer
  | operands g outer, .opening => .ok (head t (g :: outer))
  | operands g outer, .closing => .ok (complete g.close outer)
  | operands g outer, .word w => (atom t w).map fun a => operands (g.add (.leaf a)) outer
  | done _, _ => .error (.excessTokens t)

/-- What the end of the tokens means. -/
def finish : Reading → Except SyntaxError Expr
  | start => .error .noTokens
  | head opening _ => .error (.unmatchedOpening opening)
  | operands g _ => .error (.unmatchedOpening g.opening)
  | done e => .ok e

/-- Reads on until an expression is complete, a token is wrong, or no token is
left; gives the outcome and the tokens not taken. A wrong token is taken. -/
def advance : Reading → List Token → Except SyntaxError Expr × List Token
  | done e, tokens => (.ok e, tokens)
  | r, [] => (r.finish, [])
  | r, t :: tokens =>
    match r.step t with
    | .ok r => advance r tokens
    | .error error => (.error error, tokens)

lemma advance_done (e : Expr) (ts : List Token) : advance (done e) ts = (.ok e, ts) := by
  rw [advance]

/-- A token that is not wrong is taken. -/
lemma advance_cons {r r' : Reading} {t : Token} (h : r.step t = .ok r') (ts : List Token) :
    advance r (t :: ts) = advance r' ts := by
  cases r with
  | done e => simp [step] at h
  | start | head | operands =>
      rw [advance, h]
      simp

/-- A wrong token ends a run, unless the expression was complete before. -/
lemma advance_cons_of_error {r : Reading} {t : Token} {error : SyntaxError}
    (hr : ∀ e, r ≠ done e) (h : r.step t = .error error) (ts : List Token) :
    advance r (t :: ts) = (.error error, ts) := by
  rw [advance, h]
  exact hr

/-- An expression is expected inside the groups of a stack, or at the start. -/
def expecting : List OpenGroup → Reading
  | [] => start
  | g :: outer => operands g outer

@[simp] lemma expecting_nil : expecting [] = start := rfl

@[simp] lemma expecting_cons (g : OpenGroup) (outer : List OpenGroup) :
    expecting (g :: outer) = operands g outer := rfl

lemma expecting_ne_done (stack : List OpenGroup) (e : Expr) : expecting stack ≠ done e := by
  cases stack <;> simp

lemma step_expecting_opening {t : Token} (ht : t.kind = .opening) (stack : List OpenGroup) :
    (expecting stack).step t = .ok (head t stack) := by
  cases stack <;> simp [step, ht]

lemma step_expecting_eq_map {t : Token} {w : String} (ht : t.kind = .word w)
    (stack : List OpenGroup) :
    (expecting stack).step t = (atom t w).map fun a => complete (.leaf a) stack := by
  cases stack <;> simp [step, ht, complete]

/-! ### The descent -/

/-- Goes on inside the groups of `stack` with the expression that was taken there. -/
def Taken.resume {tokens : List Token} (stack : List OpenGroup) (taken : Taken tokens) :
    Except SyntaxError Expr × List Token :=
  match taken.result with
  | .ok e => advance (complete e stack) taken.rest
  | .error error => (.error error, taken.rest)

mutual

/-- Where an expression is expected, a run takes what the descent takes. Inside a group the
descent looks for a closing bracket first. -/
lemma resume_takeExpression (stack : List OpenGroup) (t : Token) (ts : List Token)
    (ht : stack = [] ∨ t.kind ≠ .closing) :
    (takeExpression (t :: ts)).resume stack = advance (expecting stack) (t :: ts) := by
  rw [takeExpression]
  cases hkind : t.kind with
  | opening =>
      rw [advance_cons (step_expecting_opening hkind stack)]
      exact resume_takeGroup t stack ts
  | closing =>
      obtain rfl := ht.resolve_right (by simp [hkind])
      have hstep : start.step t = .error (.unexpectedClosing t) := by simp [step, hkind]
      exact (advance_cons_of_error (by simp) hstep ts).symm
  | word w =>
      have hstep := step_expecting_eq_map hkind stack
      cases hatom : atom t w with
      | ok a =>
          simp only [hatom] at hstep ⊢
          exact (advance_cons hstep ts).symm
      | error error =>
          simp only [hatom] at hstep ⊢
          exact (advance_cons_of_error (expecting_ne_done stack) hstep ts).symm
termination_by (ts.length + 1, 0)

/-- Behind an opening bracket, a run takes what the descent takes. -/
lemma resume_takeGroup (opening : Token) (stack : List OpenGroup) (ts : List Token) :
    (takeGroup opening ts).resume stack = advance (head opening stack) ts := by
  match ts with
  | [] =>
      rw [takeGroup]
      rfl
  | t :: ts =>
      rw [takeGroup]
      cases hkind : t.kind with
      | opening =>
          have hstep : (head opening stack).step t = .error (.invalidHead t) := by
            simp [step, hkind]
          exact (advance_cons_of_error (by simp) hstep ts).symm
      | closing =>
          have hstep : (head opening stack).step t = .error (.emptyExpression opening) := by
            simp [step, hkind]
          exact (advance_cons_of_error (by simp) hstep ts).symm
      | word w =>
          have hstep : (head opening stack).step t
              = (atom t w).map fun a => operands ⟨opening, a, []⟩ stack := by simp [step, hkind]
          cases hatom : atom t w with
          | ok a =>
              simp only [hatom] at hstep ⊢
              rw [advance_cons hstep]
              exact resume_takeOperands ⟨opening, a, []⟩ stack ts
          | error error =>
              simp only [hatom] at hstep ⊢
              exact (advance_cons_of_error (by simp) hstep ts).symm
termination_by (ts.length, 0)

/-- Among the operands of a group, a run takes what the descent takes. -/
lemma resume_takeOperands (g : OpenGroup) (stack : List OpenGroup) (ts : List Token) :
    (takeOperands g.opening g.head g.latest ts).resume stack = advance (operands g stack) ts := by
  match ts with
  | [] =>
      rw [takeOperands]
      rfl
  | t :: ts =>
      by_cases hkind : t.kind = .closing
      · have hstep : (operands g stack).step t = .ok (complete g.close stack) := by
          simp [step, hkind]
        rw [takeOperands, hkind, advance_cons hstep]
        rfl
      · have hfirst := resume_takeExpression (g :: stack) t ts (.inr hkind)
        rw [expecting_cons] at hfirst
        rw [takeOperands, ← hfirst]
        split
        · next h => exact absurd h hkind
        · cases htaken : takeExpression (t :: ts) with
          | mk result left hleft =>
              cases result with
              | error error => rfl
              | ok e =>
                  have hlength : left.length < (t :: ts).length := Nat.lt_succ_of_le hleft
                  exact resume_takeOperands (g.add e) stack left
termination_by (ts.length, 1)

end

/-- **The descent, token by token**: reading an expression is the run from the start. -/
lemma expression_eq_advance (ts : List Token) : expression ts = advance start ts := by
  cases ts with
  | nil =>
      rw [expression, takeExpression]
      rfl
  | cons t ts =>
      rw [← expecting_nil, ← resume_takeExpression [] t ts (.inl rfl), expression, Taken.resume]
      cases (takeExpression (t :: ts)).result with
      | error error => rfl
      | ok e => exact (advance_done e _).symm

/-- The outcome of a program, given what reading its first expression comes to: nothing may
follow the expression. -/
def judge : Except SyntaxError Expr × List Token → Except SyntaxError Expr
  | (.ok _, t :: _) => .error (.excessTokens t)
  | (result, _) => result

lemma program_eq_judge (ts : List Token) : (program ts).1 = judge (expression ts) := by
  rw [program]
  generalize expression ts = outcome
  obtain ⟨result, rest⟩ := outcome
  cases result with
  | error error => rfl
  | ok e => cases rest <;> rfl

end Reading

/-- The reading of a text comes to what the run over its tokens comes to. -/
lemma Expr.parse_of_advance {text : String} {result : Except SyntaxError Expr}
    (h : Reading.judge (Reading.start.advance (Token.scanFrom .gap 0 text.toList)) = result) :
    parse text = result := by
  rw [parse, Reading.program_eq_judge, Reading.expression_eq_advance, Token.scan_eq_scanFrom, h]

end SketchLisp

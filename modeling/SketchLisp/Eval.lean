import SketchLisp.Evaluation
import SketchLisp.Procedure

/-!
Evaluating expressions.

An expression whose head is not a name is its own value. A bound name gives what
it is bound to, whatever its operands are. A form decides which of its operands
to evaluate; a procedure takes the values of all of them, from left to right. It
is looked up after its operands are evaluated, so that an unknown name is noticed
only then.

* `Operand`: an operand as it is written and as it evaluates;
* `SpecialForm.perform`: the four forms;
* `Expr.eval`: the evaluation of an expression.
-/

namespace SketchLisp

/-- An operand as it is written, and what evaluating it does. -/
structure Operand where
  written : Expr
  evaluate : Evaluation Expr

namespace Evaluation

/-- Binds a name to the value of an operand. The name has to be free before the
operand is evaluated, and still free afterwards. -/
def defineName (name : String) (operand : Evaluation Expr) : Evaluation Expr := do
  if Vocabulary.isReserved name then fail (.reservedName name)
  else if Vocabulary.isSpecialCharacter name then fail (.specialCharacter name)
  else if (← meaning? name).isSome then fail (.redefinition name)
  else
    let value ← operand
    define name value
    pure value

/-- Goes on with one of two computations. -/
def branch (condition : Atom) (consequent alternative : Evaluation Expr) : Evaluation Expr :=
  match condition with
  | .boolean true => consequent
  | .boolean false => alternative
  | other => fail (.nonBooleanCondition other)

/-- Evaluates operands one after another and queues the head of each value as
soon as it is there. -/
def drawEach : List (Evaluation Expr) → Evaluation Unit
  | [] => pure ()
  | x :: xs => do
    let value ← x
    queue value.head
    drawEach xs

end Evaluation

namespace SpecialForm

open Evaluation

/-- How many operands a form takes. -/
def arity : SpecialForm → Arity
  | define => .exactly 2
  | conditional => .exactly 3
  | sequence | draw => .atLeast 1

/-- What a form does with its operands. A wrong number of operands is noticed
before any of them is evaluated. -/
def perform : SpecialForm → List Operand → Evaluation Expr
  | define, [target, operand] =>
    match target.written with
    | .node (.symbol name) [] => defineName name operand.evaluate
    | other => fail (.invalidDefineTarget other)
  | conditional, [condition, consequent, alternative] => do
    let value ← condition.evaluate
    branch value.head consequent.evaluate alternative.evaluate
  | sequence, first :: rest => last first.evaluate (rest.map (·.evaluate))
  | draw, first :: rest => do
    drawEach ((first :: rest).map (·.evaluate))
    pure (.leaf .nothing)
  | form, operands => fail (.wrongArgumentCount form.name form.arity operands.length)

end SpecialForm

namespace Expr

open Evaluation

/-- The evaluation of an expression whose head is a name. -/
def evalNamed (name : String) (operands : List Operand) : Evaluation Expr := do
  match ← meaning? name with
  | some (.bound value) => pure value
  | some (.keyword form) => form.perform operands
  | _ =>
    if Vocabulary.isSpecialCharacter name then fail (.specialCharacter name)
    else
      let values ← each (operands.map (·.evaluate))
      let p ← procedure name
      ofExcept (p.apply (values.map head))

mutual

/-- The evaluation of an expression. -/
def eval : Expr → Evaluation Expr
  | node (.symbol name) es => evalNamed name (evalOperands es)
  | value => pure value

/-- Operands with their evaluations. -/
def evalOperands : List Expr → List Operand
  | [] => []
  | e :: es => ⟨e, eval e⟩ :: evalOperands es

end

/-- Each operand stands with its own evaluation. -/
theorem evalOperands_eq_map (es : List Expr) :
    evalOperands es = es.map fun e => ⟨e, eval e⟩ := by
  induction es with
  | nil => rw [evalOperands, List.map_nil]
  | cons e es ih => rw [evalOperands, ih, List.map_cons]

/-- A name is evaluated by what it stands for. -/
theorem eval_symbol (name : String) (es : List Expr) :
    eval (node (.symbol name) es) = evalNamed name (es.map fun e => ⟨e, eval e⟩) := by
  rw [eval, evalOperands_eq_map]

/-- An expression whose head is not a name is its own value. -/
theorem eval_of_head_ne_symbol {e : Expr} (h : e.head.kind ≠ .symbol) : eval e = pure e := by
  obtain ⟨a, es⟩ := e
  cases a with
  | symbol name => exact absurd rfl h
  | nothing | boolean | number | point | line | arc => rfl

end Expr

end SketchLisp

import SketchLisp.Proofs.Sequences
import SketchLisp.Proofs.StandardNames

/-!
Nodes by what their heads stand for.

The names of forms and procedures stand for the same in every environment, so a node with
such a head evaluates in one way. All other names can only be bound or free, and which of
the two depends on the environment.

* `Operand.ofExpr`: operands as they are written and evaluate;
* `Environment.name_cases`: the three sorts of names;
* `Expr.eval_form`, `Expr.eval_procedure`, `Expr.run_eval_of_bound` and
  `Expr.run_eval_of_free`: how a node evaluates;
* `SpecialForm.perform_sequence`, `SpecialForm.perform_draw`: the forms that take any number
  of operands evaluate them one after another;
* `Expr.sequence`, `Expr.drawing`, `Expr.call`: nodes that evaluate all their operands.
-/

namespace SketchLisp

open Evaluation

/-- An operand that is written as an expression. -/
def Operand.ofExpr (e : Expr) : Operand := ⟨e, e.eval⟩

lemma Operand.map_evaluate_ofExpr (es : List Expr) :
    (es.map ofExpr).map (·.evaluate) = es.map Expr.eval := by
  rw [List.map_map]
  rfl

/-- Evaluating an expression and queueing the head of its value. -/
def Evaluation.draw (e : Expr) : Evaluation Unit := e.eval >>= fun v => queue v.head

/-! ### Forms -/

namespace SpecialForm

/-- Only a bare name can be defined. -/
lemma perform_define_of_ne {t : Expr} (ht : ∀ n, t ≠ .leaf (.symbol n)) (e : Expr) :
    define.perform [.ofExpr t, .ofExpr e] = fail (.invalidDefineTarget t) := by
  rw [perform]
  split
  · next n hn => exact absurd hn (ht n)
  · rfl

lemma perform_sequence {es : List Expr} (h : es ≠ []) :
    sequence.perform (es.map .ofExpr)
      = each (es.map Expr.eval) >>= fun vs => pure (vs.getLastD (.leaf .nothing)) := by
  obtain ⟨e, es, rfl⟩ := List.exists_cons_of_ne_nil h
  rw [List.map_cons, perform, Operand.map_evaluate_ofExpr]
  exact last_eq_each (.leaf .nothing) e.eval (es.map Expr.eval)

lemma perform_draw {es : List Expr} (h : es ≠ []) :
    draw.perform (es.map .ofExpr)
      = each (es.map Evaluation.draw) >>= fun _ => pure (.leaf .nothing) := by
  obtain ⟨e, es, rfl⟩ := List.exists_cons_of_ne_nil h
  rw [List.map_cons, perform, ← List.map_cons, Operand.map_evaluate_ofExpr, drawEach_eq_each,
    List.map_map, bind_assoc]
  rfl

end SpecialForm

/-! ### Nodes -/

/-- A name is that of a form, that of a procedure, or one that can only be bound. -/
lemma Environment.name_cases (name : String) :
    (∃ form : SpecialForm, name = form.name) ∨ (∃ p : Procedure, name = p.name)
    ∨ ∀ (E : Environment) (m : Meaning), E.meaning? name = some m → ∃ v, m = .bound v := by
  by_cases hform : ∃ form : SpecialForm, name = form.name
  · exact .inl hform
  by_cases hp : ∃ p : Procedure, name = p.name
  · exact .inr (.inl hp)
  refine .inr (.inr fun E m hm => ?_)
  rcases native_or_bound hm with hnative | hbound
  · cases hnative with
    | keyword form => exact absurd ⟨form, rfl⟩ hform
    | procedure p => exact absurd ⟨p, rfl⟩ hp
    | pi => exact ⟨_, rfl⟩
  · exact hbound

namespace Expr

variable {E : Environment} {name : String}

lemma run_eval_symbol (name : String) (es : List Expr) (E : Environment) :
    (node (.symbol name) es).eval.run E = (evalNamed name (es.map .ofExpr)).run E := by
  rw [eval_symbol]
  rfl

lemma eval_form (form : SpecialForm) (es : List Expr) :
    eval (node (.symbol form.name) es) = form.perform (es.map .ofExpr) := by
  ext E
  rw [run_eval_symbol, evalNamed_eq, run_meaning?_bind, Environment.meaning?_eq_keyword_iff.2 rfl]

lemma eval_procedure (p : Procedure) (es : List Expr) :
    eval (node (.symbol p.name) es)
      = each (es.map eval) >>= fun vs => ofExcept (p.apply (vs.map head)) := by
  ext E
  rw [run_eval_symbol, evalNamed_eq, run_meaning?_bind, Environment.meaning?_eq_procedure_iff.2 rfl,
    Operand.map_evaluate_ofExpr]

/-- A bound name gives what it is bound to, whatever its operands are. -/
lemma run_eval_of_bound {v : Expr} (h : E.meaning? name = some (.bound v)) (es : List Expr) :
    (node (.symbol name) es).eval.run E = ⟨.ok v, E, []⟩ := by
  rw [run_eval_symbol, evalNamed_eq, run_meaning?_bind, h, run_pure]

/-- A free name fails, unless it is a special character only after its operands are
evaluated. -/
lemma run_eval_of_free (h : E.meaning? name = none) (es : List Expr) :
    (node (.symbol name) es).eval.run E
      = (if Vocabulary.isSpecialCharacter name then fail (.specialCharacter name)
        else each (es.map eval) >>= fun _ => fail (.unboundName name) : Evaluation Expr).run E := by
  rw [run_eval_symbol, evalNamed_eq, run_meaning?_bind, h, Operand.map_evaluate_ofExpr]

/-! ### Sequences, drawings and calls -/

/-- The expression that evaluates others one after another and gives the last value. -/
def sequence (es : List Expr) : Expr := node (.symbol "begin") es

/-- The expression that evaluates others one after another and draws their values. -/
def drawing (es : List Expr) : Expr := node (.symbol "draw") es

/-- The expression that calls a procedure. -/
def call (p : Procedure) (es : List Expr) : Expr := node (.symbol p.name) es

lemma eval_sequence {es : List Expr} (h : es ≠ []) : (sequence es).eval
    = each (es.map eval) >>= fun vs => pure (vs.getLastD (.leaf .nothing)) :=
  (eval_form .sequence es).trans (SpecialForm.perform_sequence h)

/-- Only the value of the last expression counts. -/
lemma eval_sequence_concat (es : List Expr) (e : Expr) :
    (sequence (es ++ [e])).eval = each (es.map eval) >>= fun _ => e.eval := by
  simp [eval_sequence, each_append, each]

lemma eval_call (p : Procedure) (es : List Expr) : (call p es).eval
    = each (es.map eval) >>= fun vs => ofExcept (p.apply (vs.map head)) :=
  eval_procedure p es

lemma eval_drawing {es : List Expr} (h : es ≠ []) : (drawing es).eval
    = each (es.map Evaluation.draw) >>= fun _ => pure (.leaf .nothing) :=
  (eval_form .draw es).trans (SpecialForm.perform_draw h)

end Expr

end SketchLisp

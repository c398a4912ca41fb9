import SketchLisp.Proofs.Descent
import SketchLisp.Proofs.Forms
import SketchLisp.Proofs.Locality

/-!
The first failure among operands.

Sequences, drawings and calls of procedures evaluate their operands one after another. If
one of them fails, what the operands before it have done stays done, those after it are not
looked at, and the whole fails in the same way. Only a call can fail after all its operands
have succeeded, namely if the procedure does not take their values.

* `Eager`: what evaluates all its operands, with `Eager.eval_expr` for how it does;
* `Session.InTurn`: operands that succeed one after another in a session;
* `Session.FailsAt`: the place of the first one that fails, and what it leaves;
* `Session.FailsAt.unique`, `Session.FailsAt.replace`: there is one such place, and what
  comes after it does not matter;
* `Evaluation.EndsIn`: how a computation ends in a session;
* `session_failure_located`: a program of this sort that fails has a first operand that
  fails, or is a call with operands that the procedure does not take.
-/

namespace SketchLisp

open Evaluation

/-- What evaluates all its operands, one after another. -/
inductive Eager where
  | sequence
  | drawing
  | call (p : Procedure)

namespace Eager

/-- The program with given operands. -/
def expr : Eager → List Expr → Expr
  | sequence, es => .sequence es
  | drawing, es => .drawing es
  | call p, es => .call p es

/-- What is queued when an operand has a value. -/
def enqueued : Eager → Expr → List Atom
  | drawing, v => [v.head]
  | sequence, _ | call _, _ => []

/-- The evaluation of one operand, with what is queued for it. -/
def operand : Eager → Expr → Evaluation Expr
  | drawing, e => do
    let v ← e.eval
    queue v.head
    pure v
  | sequence, e | call _, e => e.eval

/-- What is done when all operands have values. -/
def finish : Eager → List Expr → Evaluation Expr
  | sequence, vs => pure (vs.getLastD (.leaf .nothing))
  | drawing, _ => pure (.leaf .nothing)
  | call p, vs => ofExcept (p.apply (vs.map Expr.head))

/-- First the operands are evaluated one after another, then the rest is done. -/
lemma eval_expr (op : Eager) {es : List Expr} (h : es ≠ []) :
    (op.expr es).eval = each (es.map op.operand) >>= op.finish := by
  cases op with
  | sequence => exact Expr.eval_sequence h
  | call p => exact Expr.eval_call p es
  | drawing =>
      have hdraw : Evaluation.draw = fun e => drawing.operand e >>= fun _ => pure () := by
        funext e
        simp [Evaluation.draw, operand]
      rw [expr, Expr.eval_drawing h, hdraw, each_map_bind_pure, bind_assoc]
      rfl

end Eager

namespace Session

/-- A session with some more atoms in its queue. -/
def enqueue (s : Session) (atoms : List Atom) : Session :=
  { s with graphics := s.graphics ++ atoms }

/-- Operands that succeed one after another, with their values and the session they leave. -/
inductive InTurn (op : Eager) : Session → List Expr → List Expr → Session → Prop
  | nil (s : Session) : InTurn op s [] [] s
  | cons {s t : Session} {e v : Expr} {es vs : List Expr}
      (hv : (s.holding e).run.1.result = .ok v)
      (hrest : InTurn op ((s.holding e).run.2.enqueue (op.enqueued v)) es vs t) :
      InTurn op s (e :: es) (v :: vs) t

/-- The operands before place `k` succeed one after another, and the one at place `k` then
fails with the error `r` and leaves the environment `E` and the queue `q`. -/
def FailsAt (op : Eager) (s : Session) (es : List Expr) (k : Nat) (r : EvalError)
    (E : Environment) (q : List Atom) : Prop :=
  ∃ before e after vs t, es = before ++ e :: after ∧ before.length = k
    ∧ s.InTurn op before vs t ∧ (t.holding e).run.1.result = .error r
    ∧ (t.holding e).run.2.environment = E ∧ (t.holding e).run.2.graphics = q

variable {op : Eager} {s : Session} {es : List Expr} {k : Nat} {r : EvalError}
  {E : Environment} {q : List Atom}

/-- All operands succeed, or there is a first one that fails. -/
lemma inTurn_or_failsAt (op : Eager) (s : Session) (es : List Expr) :
    (∃ vs t, s.InTurn op es vs t) ∨ ∃ k r E q, s.FailsAt op es k r E q := by
  induction es generalizing s with
  | nil => exact .inl ⟨[], s, .nil s⟩
  | cons e es ih =>
      cases hresult : (s.holding e).run.1.result with
      | error r =>
          exact .inr ⟨0, r, _, _, [], e, es, [], s, rfl, rfl, .nil s, hresult, rfl, rfl⟩
      | ok v =>
          rcases ih ((s.holding e).run.2.enqueue (op.enqueued v)) with
            ⟨vs, t, h⟩ | ⟨_, r, E, q, before, f, after, vs, t, rfl, rfl, hbefore, hf⟩
          · exact .inl ⟨v :: vs, t, .cons hresult h⟩
          · exact .inr ⟨_, r, E, q, e :: before, f, after, v :: vs, t, rfl, rfl,
              .cons hresult hbefore, hf⟩

/-- **One place**: an operand cannot both fail and be one of those that succeed before the
first failure. -/
lemma FailsAt.unique (h : s.FailsAt op es k r E q) {j : Nat} {r' : EvalError} {E' : Environment}
    {q' : List Atom} (h' : s.FailsAt op es j r' E' q') : j = k := by
  obtain ⟨before, e, after, vs, t, rfl, rfl, hbefore, he, -⟩ := h
  obtain ⟨before', e', after', vs', t', hes, rfl, hbefore', he', -⟩ := h'
  -- operand by operand both accounts see the same results, so they stop at the same one
  induction hbefore generalizing before' vs' with
  | nil s =>
      cases hbefore' with
      | nil => rfl
      | cons hv _ =>
          obtain ⟨rfl, -⟩ := List.cons.inj hes
          rw [he] at hv
          cases hv
  | cons hv hrest ih =>
      cases hbefore' with
      | nil =>
          obtain ⟨rfl, -⟩ := List.cons.inj hes
          rw [he'] at hv
          cases hv
      | cons hv' hrest' =>
          obtain ⟨rfl, htail⟩ := List.cons.inj hes
          obtain rfl := Except.ok.inj (hv.symm.trans hv')
          rw [List.length_cons, List.length_cons, ih he _ _ htail hrest']

/-- **What comes after the failure** does not matter. -/
lemma FailsAt.replace (h : s.FailsAt op es k r E q) (rest : List Expr) :
    s.FailsAt op (es.take (k + 1) ++ rest) k r E q := by
  obtain ⟨before, e, after, vs, t, rfl, rfl, hbefore, he⟩ := h
  refine ⟨before, e, rest, vs, t, ?_, rfl, hbefore, he⟩
  simp [List.take_append, List.take_of_length_le]

end Session

/-! ### How a computation ends in a session -/

namespace Evaluation

variable {α β : Type} {s t u : Session}

/-- In the session `s` a computation has the result `r` and leaves the environment and the
queue of `t`. -/
structure EndsIn (x : Evaluation α) (s : Session) (r : Except EvalError α) (t : Session) :
    Prop where
  result : (x.run s.environment).result = r
  environment : (x.run s.environment).environment = t.environment
  graphics : s.graphics ++ (x.run s.environment).queued = t.graphics

lemma endsIn_ofExcept (r : Except EvalError α) (s : Session) : (ofExcept r).EndsIn s r s :=
  ⟨rfl, rfl, List.append_nil _⟩

lemma endsIn_pure (a : α) (s : Session) : (pure a : Evaluation α).EndsIn s (.ok a) s :=
  endsIn_ofExcept (.ok a) s

lemma endsIn_queue (a : Atom) (s : Session) : (queue a).EndsIn s (.ok ()) (s.enqueue [a]) :=
  ⟨rfl, rfl, rfl⟩

lemma EndsIn.bind {x : Evaluation α} {f : α → Evaluation β} {a : α} {r : Except EvalError β}
    (hx : x.EndsIn s (.ok a) t) (hf : (f a).EndsIn t r u) : (x >>= f).EndsIn s r u := by
  refine ⟨?_, ?_, ?_⟩
  · rw [run_bind, andThen_of_ok hx.result, hx.environment]
    exact hf.result
  · rw [run_bind, andThen_of_ok hx.result, hx.environment]
    exact hf.environment
  · rw [run_bind, queued_andThen_of_ok hx.result, ← List.append_assoc, hx.graphics,
      hx.environment]
    exact hf.graphics

lemma EndsIn.bind_error {x : Evaluation α} {r : EvalError} (hx : x.EndsIn s (.error r) t)
    (f : α → Evaluation β) : (x >>= f).EndsIn s (.error r) t := by
  have hrun : (x >>= f).run s.environment = ⟨.error r, (x.run s.environment).environment,
      (x.run s.environment).effects⟩ := by rw [run_bind, andThen_of_error hx.result]
  refine ⟨?_, ?_, ?_⟩ <;> rw [hrun]
  · exact hx.environment
  · exact hx.graphics

/-- A program ends as the session says that runs it. -/
lemma endsIn_eval (e : Expr) (s : Session) :
    e.eval.EndsIn s (s.holding e).run.1.result (s.holding e).run.2 := by
  rw [Session.run_holding]
  exact ⟨rfl, rfl, rfl⟩

lemma EndsIn.run {e : Expr} {r : Except EvalError Expr} (h : e.eval.EndsIn s r t) :
    (s.holding e).run.1.result = r ∧ (s.holding e).run.2.environment = t.environment
      ∧ (s.holding e).run.2.graphics = t.graphics := by
  rw [Session.run_holding]
  exact ⟨h.result, h.environment, h.graphics⟩

variable {op : Eager} {e : Expr}

lemma endsIn_operand_of_ok {v : Expr} (hv : (s.holding e).run.1.result = .ok v) :
    (op.operand e).EndsIn s (.ok v) ((s.holding e).run.2.enqueue (op.enqueued v)) := by
  have he := endsIn_eval e s
  rw [hv] at he
  cases op with
  | drawing => exact he.bind ((endsIn_queue v.head _).bind (endsIn_pure v _))
  | sequence | call p =>
      rw [Eager.enqueued, Session.enqueue, List.append_nil]
      exact he

lemma endsIn_operand_of_error {r : EvalError} (hr : (s.holding e).run.1.result = .error r) :
    (op.operand e).EndsIn s (.error r) (s.holding e).run.2 := by
  have he := endsIn_eval e s
  rw [hr] at he
  cases op with
  | drawing => exact he.bind_error _
  | sequence | call p => exact he

end Evaluation

namespace Session

variable {op : Eager} {s t : Session} {es vs : List Expr}

lemma InTurn.endsIn (h : s.InTurn op es vs t) : (each (es.map op.operand)).EndsIn s (.ok vs) t := by
  induction h with
  | nil s => exact endsIn_pure [] s
  | cons hv _ ih => exact (endsIn_operand_of_ok hv).bind (ih.bind (endsIn_pure _ _))

/-- **A program with a first operand that fails** ends as this operand does. -/
lemma FailsAt.run {k : Nat} {r : EvalError} {E : Environment} {q : List Atom}
    (h : s.FailsAt op es k r E q) :
    (s.holding (op.expr es)).run.1.result = .error r
    ∧ (s.holding (op.expr es)).run.2.environment = E
    ∧ (s.holding (op.expr es)).run.2.graphics = q := by
  obtain ⟨before, e, after, vs, t, rfl, rfl, hbefore, he, rfl, rfl⟩ := h
  have hoperands : (each ((before ++ e :: after).map op.operand)).EndsIn s (.error r)
      (t.holding e).run.2 := by
    rw [List.map_append, each_append, List.map_cons, each_cons]
    exact hbefore.endsIn.bind (((endsIn_operand_of_error he).bind_error _).bind_error _)
  apply EndsIn.run
  rw [op.eval_expr (by simp)]
  exact hoperands.bind_error _

/-- **A program whose operands succeed** and that fails is a call, and the procedure does not
take the values. -/
lemma InTurn.run_eq_error {r : EvalError} (h : s.InTurn op es vs t) (hes : es ≠ [])
    (hr : (s.holding (op.expr es)).run.1.result = .error r) :
    ∃ p, op = .call p ∧ p.apply (vs.map Expr.head) = .error r
      ∧ (s.holding (op.expr es)).run.2.environment = t.environment
      ∧ (s.holding (op.expr es)).run.2.graphics = t.graphics := by
  have hends {x : Except EvalError Expr} (hx : (op.finish vs).EndsIn t x t) :
      (op.expr es).eval.EndsIn s x t := by
    rw [op.eval_expr hes]
    exact h.endsIn.bind hx
  cases op with
  | sequence | drawing =>
      have hok := (hends (endsIn_pure _ t)).run.1
      rw [hr] at hok
      cases hok
  | call p =>
      obtain ⟨hresult, henvironment, hgraphics⟩ := (hends (endsIn_ofExcept _ t)).run
      exact ⟨p, rfl, hresult.symm.trans hr, henvironment, hgraphics⟩

end Session

/-- **The first failure**: if a sequence, a drawing or a call fails, then there is exactly one
operand that fails after those before it have succeeded one after another. It fails with the
same error and leaves the same environment and the same queue, and this stays so whatever
other operands follow it. Or all operands of a call succeed and leave the environment and the
queue, and the procedure itself fails on the heads of their values. -/
theorem session_failure_located {s : Session} {op : Eager} {es : List Expr} {r : EvalError}
    (hes : es ≠ []) (h : (s.holding (op.expr es)).run.1.result = .error r) :
    (∃ k, s.FailsAt op es k r (s.holding (op.expr es)).run.2.environment
          (s.holding (op.expr es)).run.2.graphics
      ∧ (∀ j r' E q, s.FailsAt op es j r' E q → j = k)
      ∧ ∀ rest,
        (s.holding (op.expr (es.take (k + 1) ++ rest))).run.1.result = .error r
        ∧ (s.holding (op.expr (es.take (k + 1) ++ rest))).run.2.environment
          = (s.holding (op.expr es)).run.2.environment
        ∧ (s.holding (op.expr (es.take (k + 1) ++ rest))).run.2.graphics
          = (s.holding (op.expr es)).run.2.graphics)
    ∨ ∃ p vs t, op = .call p ∧ s.InTurn op es vs t ∧ p.apply (vs.map Expr.head) = .error r
      ∧ (s.holding (op.expr es)).run.2.environment = t.environment
      ∧ (s.holding (op.expr es)).run.2.graphics = t.graphics := by
  rcases Session.inTurn_or_failsAt op s es with ⟨vs, t, hturn⟩ | ⟨k, r', E, q, hfails⟩
  · obtain ⟨p, hp, hcall⟩ := hturn.run_eq_error hes h
    exact .inr ⟨p, vs, t, hp, hturn, hcall⟩
  · obtain ⟨hresult, rfl, rfl⟩ := hfails.run
    obtain rfl : r' = r := Except.error.inj (hresult.symm.trans h)
    refine .inl ⟨k, hfails, fun j _ _ _ hj => hfails.unique hj, fun rest => ?_⟩
    exact (hfails.replace rest).run

/-- The second operand of a drawing fails after it has bound a name and drawn. The first
operand is drawn, and the third is not looked at, whatever it is. -/
theorem session_failure_located_drawing : ∃ es : List Expr, es ≠ []
    ∧ Expr.parse "(draw True (begin (define y False) (draw y) (f y)) (define z True))"
      = .ok (Eager.drawing.expr es)
    ∧ (Session.fresh.holding (Eager.drawing.expr es)).run.1.result = .error (.unboundName "f")
    ∧ ∃ k E, Session.fresh.FailsAt .drawing es k (.unboundName "f") E
        [.boolean true, .boolean false]
      ∧ ∀ rest,
        (Session.fresh.holding (Eager.drawing.expr (es.take (k + 1) ++ rest))).run.2.graphics
          = [.boolean true, .boolean false] := by
  let y : Expr := .leaf (.symbol "y")
  let es : List Expr := [.leaf (.boolean true),
    .sequence [.node (.symbol "define") [y, .leaf (.boolean false)], .drawing [y],
      .node (.symbol "f") [y]],
    .node (.symbol "define") [.leaf (.symbol "z"), .leaf (.boolean true)]]
  have hes : es ≠ [] := List.cons_ne_nil _ _
  have hresult : (Session.fresh.holding (Eager.drawing.expr es)).run.1.result
      = .error (.unboundName "f") := rfl
  have hgraphics : (Session.fresh.holding (Eager.drawing.expr es)).run.2.graphics
      = [.boolean true, .boolean false] := rfl
  rcases session_failure_located hes hresult with ⟨k, hfails, -, hreplace⟩ | ⟨p, -, -, hcall, -⟩
  · rw [hgraphics] at hfails
    exact ⟨es, hes, Expr.parse_of_advance rfl, hresult, k, _, hfails,
      fun rest => (hreplace rest).2.2.trans hgraphics⟩
  · cases hcall

end SketchLisp

import SketchLisp.Proofs.FailedDefinitions
import SketchLisp.Proofs.Repetition

/-!
Laws of sequences, drawings and definitions.

A sequence does nothing but evaluate its expressions one after another, and a drawing
nothing but evaluate and queue. So it makes no difference where they are cut in parts, also
if something fails on the way: what comes before the failure is done in both programs, and
what comes after it in neither.

* `Expr.Equivalent`: programs that no session tells apart, with
  `Expr.equivalent_of_eval_eq` for programs that evaluate in the same way;
* `Expr.eval_sequence_splice`: a sequence inside another;
* `Expr.eval_drawing_append`: a drawing in two parts;
* `Expr.eval_definition_then_name`: a name that is looked up after its definition;
* `equivalent_programs_in_sequence`: these laws for sessions.
-/

namespace SketchLisp

open Evaluation

namespace Expr

/-- Programs that have the same result and the same effects in every session, and leave the
same environment and the same queue. -/
def Equivalent (a b : Expr) : Prop := ∀ s : Session,
  (s.holding a).run.1 = (s.holding b).run.1
  ∧ (s.holding a).run.2.environment = (s.holding b).run.2.environment
  ∧ (s.holding a).run.2.graphics = (s.holding b).run.2.graphics

lemma equivalent_of_eval_eq {a b : Expr} (h : a.eval = b.eval) : a.Equivalent b := by
  intro s
  rw [Session.run_holding, Session.run_holding, h]
  exact ⟨rfl, rfl, rfl⟩

/-! ### Sequences -/

/-- A sequence of one expression is that expression. -/
lemma eval_sequence_singleton (e : Expr) : (sequence [e]).eval = e.eval := by
  have h := eval_sequence_concat [] e
  rwa [List.map_nil, each, pure_bind] at h

/-- A sequence of two expressions. -/
lemma eval_sequence_pair (a b : Expr) :
    (sequence [a, b]).eval = a.eval >>= fun _ => b.eval := by
  have h := eval_sequence_concat [a] b
  rwa [List.map_cons, List.map_nil, each_cons, each, bind_assoc] at h

/-- **A sequence inside another** may be replaced by its expressions. -/
lemma eval_sequence_splice (before after : List Expr) {inner : List Expr} (h : inner ≠ []) :
    (sequence (before ++ sequence inner :: after)).eval
      = (sequence (before ++ inner ++ after)).eval := by
  rw [eval_sequence (by simp), eval_sequence (by simp [h])]
  simp only [List.map_append, List.map_cons, each_append, each_cons, eval_sequence h, bind_assoc,
    pure_bind]
  -- there is a last value inside, since there is an expression
  obtain ⟨e, es, rfl⟩ := List.exists_cons_of_ne_nil h
  simp only [List.map_cons, each_cons, bind_assoc, pure_bind]
  refine bind_congr fun us => bind_congr fun v => bind_congr fun vs => bind_congr fun ws => ?_
  simp only [List.getLastD_eq_getLast?, List.getLast?_append, List.getLast?_cons]
  cases ws.getLast? <;> simp

/-! ### Drawings -/

/-- **A drawing in two parts** is two drawings one after another. -/
lemma eval_drawing_append {as bs : List Expr} (has : as ≠ []) (hbs : bs ≠ []) :
    (drawing (as ++ bs)).eval = (sequence [drawing as, drawing bs]).eval := by
  rw [eval_sequence_pair, eval_drawing has, eval_drawing hbs, eval_drawing (by simp [has]),
    List.map_append, each_append]
  simp only [bind_assoc, pure_bind]

/-! ### Definitions -/

/-- A definition that succeeds defines a name, and leaves it bound to the value. -/
lemma exists_bound_of_definition {t b v : Expr} {E : Environment}
    (h : ((definition t b).eval.run E).result = .ok v) : ∃ name, t = leaf (.symbol name)
      ∧ ((definition t b).eval.run E).environment.meaning? name = some (.bound v) := by
  by_cases ht : ∃ name, t = leaf (.symbol name) ∧ E.Admits name
  · obtain ⟨name, rfl, hadmits⟩ := ht
    rw [eval_definition_name] at h ⊢
    exact ⟨name, rfl, (meaning?_of_run_defineName hadmits.notReserved hadmits.notSpecial h).2⟩
  · obtain ⟨r, hr⟩ := run_definition_of_not_admits ht
    rw [hr] at h
    cases h

/-- **Looking up a name after its definition** gives the value that the definition has given
already. -/
lemma eval_definition_then_name (t e : Expr) :
    (sequence [definition t e, t]).eval = (definition t e).eval := by
  rw [eval_sequence_pair]
  ext E
  rw [run_bind]
  cases hresult : ((definition t e).eval.run E).result with
  | error r =>
      rw [andThen_of_error hresult, ← hresult]
  | ok v =>
      obtain ⟨name, ht, hname⟩ := exists_bound_of_definition hresult
      have hlookup : t.eval.run ((definition t e).eval.run E).environment
          = ⟨.ok v, ((definition t e).eval.run E).environment, []⟩ := by
        rw [ht] at hname ⊢
        exact run_eval_of_bound hname []
      rw [andThen_of_ok hresult, hlookup, List.append_nil, ← hresult]

end Expr

/-- **Equivalent programs in sequence**: a sequence inside another may be replaced by its
expressions, a sequence of one expression by that expression, a drawing by the drawings of two
parts of it, and a definition that is followed by what it defines by the definition alone. -/
theorem equivalent_programs_in_sequence (as cs : List Expr) {bs : List Expr} (hbs : bs ≠ [])
    (t e : Expr) :
    (Expr.sequence (as ++ .sequence bs :: cs)).Equivalent (.sequence (as ++ bs ++ cs))
    ∧ (Expr.sequence [e]).Equivalent e
    ∧ (as ≠ [] →
        (Expr.drawing (as ++ bs)).Equivalent (.sequence [.drawing as, .drawing bs]))
    ∧ (Expr.sequence [.definition t e, t]).Equivalent (.definition t e) := by
  refine ⟨?_, ?_, fun has => ?_, ?_⟩ <;> apply Expr.equivalent_of_eval_eq
  · exact Expr.eval_sequence_splice as cs hbs
  · exact Expr.eval_sequence_singleton e
  · exact Expr.eval_drawing_append has hbs
  · exact Expr.eval_definition_then_name t e

/-- A sequence inside another fails in its second expression, after it has drawn. The same
happens without the brackets around it, and what follows is left out. -/
theorem equivalent_programs_in_sequence_failing : ∃ as bs cs : List Expr, as ≠ [] ∧ bs ≠ []
    ∧ Expr.parse "(begin (define x True) (begin (draw x) (f x)) (draw x x))"
      = .ok (.sequence (as ++ .sequence bs :: cs))
    ∧ Expr.parse "(begin (define x True) (draw x) (f x) (draw x x))"
      = .ok (.sequence (as ++ bs ++ cs))
    ∧ (Session.fresh.holding (.sequence (as ++ bs ++ cs))).run.1.result = .error (.unboundName "f")
    ∧ (Session.fresh.holding (.sequence (as ++ bs ++ cs))).run.2.graphics = [.boolean true]
    ∧ (Expr.sequence (as ++ .sequence bs :: cs)).Equivalent (.sequence (as ++ bs ++ cs))
    ∧ (Expr.drawing (as ++ bs)).Equivalent (.sequence [.drawing as, .drawing bs]) := by
  let x : Expr := .leaf (.symbol "x")
  let as : List Expr := [.definition x (.leaf (.boolean true))]
  let bs : List Expr := [.drawing [x], .node (.symbol "f") [x]]
  let cs : List Expr := [.drawing [x, x]]
  have has : as ≠ [] := List.cons_ne_nil _ _
  have hbs : bs ≠ [] := List.cons_ne_nil _ _
  obtain ⟨hsplice, -, hdrawing, -⟩ := equivalent_programs_in_sequence as cs hbs x x
  exact ⟨as, bs, cs, has, hbs, Expr.parse_of_advance rfl, Expr.parse_of_advance rfl, rfl, rfl,
    hsplice, hdrawing has⟩

end SketchLisp

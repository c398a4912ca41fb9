import SketchLisp.Proofs.Contract
import SketchLisp.Proofs.Descent
import SketchLisp.Proofs.Locality
import SketchLisp.Proofs.StandardNames
import SketchLisp.ResultLine

/-!
Results are values.

A value is an expression that is not headed by a name; it may have operands, and
names among them, since nothing evaluates these. As long as names are bound to values
only, evaluation gives, binds and queues nothing else.

* `Expr.IsValue`: values, which evaluate to themselves (`Expr.IsValue.run_eq`);
* `Environment.ValueClosed`: environments that bind names to values only;
* `session_run_values`: in such an environment the result of a program is a value.
-/

namespace SketchLisp

/-- Whether an expression is not headed by a name. -/
def Expr.IsValue (e : Expr) : Prop := e.head.kind ≠ .symbol

/-- Whether all names that are bound are bound to values. -/
def Environment.ValueClosed (E : Environment) : Prop :=
  ∀ name v, E.meaning? name = some (.bound v) → v.IsValue

/-- The only name that is bound from the start is `pi`. -/
lemma Environment.valueClosed_standard : standard.ValueClosed := by
  intro name v h
  cases Store.meaning?_standard_iff.1 h
  simp [Expr.IsValue, Atom.kind]

/-- Binding one more name to a value. -/
lemma Environment.ValueClosed.extended {E : Environment} (h : E.ValueClosed) {name : String}
    (hfree : E.meaning? name = none) {v : Expr} (hv : v.IsValue) :
    (E.extended name v hfree).ValueClosed := by
  intro n w hw
  by_cases hname : n = name
  · rw [hname, meaning?_extended_self] at hw
    cases hw
    exact hv
  · rw [meaning?_extended_of_ne hname] at hw
    exact h n w hw

/-- Only values are bound and worked out, and only heads of values are queued. -/
def Contract.values : Contract where
  environment := Environment.ValueClosed
  value := Expr.IsValue
  queued a := a.kind ≠ .symbol

lemma Contract.sound_values : Contract.values.Sound fun _ => True where
  define hE hfree _ _ hv := Environment.ValueClosed.extended hE hfree hv
  bound hE hname := hE _ _ hname
  literal hv := hv
  queue hv := hv

/-! ### Values again -/

namespace Expr.IsValue

variable {v : Expr}

/-- A value is its own value in every session. -/
lemma run_eq (h : v.IsValue) {s : Session} (hs : s.program = some v) :
    s.run = (⟨.ok v, []⟩, s) := by
  have hrun : v.eval.run s.environment = ⟨.ok v, s.environment, []⟩ := by
    rw [eval_of_head_ne_symbol h, Evaluation.run_pure]
  rw [Session.run_of_program hs, hrun]
  simp [Outcome.queued]

/-- Every value but nothing is shown. -/
lemma resultLine?_eq_none_iff (h : v.IsValue) : v.resultLine? = none ↔ v.head = .nothing := by
  rw [resultLine?]
  cases ha : v.head with
  | symbol name => exact absurd (by rw [ha]; rfl) h
  | nothing | boolean | number | point | line | arc => simp

end Expr.IsValue

/-- **Results are values**: if names are bound to values only, then after a program has
run they still are, and no name was queued, whether or not the program succeeded. Its
result is a value, which gives itself wherever it is evaluated again and changes
nothing, and which is shown unless it is nothing. -/
theorem session_run_values {s : Session} (h : s.environment.ValueClosed) :
    s.run.2.environment.ValueClosed
    ∧ (∃ d, s.run.2.graphics = s.graphics ++ d ∧ ∀ a ∈ d, a.kind ≠ .symbol)
    ∧ ∀ v, s.run.1.result = .ok v →
        v.head.kind ≠ .symbol
        ∧ (∀ t : Session, t.program = some v → t.run = (⟨.ok v, []⟩, t))
        ∧ (v.resultLine? = none ↔ v.head = .nothing) := by
  cases hprogram : s.program with
  | none =>
      have hrun : s.run = (⟨.error .noProgram, []⟩, s) := by rw [Session.run, hprogram]
      rw [hrun]
      exact ⟨h, ⟨[], by simp, by simp⟩, by simp⟩
  | some e =>
      have hrespects := Contract.sound_values.eval (e := e) (fun _ _ => trivial) h
      rw [Session.run_of_program hprogram]
      refine ⟨hrespects.environment, ⟨_, rfl, hrespects.queued⟩, fun v hv => ?_⟩
      have hvalue : v.IsValue := hrespects.value v hv
      exact ⟨hvalue, fun t ht => hvalue.run_eq ht, hvalue.resultLine?_eq_none_iff⟩

/-- The value of `(begin (define x (1 y)) (draw x) x)` is `(1 y)`, although `y` stands for
nothing. -/
theorem session_run_values_group : ∃ e v : Expr,
    Expr.parse "(begin (define x (1 y)) (draw x) x)" = .ok e
    ∧ Environment.standard.ValueClosed
    ∧ (Session.run ⟨.standard, some e, []⟩).1.result = .ok v ∧ v.Mentions "y"
    ∧ v.resultLine? ≠ none
    ∧ ∀ t : Session, t.program = some v → t.run = (⟨.ok v, []⟩, t) := by
  let v : Expr := .node (.number 1) [.leaf (.symbol "y")]
  let e : Expr := .node (.symbol "begin") [.node (.symbol "define") [.leaf (.symbol "x"), v],
    .node (.symbol "draw") [.leaf (.symbol "x")], .leaf (.symbol "x")]
  have hresult : (Session.run ⟨.standard, some e, []⟩).1.result = .ok v := rfl
  obtain ⟨-, -, hvalue⟩ := session_run_values (s := ⟨.standard, some e, []⟩)
    Environment.valueClosed_standard
  obtain ⟨-, hagain, hline⟩ := hvalue v hresult
  refine ⟨e, v, Expr.parse_of_advance rfl, Environment.valueClosed_standard, hresult, by decide, ?_,
    hagain⟩
  rw [ne_eq, hline]
  simp [v]

end SketchLisp

import SketchLisp.Proofs.Footprint
import SketchLisp.Proofs.Signature

/-!
Properties that carry over from single steps to evaluations.

A property of computations may say something about their values too. If it is closed
under the ways in which evaluations are put together, it holds of every evaluation;
this is the one induction over expressions that such properties need.

* `Evaluation.exists_of_run_bind_eq_ok`: a computation that succeeds has two parts that do;
* `Evaluation.Closed`: properties that are closed in this way, for programs that bind
  only some names;
* `Expr.eval_of_closed`: a closed property holds of evaluating an expression.
-/

namespace SketchLisp

namespace Evaluation

variable {α β : Type}

/-! ### Runs -/

lemma andThen_of_ok {o : Outcome α} {a : α} (h : o.result = .ok a) (f : α → Evaluation β) :
    andThen o f = ⟨((f a).run o.environment).result, ((f a).run o.environment).environment,
      o.effects ++ ((f a).run o.environment).effects⟩ := by
  rw [andThen, h]

lemma andThen_of_error {o : Outcome α} {e : EvalError} (h : o.result = .error e)
    (f : α → Evaluation β) : andThen o f = ⟨.error e, o.environment, o.effects⟩ := by
  rw [andThen, h]

/-- What is queued by two parts that both come to run. -/
lemma queued_andThen_of_ok {o : Outcome α} {a : α} (h : o.result = .ok a) (f : α → Evaluation β) :
    (andThen o f).queued = o.queued ++ ((f a).run o.environment).queued := by
  rw [andThen_of_ok h, Outcome.queued, List.filterMap_append]
  rfl

/-- A computation that succeeds has two parts that do. -/
lemma exists_of_run_bind_eq_ok {x : Evaluation α} {f : α → Evaluation β} {E : Environment} {b : β}
    (h : ((x >>= f).run E).result = .ok b) :
    ∃ a, (x.run E).result = .ok a ∧ ((f a).run (x.run E).environment).result = .ok b := by
  rw [run_bind] at h
  cases hx : (x.run E).result with
  | error e => simp [andThen_of_error hx] at h
  | ok a => exact ⟨a, rfl, by simpa [andThen_of_ok hx] using h⟩

lemma run_meaning?_bind (name : String) (f : Option Meaning → Evaluation β) (E : Environment) :
    (meaning? name >>= f).run E = (f (E.meaning? name)).run E := by
  simp [andThen]

/-- Computations that never give a value. -/
def Fails (x : Evaluation α) : Prop := ∀ E v, (x.run E).result ≠ .ok v

lemma fails_fail (e : EvalError) : Fails (fail e : Evaluation α) := by
  intro E v h
  cases h

lemma fails_bind {f : α → Evaluation β} (hf : ∀ a, Fails (f a)) (x : Evaluation α) :
    Fails (x >>= f) := by
  intro E v h
  obtain ⟨a, -, hv⟩ := exists_of_run_bind_eq_ok h
  exact hf a _ v hv

/-- Defining a name that programs can define: it has to be free, and is bound as soon as
its value is there. -/
lemma defineName_eq {name : String} (hreserved : Vocabulary.isReserved name = false)
    (hspecial : Vocabulary.isSpecialCharacter name = false) (x : Evaluation Expr) :
    defineName name x = meaning? name >>= fun m =>
      if m.isSome then fail (.redefinition name)
      else x >>= fun v => define name v >>= fun _ => pure v := by
  rw [defineName, if_neg (by simp [hreserved]), if_neg (by simp [hspecial])]

/-- Properties `H P x` of computations `x` whose values meet the condition `P`, closed
under the ways in which evaluations are put together. Values of expressions meet
`V`, and only names in `names` are bound. -/
structure Closed (names : String → Prop) (V : Expr → Prop)
    (H : {α : Type} → (α → Prop) → Evaluation α → Prop) : Prop where
  pure {α : Type} {P : α → Prop} {a : α} (ha : P a) : H P (Pure.pure a)
  bind {α β : Type} {P : α → Prop} {Q : β → Prop} {x : Evaluation α} {f : α → Evaluation β}
    (hx : H P x) (hf : ∀ a, P a → H Q (f a)) : H Q (x >>= f)
  fail {α : Type} {P : α → Prop} (e : EvalError) : H P (fail e : Evaluation α)
  /-- An expression that is not headed by a name is a value. -/
  literal {v : Expr} (hv : v.head.kind ≠ .symbol) : V v
  queue {v : Expr} (hv : V v) : H (fun _ => True) (queue v.head)
  /-- Going on with what a name stands for; if that is nothing, there is no value. -/
  lookup {name : String} {f : Option Meaning → Evaluation Expr}
    (hf : ∀ m, (∀ v, m = some (.bound v) → V v) → H V (f m)) (hfails : Fails (f none)) :
    H V (meaning? name >>= f)
  define {name : String} {x : Evaluation Expr} (hname : names name)
    (hreserved : Vocabulary.isReserved name = false)
    (hspecial : Vocabulary.isSpecialCharacter name = false) (hx : H V x) :
    H V (defineName name x)

namespace Closed

variable {names : String → Prop} {V : Expr → Prop}
  {H : {α : Type} → (α → Prop) → Evaluation α → Prop} (h : Closed names V H)

include h

/-! ### Sequences -/

lemma each {P : α → Prop} {xs : List (Evaluation α)} (hxs : ∀ x ∈ xs, H P x) :
    H (fun vs => ∀ v ∈ vs, P v) (each xs) := by
  induction xs with
  | nil => exact h.pure (by simp)
  | cons x xs ih =>
      refine h.bind (hxs x (by simp)) fun a ha => ?_
      refine h.bind (ih fun y hy => hxs y (by simp [hy])) fun rest hrest => ?_
      exact h.pure (by simpa using ⟨ha, hrest⟩)

lemma last {P : α → Prop} {x : Evaluation α} {xs : List (Evaluation α)} (hx : H P x)
    (hxs : ∀ y ∈ xs, H P y) : H P (last x xs) := by
  induction xs generalizing x with
  | nil => exact hx
  | cons y ys ih =>
      exact h.bind hx fun _ _ => ih (hxs y (by simp)) fun z hz => hxs z (by simp [hz])

lemma drawEach {xs : List (Evaluation Expr)} (hxs : ∀ x ∈ xs, H V x) :
    H (fun _ => True) (drawEach xs) := by
  induction xs with
  | nil => exact h.pure trivial
  | cons x xs ih =>
      refine h.bind (hxs x (by simp)) fun v hv => ?_
      exact h.bind (h.queue hv) fun _ _ => ih fun y hy => hxs y (by simp [hy])

/-! ### Forms -/

lemma branch {x y : Evaluation Expr} (hx : H V x) (hy : H V y) (condition : Atom) :
    H V (branch condition x y) := by
  rw [branch.eq_def]
  split
  · exact hx
  · exact hy
  · exact h.fail _

lemma defineName {name : String} {x : Evaluation Expr} (hname : names name) (hx : H V x) :
    H V (defineName name x) := by
  by_cases hreserved : Vocabulary.isReserved name
  · rw [Evaluation.defineName, if_pos hreserved]
    exact h.fail _
  · by_cases hspecial : Vocabulary.isSpecialCharacter name
    · rw [Evaluation.defineName, if_neg hreserved, if_pos hspecial]
      exact h.fail _
    · exact h.define hname (by simpa using hreserved) (by simpa using hspecial) hx

end Closed

end Evaluation

open Evaluation

variable {names : String → Prop} {V : Expr → Prop}
  {H : {α : Type} → (α → Prop) → Evaluation α → Prop}

/-- An operand that mentions only some names and has a property. -/
structure Operand.Has (names : String → Prop) (K : Evaluation Expr → Prop) (o : Operand) :
    Prop where
  written : ∀ name, o.written.Mentions name → names name
  evaluate : K o.evaluate

lemma Operand.has_map_evaluate {K : Evaluation Expr → Prop} {operands : List Operand}
    (ho : ∀ o ∈ operands, o.Has names K) : ∀ x ∈ operands.map (·.evaluate), K x := by
  intro x hx
  obtain ⟨o, hmem, rfl⟩ := List.mem_map.1 hx
  exact (ho o hmem).evaluate

/-- A form with a wrong number of operands evaluates none of them. -/
lemma SpecialForm.perform_of_not_accepts {form : SpecialForm} {operands : List Operand}
    (h : form.arity.accepts operands.length = false) :
    form.perform operands = fail (.wrongArgumentCount form.name form.arity operands.length) := by
  fun_cases SpecialForm.perform form operands with
  | case1 | case2 | case3 | case4 | case5 =>
      simp [SpecialForm.arity, Arity.accepts] at h
  | case6 => rfl

lemma SpecialForm.perform_of_closed (h : Closed names V H) (form : SpecialForm)
    {operands : List Operand} (ho : ∀ o ∈ operands, o.Has names (H V)) :
    H V (form.perform operands) := by
  have hmap := Operand.has_map_evaluate ho
  fun_cases SpecialForm.perform form operands with
  | case1 target operand name htarget =>
      have hname : names name := by
        refine (ho target (by simp)).written name ?_
        rw [htarget]
        exact Expr.mentions_head name []
      exact h.defineName hname (ho operand (by simp)).evaluate
  | case2 => exact h.fail _
  | case3 condition consequent alternative =>
      refine h.bind (ho condition (by simp)).evaluate fun _ _ => ?_
      exact h.branch (ho consequent (by simp)).evaluate (ho alternative (by simp)).evaluate _
  | case4 first rest =>
      exact h.last (ho first (by simp)).evaluate fun y hy => hmap y (by simp [hy])
  | case5 first rest =>
      have hnothing : V (.leaf .nothing) := h.literal (by simp [Atom.kind])
      exact h.bind (h.drawEach hmap) fun _ _ => h.pure hnothing
  | case6 => exact h.fail _

/-! ### Procedures -/

lemma Procedure.apply_of_closed (h : Closed names V H) (p : Procedure) (operands : List Atom) :
    H V (ofExcept (p.apply operands)) := by
  cases hv : p.apply operands with
  | error e => exact h.fail e
  | ok v =>
      obtain ⟨a, rfl, ha⟩ := exists_leaf_of_apply hv
      exact h.pure (h.literal ha)

/-! ### Expressions -/

namespace Expr

lemma evalNamed_of_closed (h : Closed names V H) (name : String) {operands : List Operand}
    (ho : ∀ o ∈ operands, o.Has names (H V)) : H V (evalNamed name operands) := by
  have hvalues := h.each (Operand.has_map_evaluate ho)
  rw [evalNamed_eq]
  refine h.lookup (fun m hm => ?_) ?_
  · split
    · next v => exact h.pure (hm v rfl)
    · exact SpecialForm.perform_of_closed h _ ho
    · exact h.bind hvalues fun _ _ => Procedure.apply_of_closed h _ _
    · split_ifs
      · exact h.fail _
      · exact h.bind hvalues fun _ _ => h.fail _
  · dsimp only
    split_ifs
    · exact fails_fail _
    · exact fails_bind (fun _ => fails_fail _) _

/-- **Closed properties carry over to evaluations** of expressions that mention only
names that may be bound. -/
theorem eval_of_closed (h : Closed names V H) (e : Expr) :
    (∀ name, e.Mentions name → names name) → H V e.eval := by
  induction e using Expr.ind with
  | step a es ih =>
      intro hnames
      cases a with
      | symbol name =>
          rw [eval_symbol]
          refine evalNamed_of_closed h name fun o ho => ?_
          obtain ⟨e, he, rfl⟩ := List.mem_map.1 ho
          have hmentions : ∀ name, e.Mentions name → names name :=
            fun name hn => hnames name (hn.of_operand he _)
          exact ⟨hmentions, ih e he hmentions⟩
      | nothing | boolean | number | point | line | arc =>
          rw [eval_of_head_ne_symbol (by simp [Atom.kind])]
          exact h.pure (h.literal (by simp [Atom.kind]))

end Expr

end SketchLisp

import SketchLisp.Proofs.Nodes
import SketchLisp.Proofs.StandardNames

/-!
The names that an evaluation touches.

An evaluation is put together from single steps. The only steps that have to do
with the environment look a name up or bind one, and an expression makes them for
names that it mentions.

* `Evaluation.Within`: computations put together from steps on some names;
* `Expr.eval_within`: an expression evaluates within the names it mentions;
* `Evaluation.Within.related`: what binding one name does to the environment, a
  whole run does.
-/

namespace SketchLisp

namespace Evaluation

/-- Computations put together from steps that look up or bind only some names. -/
inductive Within (names : String → Prop) : {α : Type} → Evaluation α → Prop
  | pure {α : Type} (a : α) : Within names (pure a)
  | bind {α β : Type} {x : Evaluation α} {f : α → Evaluation β} (hx : Within names x)
      (hf : ∀ a, Within names (f a)) : Within names (x >>= f)
  | ofExcept {α : Type} (result : Except EvalError α) : Within names (ofExcept result)
  | meaning? {name : String} (h : names name) : Within names (meaning? name)
  | define {name : String} (h : names name) (value : Expr) : Within names (define name value)
  | queue (a : Atom) : Within names (queue a)

variable {names : String → Prop} {α : Type}

lemma within_fail (e : EvalError) : Within names (fail e : Evaluation α) := .ofExcept (.error e)

/-! ### Sequences -/

lemma within_each {xs : List (Evaluation α)} (h : ∀ x ∈ xs, Within names x) :
    Within names (each xs) := by
  induction xs with
  | nil => exact .pure []
  | cons x xs ih =>
      have hxs := ih fun y hy => h y (by simp [hy])
      exact .bind (h x (by simp)) fun a => .bind hxs fun rest => .pure (a :: rest)

lemma within_last {x : Evaluation α} {xs : List (Evaluation α)} (hx : Within names x)
    (h : ∀ y ∈ xs, Within names y) : Within names (last x xs) := by
  induction xs generalizing x with
  | nil => exact hx
  | cons y ys ih => exact .bind hx fun _ => ih (h y (by simp)) fun z hz => h z (by simp [hz])

lemma within_drawEach {xs : List (Evaluation Expr)} (h : ∀ x ∈ xs, Within names x) :
    Within names (drawEach xs) := by
  induction xs with
  | nil => exact .pure ()
  | cons x xs ih =>
      have hxs := ih fun y hy => h y (by simp [hy])
      exact .bind (h x (by simp)) fun value => .bind (.queue value.head) fun _ => hxs

/-! ### Forms -/

lemma within_branch {x y : Evaluation Expr} (hx : Within names x) (hy : Within names y)
    (condition : Atom) : Within names (branch condition x y) := by
  rw [branch.eq_def]
  split
  · exact hx
  · exact hy
  · exact within_fail _

lemma within_defineName {name : String} {x : Evaluation Expr} (hname : names name)
    (hx : Within names x) : Within names (defineName name x) := by
  rw [defineName]
  split_ifs
  · exact within_fail _
  · exact within_fail _
  · refine .bind (.meaning? hname) fun m => ?_
    split_ifs
    · exact within_fail _
    · exact .bind hx fun value => .bind (.define hname value) fun _ => .pure value

end Evaluation

/-- An operand that mentions only some names and touches no others. -/
structure Operand.Within (names : String → Prop) (o : Operand) : Prop where
  written : ∀ name, o.written.Mentions name → names name
  evaluate : o.evaluate.Within names

lemma Operand.within_map_evaluate {names : String → Prop} {operands : List Operand}
    (h : ∀ o ∈ operands, o.Within names) :
    ∀ x ∈ operands.map (·.evaluate), x.Within names := by
  intro x hx
  obtain ⟨o, ho, rfl⟩ := List.mem_map.1 hx
  exact (h o ho).evaluate

open Evaluation in
/-- A form touches only names that its operands touch or mention. -/
lemma SpecialForm.perform_within {names : String → Prop} (form : SpecialForm)
    {operands : List Operand} (h : ∀ o ∈ operands, o.Within names) :
    (form.perform operands).Within names := by
  have hmap := Operand.within_map_evaluate h
  fun_cases SpecialForm.perform form operands with
  | case1 target operand name htarget =>
      -- the target is not evaluated, but its name is bound
      have hname : names name := by
        refine (h target (by simp)).written name ?_
        rw [htarget]
        exact Expr.mentions_head name []
      exact within_defineName hname (h operand (by simp)).evaluate
  | case2 => exact within_fail _
  | case3 condition consequent alternative =>
      refine .bind (h condition (by simp)).evaluate fun value => ?_
      exact within_branch (h consequent (by simp)).evaluate (h alternative (by simp)).evaluate _
  | case4 first rest =>
      exact within_last (h first (by simp)).evaluate fun y hy => hmap y (by simp [hy])
  | case5 first rest => exact .bind (within_drawEach hmap) fun _ => .pure _
  | case6 => exact within_fail _

namespace Expr

open Evaluation

lemma evalNamed_within {names : String → Prop} {name : String} {operands : List Operand}
    (hname : names name) (h : ∀ o ∈ operands, o.Within names) :
    (evalNamed name operands).Within names := by
  have hvalues : (each (operands.map (·.evaluate))).Within names :=
    within_each (Operand.within_map_evaluate h)
  rw [evalNamed_eq]
  refine .bind (.meaning? hname) fun m => ?_
  split
  · exact .pure _
  · exact SpecialForm.perform_within _ h
  · exact .bind hvalues fun _ => .ofExcept _
  · split_ifs
    · exact within_fail _
    · exact .bind hvalues fun _ => within_fail _

/-- **The names of an evaluation**: an expression looks up and binds only names
that it mentions. -/
theorem eval_within (e : Expr) : ∀ {names : String → Prop},
    (∀ name, e.Mentions name → names name) → e.eval.Within names := by
  induction e using Expr.ind with
  | step a es ih =>
      intro names h
      cases a with
      | symbol name =>
          rw [eval_symbol]
          refine evalNamed_within (h name (mentions_head name es)) fun o ho => ?_
          obtain ⟨e, he, rfl⟩ := List.mem_map.1 ho
          have hmentions : ∀ name, e.Mentions name → names name :=
            fun name hn => h name (hn.of_operand he _)
          exact ⟨hmentions, ih e he hmentions⟩
      | nothing | boolean | number | point | line | arc =>
          rw [eval_of_head_ne_symbol (by simp [Atom.kind])]
          exact .pure _

lemma eval_within_mentions (e : Expr) : e.eval.Within e.Mentions := e.eval_within fun _ hn => hn

end Expr

/-! ### Runs -/

namespace Evaluation

variable {names : String → Prop} {α : Type}

lemma run_define_of_none {env : Environment} {name : String} (h : env.meaning? name = none)
    (value : Expr) : (define name value).run env
      = ⟨.ok (), env.extended name value h, [.bound name value]⟩ := by
  simp [run, define, Environment.define_of_none h]

lemma run_define_of_isSome {env : Environment} {name : String} (h : (env.meaning? name).isSome)
    (value : Expr) : (define name value).run env = ⟨.error (.redefinition name), env, []⟩ := by
  simp [run, define, Environment.define_of_isSome h]

/-- **What a run does to the environment**: a relation that holds over binding one
free name, and carries over from step to step, holds over a whole run. -/
lemma Within.related {R : Environment → Environment → Prop} (hrefl : ∀ E, R E E)
    (htrans : ∀ {E F G}, R E F → R F G → R E G)
    (hdefine : ∀ (E : Environment) {name} value, names name → (h : E.meaning? name = none) →
      R E (E.extended name value h))
    {x : Evaluation α} (h : Within names x) (E : Environment) : R E (x.run E).environment := by
  induction h generalizing E with
  | pure a => exact hrefl E
  | ofExcept result => exact hrefl E
  | meaning? hname => exact hrefl E
  | queue a => exact hrefl E
  | define hname value =>
      cases hfree : E.meaning? _ with
      | none =>
          rw [run_define_of_none hfree]
          exact hdefine E value hname hfree
      | some m =>
          rw [run_define_of_isSome (by simp [hfree])]
          exact hrefl E
  | @bind _ _ x f hx hf ihx ihf =>
      rw [run_bind, andThen]
      split
      · exact ihx E
      · exact htrans (ihx E) (ihf _ _)

end Evaluation

end SketchLisp

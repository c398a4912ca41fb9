import SketchLisp.Proofs.Licences

/-!
Definitions that fail.

Whether a name can be defined is looked at twice, before its value is worked out and after
it. In between anything may happen, also a definition of the same name. Either way a
definition that fails binds nothing by itself: all that it leaves behind is what working
out the value has left.

* `Environment.Admits`: whether a name can be defined in an environment;
* `Expr.run_definition_of_not_admits`: a definition that is refused at once;
* `Expr.run_definition_of_failed`: one that fails later;
* `session_definition_failed`: what this means for a session.
-/

namespace SketchLisp

open Evaluation

/-- Whether a name can be defined in an environment. -/
structure Environment.Admits (E : Environment) (name : String) : Prop where
  notReserved : Vocabulary.isReserved name = false
  notSpecial : Vocabulary.isSpecialCharacter name = false
  unbound : ¬ E.contains name

/-- A definition of `target` by the value of `value`. -/
def Expr.definition (target value : Expr) : Expr := node (.symbol "define") [target, value]

namespace Evaluation

variable {E : Environment} {name : String}

/-- A name that cannot be defined is refused before anything is evaluated. -/
lemma run_defineName_of_not_admits (h : ¬ E.Admits name) :
    ∃ r, ∀ x, (defineName name x).run E = ⟨.error r, E, []⟩ := by
  by_cases hreserved : Vocabulary.isReserved name
  · exact ⟨.reservedName name, fun x => by rw [defineName, if_pos hreserved, run_fail]⟩
  by_cases hspecial : Vocabulary.isSpecialCharacter name
  · refine ⟨.specialCharacter name, fun x => ?_⟩
    rw [defineName, if_neg hreserved, if_pos hspecial, run_fail]
  rw [Bool.not_eq_true] at hreserved hspecial
  have hbound : (E.meaning? name).isSome := by
    by_contra hfree
    exact h ⟨hreserved, hspecial, hfree⟩
  refine ⟨.redefinition name, fun x => ?_⟩
  rw [defineName_eq hreserved hspecial, run_meaning?_bind, if_pos hbound, run_fail]

lemma run_defineName_of_admits (h : E.Admits name) (x : Evaluation Expr) :
    (defineName name x).run E
      = andThen (x.run E) fun v => define name v >>= fun _ => pure v := by
  have hfree : ¬ (E.meaning? name).isSome := h.unbound
  rw [defineName_eq h.notReserved h.notSpecial, run_meaning?_bind, if_neg hfree, run_bind]

end Evaluation

namespace Expr

variable {E : Environment} {t b : Expr} {name : String} {r : EvalError}

lemma eval_definition (t b : Expr) :
    (definition t b).eval = SpecialForm.define.perform [.ofExpr t, .ofExpr b] :=
  eval_form .define [t, b]

lemma eval_definition_name (name : String) (b : Expr) :
    (definition (leaf (.symbol name)) b).eval = defineName name b.eval :=
  eval_definition _ _

/-- **Refused at once**: what should be defined is not a name, or one that cannot be
defined. The error does not depend on the value. -/
lemma run_definition_of_not_admits (h : ¬ ∃ name, t = leaf (.symbol name) ∧ E.Admits name) :
    ∃ r, ∀ b, (definition t b).eval.run E = ⟨.error r, E, []⟩ := by
  by_cases ht : ∃ name, t = leaf (.symbol name)
  · obtain ⟨name, rfl⟩ := ht
    obtain ⟨r, hr⟩ := run_defineName_of_not_admits fun hadmits => h ⟨name, rfl, hadmits⟩
    exact ⟨r, fun b => by rw [eval_definition_name, hr]⟩
  · refine ⟨.invalidDefineTarget t, fun b => ?_⟩
    rw [eval_definition, SpecialForm.perform_define_of_ne fun name hname => ht ⟨name, hname⟩,
      run_fail]

/-- **Failed later**: there is no value, or working it out has bound the name. Nothing is
left that the value alone would not have left. -/
lemma run_definition_of_failed (hadmits : E.Admits name)
    (h : ((definition (leaf (.symbol name)) b).eval.run E).result = .error r) :
    (definition (leaf (.symbol name)) b).eval.run E
      = ⟨.error r, (b.eval.run E).environment, (b.eval.run E).effects⟩
    ∧ ((b.eval.run E).result = .error r
      ∨ (∃ v, (b.eval.run E).result = .ok v) ∧ r = .redefinition name
        ∧ (b.eval.run E).environment.contains name) := by
  have hrun : (definition (leaf (.symbol name)) b).eval.run E
      = andThen (b.eval.run E) fun v => Evaluation.define name v >>= fun _ => pure v := by
    rw [eval_definition_name, run_defineName_of_admits hadmits]
  rw [hrun] at h ⊢
  cases hvalue : (b.eval.run E).result with
  | error q =>
      rw [andThen_of_error hvalue] at h ⊢
      obtain rfl := Except.error.inj h
      exact ⟨rfl, .inl rfl⟩
  | ok v =>
      rw [andThen_of_ok hvalue, run_bind] at h ⊢
      cases hname : (b.eval.run E).environment.meaning? name with
      | none =>
          rw [run_define_of_none hname] at h
          cases h
      | some m =>
          have hbound : ((b.eval.run E).environment.meaning? name).isSome := by simp [hname]
          rw [run_define_of_isSome hbound] at h ⊢
          obtain rfl := Except.error.inj h
          exact ⟨by simp [andThen], .inr ⟨⟨v, rfl⟩, rfl, hbound⟩⟩

end Expr

/-! ### Sessions -/

/-- **A definition that fails binds nothing by itself.** If it is not a definition of a name
that can be defined, it leaves environment and queue as they are, and it fails in the same
way whatever the value is. Otherwise it leaves them as the value alone does, and it fails as
the value does, or since working out the value has bound the name. So a name that was
unbound stays unbound, in particular the one that should have been defined, unless it is
defined inside the value. -/
theorem session_definition_failed {s : Session} {t b : Expr} {r : EvalError}
    (h : (s.holding (.definition t b)).run.1.result = .error r) :
    ((¬ ∃ name, t = .leaf (.symbol name) ∧ s.environment.Admits name)
        ∧ (s.holding (.definition t b)).run.2.environment = s.environment
        ∧ (s.holding (.definition t b)).run.2.graphics = s.graphics
        ∧ (∀ c, (s.holding (.definition t c)).run.1 = (s.holding (.definition t b)).run.1)
      ∨ ∃ name, t = .leaf (.symbol name) ∧ s.environment.Admits name
        ∧ (s.holding (.definition t b)).run.2.environment = (s.holding b).run.2.environment
        ∧ (s.holding (.definition t b)).run.2.graphics = (s.holding b).run.2.graphics
        ∧ ((s.holding b).run.1.result = .error r
          ∨ (∃ v, (s.holding b).run.1.result = .ok v) ∧ r = .redefinition name
            ∧ (s.holding b).run.2.environment.contains name))
    ∧ ∀ name, ¬ b.Defines name → ¬ s.environment.contains name →
        ¬ (s.holding (.definition t b)).run.2.environment.contains name := by
  simp only [Session.run_holding] at h ⊢
  by_cases ht : ∃ name, t = .leaf (.symbol name) ∧ s.environment.Admits name
  · obtain ⟨name, rfl, hadmits⟩ := ht
    obtain ⟨hrun, hcause⟩ := Expr.run_definition_of_failed hadmits h
    rw [hrun]
    refine ⟨.inr ⟨name, rfl, hadmits, rfl, rfl, hcause⟩, fun n hdefines hE hF => ?_⟩
    exact hdefines (Expr.defines_of_mem_definedNames (Expr.mem_definedNames_of_new hE hF)).1
  · obtain ⟨q, hq⟩ := Expr.run_definition_of_not_admits ht
    rw [hq b]
    refine ⟨.inl ⟨ht, rfl, List.append_nil _, fun c => ?_⟩, fun _ _ hE => hE⟩
    rw [hq c]

/-- In `(define x (begin (define y True) (draw y) (f y)))` the value fails after it has bound
`y` and drawn. Both stay, and `x` is not bound. -/
theorem session_definition_failed_inside : ∃ b : Expr,
    Expr.parse "(define x (begin (define y True) (draw y) (f y)))"
      = .ok (.definition (.leaf (.symbol "x")) b)
    ∧ (Session.fresh.holding (.definition (.leaf (.symbol "x")) b)).run.1.result
      = .error (.unboundName "f")
    ∧ ¬ b.Defines "x"
    ∧ ¬ (Session.fresh.holding (.definition (.leaf (.symbol "x")) b)).run.2.environment.contains "x"
    ∧ (Session.fresh.holding (.definition (.leaf (.symbol "x")) b)).run.2.environment
      = (Session.fresh.holding b).run.2.environment
    ∧ (Session.fresh.holding b).run.2.environment.contains "y" := by
  let b : Expr := .node (.symbol "begin")
    [.node (.symbol "define") [.leaf (.symbol "y"), .leaf (.boolean true)],
      .node (.symbol "draw") [.leaf (.symbol "y")], .node (.symbol "f") [.leaf (.symbol "y")]]
  have hresult : (Session.fresh.holding (.definition (.leaf (.symbol "x")) b)).run.1.result
      = .error (.unboundName "f") := rfl
  have hdefines : ¬ b.Defines "x" := fun h => absurd h.mentions (by decide)
  obtain ⟨hways, hunbound⟩ := session_definition_failed hresult
  refine ⟨b, Expr.parse_of_advance rfl, hresult, hdefines, hunbound "x" hdefines (by decide),
    ?_, rfl⟩
  rcases hways with ⟨hrefused, -⟩ | ⟨-, -, -, hsame, -⟩
  · exact absurd ⟨"x", rfl, rfl, rfl, by decide⟩ hrefused
  · exact hsame

end SketchLisp

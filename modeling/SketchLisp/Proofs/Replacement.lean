import SketchLisp.Proofs.Descent
import SketchLisp.Proofs.Extension
import SketchLisp.Proofs.Forms
import SketchLisp.Proofs.Locality

/-!
A bound name may be replaced by its value.

A name that is bound stays bound to the same value while a program runs, and a node that it
heads gives this value without looking at its operands. So a program does the same if the
value stands in place of such nodes, wherever the program evaluates them: not where a name
is being defined, and not below a node that is a value already.

* `Expr.replace`: an expression with a value in place of a name;
* `Evaluation.SameWhere`: computations with the same outcome from all environments of some
  kind, which they do not leave, with one lemma for each way in which evaluations are put
  together;
* `Expr.sameWhere_node`, `Expr.sameWhere_define`: nodes whose operands evaluate in the same
  way do so too;
* `session_run_replace`: a program with a value in place of a name that is bound to it.
-/

namespace SketchLisp

/-! ### Replacing a name -/

namespace Expr

mutual

/-- An expression with a value in place of each node that a name heads, except within the
first operand of a definition and below a node that is not headed by a name. -/
def replace : Expr → String → Expr → Expr
  | node (.symbol n) es, name, v =>
    if n = name then v
    else if n = "define" then node (.symbol n) (replaceAfterFirst es name v)
    else node (.symbol n) (replaceEach es name v)
  | e, _, _ => e

/-- Expressions are changed one by one. -/
def replaceEach : List Expr → String → Expr → List Expr
  | [], _, _ => []
  | e :: es, name, v => e.replace name v :: replaceEach es name v

/-- The first expression is left as it is. -/
def replaceAfterFirst : List Expr → String → Expr → List Expr
  | [], _, _ => []
  | e :: es, name, v => e :: replaceEach es name v

end

variable {name n : String} {v : Expr}

lemma replaceEach_eq_map (es : List Expr) :
    replaceEach es name v = es.map fun e => e.replace name v := by
  induction es with
  | nil => rw [replaceEach, List.map_nil]
  | cons e es ih => rw [replaceEach, ih, List.map_cons]

lemma replace_self (es : List Expr) : (node (.symbol name) es).replace name v = v := by
  rw [replace, if_pos rfl]

lemma replace_define (h : "define" ≠ name) (es : List Expr) :
    (node (.symbol "define") es).replace name v
      = node (.symbol "define") (replaceAfterFirst es name v) := by
  rw [replace, if_neg h, if_pos rfl]

lemma replace_of_ne (h : n ≠ name) (hdefine : n ≠ "define") (es : List Expr) :
    (node (.symbol n) es).replace name v
      = node (.symbol n) (es.map fun e => e.replace name v) := by
  rw [replace, if_neg h, if_neg hdefine, replaceEach_eq_map]

lemma replace_of_head_ne_symbol {e : Expr} (h : e.head.kind ≠ .symbol) :
    e.replace name v = e := by
  obtain ⟨a, es⟩ := e
  cases a with
  | symbol n => exact absurd rfl h
  | nothing | boolean | number | point | line | arc => rfl

end Expr

/-! ### The same outcome -/

/-- Conditions on environments that still hold after names have been bound. -/
def Environment.Lasting (I : Environment → Prop) : Prop :=
  ∀ E F : Environment, E.Extends F → I E → I F

/-- A name that is bound stays bound to the same value. -/
lemma Environment.lasting_bound (name : String) (v : Expr) :
    Lasting fun E => E.meaning? name = some (.bound v) :=
  fun _ _ hEF hE => hEF.kept name (.bound v) hE

namespace Evaluation

variable {α β : Type} {I : Environment → Prop}

/-- Computations with the same outcome from all environments in which a condition holds;
it also holds in those that they leave. -/
structure SameWhere (I : Environment → Prop) (x y : Evaluation α) : Prop where
  run_eq : ∀ E, I E → x.run E = y.run E
  kept : ∀ E, I E → I (x.run E).environment

namespace SameWhere

lemma refl (hI : Environment.Lasting I) {x : Evaluation α} (hx : x.Within fun _ => True) :
    SameWhere I x x where
  run_eq _ _ := rfl
  kept E hE := hI E _ (hx.run_extends E) hE

lemma bind {x y : Evaluation α} {f g : α → Evaluation β} (hx : SameWhere I x y)
    (hf : ∀ a, SameWhere I (f a) (g a)) : SameWhere I (x >>= f) (y >>= g) where
  run_eq E hE := by
    rw [run_bind, run_bind, ← hx.run_eq E hE]
    cases hresult : (x.run E).result with
    | error r => rw [andThen_of_error hresult, andThen_of_error hresult]
    | ok a => rw [andThen_of_ok hresult, andThen_of_ok hresult, (hf a).run_eq _ (hx.kept E hE)]
  kept E hE := by
    rw [run_bind]
    cases hresult : (x.run E).result with
    | error r =>
        rw [andThen_of_error hresult]
        exact hx.kept E hE
    | ok a =>
        rw [andThen_of_ok hresult]
        exact (hf a).kept _ (hx.kept E hE)

variable (hI : Environment.Lasting I)

include hI

lemma each {ι : Type} {is : List ι} {x y : ι → Evaluation α}
    (h : ∀ i ∈ is, SameWhere I (x i) (y i)) :
    SameWhere I (each (is.map x)) (each (is.map y)) := by
  induction is with
  | nil => exact refl hI (.pure [])
  | cons i is ih =>
      refine (h i (by simp)).bind fun a => ?_
      exact (ih fun j hj => h j (by simp [hj])).bind fun as => refl hI (.pure (a :: as))

lemma branch {x x' y y' : Evaluation Expr} (hx : SameWhere I x x') (hy : SameWhere I y y')
    (condition : Atom) : SameWhere I (branch condition x y) (branch condition x' y') := by
  cases condition with
  | boolean b => cases b with
    | true => exact hx
    | false => exact hy
  | nothing | number | symbol | point | line | arc => exact refl hI (within_fail _)

lemma defineName (n : String) {x y : Evaluation Expr} (hx : SameWhere I x y) :
    SameWhere I (defineName n x) (defineName n y) := by
  rw [Evaluation.defineName, Evaluation.defineName]
  split_ifs
  · exact refl hI (within_fail _)
  · exact refl hI (within_fail _)
  · refine (refl hI (.meaning? trivial)).bind fun m => ?_
    split_ifs
    · exact refl hI (within_fail _)
    · exact hx.bind fun w =>
        (refl hI (.define trivial w)).bind fun _ => refl hI (.pure w)

end SameWhere

end Evaluation

open Evaluation

variable {I : Environment → Prop}

/-- A form other than a definition does the same with operands that evaluate in the same
way. -/
lemma SpecialForm.perform_sameWhere (hI : Environment.Lasting I) {form : SpecialForm}
    (hform : form ≠ .define) {f : Expr → Expr} {es : List Expr}
    (h : ∀ e ∈ es, SameWhere I e.eval (f e).eval) :
    SameWhere I (form.perform (es.map .ofExpr)) (form.perform ((es.map f).map .ofExpr)) := by
  cases hcount : form.arity.accepts es.length with
  | false =>
      rw [perform_of_not_accepts (by simpa using hcount),
        perform_of_not_accepts (by simpa using hcount)]
      simp only [List.length_map]
      exact .refl hI (within_fail _)
  | true =>
      cases form with
      | define => exact absurd rfl hform
      | conditional =>
          obtain ⟨c, t, e, rfl⟩ := List.length_eq_three.1 (eq_of_beq hcount)
          exact (h c (by simp)).bind fun w => (h t (by simp)).branch hI (h e (by simp)) w.head
      | sequence =>
          have hes : es ≠ [] := List.ne_nil_of_length_pos (of_decide_eq_true hcount)
          rw [perform_sequence hes, perform_sequence (by simpa using hes), List.map_map]
          exact (SameWhere.each hI h).bind fun _ => .refl hI (.pure _)
      | draw =>
          have hes : es ≠ [] := List.ne_nil_of_length_pos (of_decide_eq_true hcount)
          rw [perform_draw hes, perform_draw (by simpa using hes), List.map_map]
          refine (SameWhere.each hI fun e he => ?_).bind fun _ => .refl hI (.pure _)
          exact (h e he).bind fun w => .refl hI (.queue w.head)

/-! ### Nodes -/

namespace Expr

variable {name n : String} {v : Expr}

/-- A node that is not a definition evaluates in the same way if its operands do. -/
lemma sameWhere_node (hI : Environment.Lasting I) (hn : n ≠ "define") {f : Expr → Expr}
    {es : List Expr} (h : ∀ e ∈ es, SameWhere I e.eval (f e).eval) :
    SameWhere I (node (.symbol n) es).eval (node (.symbol n) (es.map f)).eval := by
  have hvalues : SameWhere I (each (es.map eval)) (each (es.map fun e => (f e).eval)) :=
    .each hI h
  rcases Environment.name_cases n with ⟨form, rfl⟩ | ⟨p, rfl⟩ | hbound
  · rw [eval_form, eval_form]
    exact SpecialForm.perform_sameWhere hI (fun hform => hn (by rw [hform]; rfl)) h
  · rw [eval_procedure, eval_procedure, List.map_map]
    exact hvalues.bind fun _ => .refl hI (.ofExcept _)
  -- whether the name is bound depends on the environment
  · have hwithin : (node (.symbol n) es).eval.Within fun _ => True :=
      eval_within _ fun _ _ => trivial
    refine ⟨fun E hE => ?_, fun E hE => hI E _ (hwithin.run_extends E) hE⟩
    cases hm : E.meaning? n with
    | some m =>
        obtain ⟨w, rfl⟩ := hbound E m hm
        rw [run_eval_of_bound hm, run_eval_of_bound hm]
    | none =>
        rw [run_eval_of_free hm, run_eval_of_free hm, List.map_map]
        split_ifs
        · rfl
        · exact (hvalues.bind fun _ => .refl hI (within_fail _)).run_eq E hE

/-- So does a definition, if what is defined is left as it is. -/
lemma sameWhere_define (hI : Environment.Lasting I) (t : Expr) {f : Expr → Expr}
    {es : List Expr} (h : ∀ e ∈ es, SameWhere I e.eval (f e).eval) :
    SameWhere I (node (.symbol "define") (t :: es)).eval
      (node (.symbol "define") (t :: es.map f)).eval := by
  have hform (ds : List Expr) : (node (.symbol "define") ds).eval
      = SpecialForm.define.perform (ds.map .ofExpr) := eval_form .define ds
  rw [hform, hform]
  cases hcount : SpecialForm.define.arity.accepts (t :: es).length with
  | false =>
      rw [SpecialForm.perform_of_not_accepts (by simpa using hcount),
        SpecialForm.perform_of_not_accepts (by simpa using hcount)]
      simp only [List.length_map, List.length_cons]
      exact .refl hI (within_fail _)
  | true =>
      obtain ⟨e, rfl⟩ := List.length_eq_one_iff.1 (Nat.succ.inj (eq_of_beq hcount))
      by_cases ht : ∃ name, t = leaf (.symbol name)
      · obtain ⟨name, rfl⟩ := ht
        exact (h e (by simp)).defineName hI name
      · have hne : ∀ name, t ≠ leaf (.symbol name) := fun name hname => ht ⟨name, hname⟩
        have hfail := SpecialForm.perform_define_of_ne hne
        simp only [List.map_cons, List.map_nil, hfail]
        exact .refl hI (within_fail _)

/-- **Replacing a name by what it is bound to** changes nothing while it is bound to that. -/
lemma eval_replace (hv : v.head.kind ≠ .symbol) (e : Expr) :
    SameWhere (fun E => E.meaning? name = some (.bound v)) e.eval (e.replace name v).eval := by
  have hI := Environment.lasting_bound name v
  have hself (e : Expr) : SameWhere (fun E => E.meaning? name = some (.bound v)) e.eval e.eval :=
    .refl hI (eval_within e fun _ _ => trivial)
  induction e using Expr.ind with
  | step a es ih =>
      cases a with
      | symbol n =>
          by_cases hname : n = name
          · subst hname
            rw [replace_self]
            refine ⟨fun E hE => ?_, (hself _).kept⟩
            rw [run_eval_of_bound hE, eval_of_head_ne_symbol hv, run_pure]
          by_cases hdefine : n = "define"
          · subst hdefine
            rw [replace_define hname]
            cases es with
            | nil => exact hself _
            | cons t es =>
                rw [replaceAfterFirst, replaceEach_eq_map]
                exact sameWhere_define hI t fun e he => ih e (List.mem_cons_of_mem t he)
          · rw [replace_of_ne hname hdefine]
            exact sameWhere_node hI hdefine ih
      | nothing | boolean | number | point | line | arc =>
          rw [replace_of_head_ne_symbol (by simp [Atom.kind])]
          exact hself _

end Expr

/-- **A bound name may be replaced by its value**: a program has the same result, and leaves
the same environment and the same queue, if every node headed by the name is replaced. -/
theorem session_run_replace {s : Session} {name : String} {v : Expr}
    (hname : s.environment.meaning? name = some (.bound v)) (hv : v.head.kind ≠ .symbol)
    (e : Expr) :
    (s.holding (e.replace name v)).run.1 = (s.holding e).run.1
    ∧ (s.holding (e.replace name v)).run.2.environment = (s.holding e).run.2.environment
    ∧ (s.holding (e.replace name v)).run.2.graphics = (s.holding e).run.2.graphics := by
  have hrun := (Expr.eval_replace hv e).run_eq s.environment hname
  rw [Session.run_holding, Session.run_holding, hrun]
  exact ⟨rfl, rfl, rfl⟩

/-- While `x` is bound to `(True x)`, it is replaced in two places of a program, but neither
below `False` nor where it is defined again, which fails. -/
theorem session_run_replace_group : ∃ (s : Session) (v e d : Expr),
    s.environment.meaning? "x" = some (.bound v) ∧ v.head.kind ≠ .symbol
    ∧ Expr.parse "(begin (draw (x z) (False x)) (define x (f x)))" = .ok e
    ∧ Expr.parse "(begin (draw (True x) (False x)) (define x (f (True x))))" = .ok d
    ∧ e.replace "x" v = d
    ∧ (s.holding d).run.1.result = .error (.redefinition "x")
    ∧ (s.holding d).run.2.graphics = [.boolean true, .boolean false] := by
  let v : Expr := .node (.boolean true) [.leaf (.symbol "x")]
  let s : Session := ⟨Environment.standard.extended "x" v rfl, none, []⟩
  let e : Expr := .node (.symbol "begin")
    [.node (.symbol "draw")
        [.node (.symbol "x") [.leaf (.symbol "z")], .node (.boolean false) [.leaf (.symbol "x")]],
      .node (.symbol "define") [.leaf (.symbol "x"), .node (.symbol "f") [.leaf (.symbol "x")]]]
  let d : Expr := .node (.symbol "begin")
    [.node (.symbol "draw") [v, .node (.boolean false) [.leaf (.symbol "x")]],
      .node (.symbol "define") [.leaf (.symbol "x"), .node (.symbol "f") [v]]]
  have hname : s.environment.meaning? "x" = some (.bound v) := rfl
  have hv : v.head.kind ≠ .symbol := by decide
  have hreplace : e.replace "x" v = d := rfl
  have hresult : (s.holding e).run.1.result = .error (.redefinition "x") := rfl
  have hgraphics : (s.holding e).run.2.graphics = [.boolean true, .boolean false] := rfl
  obtain ⟨hsame, -, hqueue⟩ := session_run_replace hname hv e
  rw [hreplace] at hsame hqueue
  exact ⟨s, v, e, d, hname, hv, Expr.parse_of_advance rfl, Expr.parse_of_advance rfl, hreplace,
    by rw [hsame, hresult], by rw [hqueue, hgraphics]⟩

end SketchLisp

import SketchLisp.Proofs.Extension
import SketchLisp.Proofs.Forms
import SketchLisp.Proofs.History
import SketchLisp.Proofs.Signature
import SketchLisp.Proofs.Values

/-!
Where errors come from.

An error is raised by one node of a program, after some of the program has run. What the
error says is true of that node, and of the environment in which its evaluation began or
ended. Since names keep their meaning and are bound to values only, it is also true of the
program as a whole, and of the environments before and after it.

* `Expr.Raises`: what makes a node raise an error by itself;
* `Expr.failsWith_node`: a node that fails raises the error, or one of its operands fails;
* `Expr.exists_raises`: some node of a failing expression raises the error;
* `EvalError.Explained`: what an error says about a program and the environments before
  and after it;
* `session_error_explained`: it is true in every session.
-/

namespace SketchLisp

open Evaluation

/-- What makes a node raise an error by itself. Its evaluation begins in `E` and fails
in `F`. -/
inductive Expr.Raises (E F : Environment) : Expr → EvalError → Prop
  | unbound {name : String} {es : List Expr} (hfree : E.meaning? name = none)
      (hspecial : Vocabulary.isSpecialCharacter name = false) :
      Raises E F (node (.symbol name) es) (.unboundName name)
  | special {name : String} {es : List Expr} (h : Vocabulary.isSpecialCharacter name = true) :
      Raises E F (node (.symbol name) es) (.specialCharacter name)
  | count {form : SpecialForm} {es : List Expr} (h : form.arity.accepts es.length = false) :
      Raises E F (node (.symbol form.name) es)
        (.wrongArgumentCount form.name form.arity es.length)
  | target {t e : Expr} (h : ∀ name, t ≠ leaf (.symbol name)) :
      Raises E F (node (.symbol "define") [t, e]) (.invalidDefineTarget t)
  | reserved {name : String} {e : Expr} (h : Vocabulary.isReserved name = true) :
      Raises E F (node (.symbol "define") [leaf (.symbol name), e]) (.reservedName name)
  | specialTarget {name : String} {e : Expr} (h : Vocabulary.isSpecialCharacter name = true) :
      Raises E F (node (.symbol "define") [leaf (.symbol name), e]) (.specialCharacter name)
  | redefinition {name : String} {e : Expr} (hreserved : Vocabulary.isReserved name = false)
      (hspecial : Vocabulary.isSpecialCharacter name = false)
      (hbound : (F.meaning? name).isSome) :
      Raises E F (node (.symbol "define") [leaf (.symbol name), e]) (.redefinition name)
  | condition {c t f : Expr} {a : Atom} (hboolean : a.kind ≠ .boolean)
      (hsymbol : a.kind ≠ .symbol) :
      Raises E F (node (.symbol "if") [c, t, f]) (.nonBooleanCondition a)
  | procedure {p : Procedure} {es : List Expr} {operands : List Atom} {r : EvalError}
      (hlength : operands.length = es.length) (hsymbol : ∀ a ∈ operands, a.kind ≠ .symbol)
      (h : p.apply operands = .error r) : Raises E F (node (.symbol p.name) es) r

/-- Whether one of some expressions fails, evaluated from an environment that extends `E`
and binds names to values only. -/
def Expr.OneFails (es : List Expr) (E : Environment) (r : EvalError) (F : Environment) : Prop :=
  ∃ e ∈ es, ∃ G : Environment, E.Extends G ∧ G.ValueClosed ∧ e.eval.FailsWith G r F

/-! ### Operands -/

namespace Evaluation

variable {α : Type} {P : α → Prop} {x : Evaluation α} {E F : Environment} {r : EvalError}

/-- Computations that extend the environment, keep names bound to values, and give
results as asked for. -/
structure Steady (P : α → Prop) (x : Evaluation α) : Prop where
  within : x.Within fun _ => True
  keeps : x.Keeps Contract.values P

lemma Steady.gives (h : Steady P x) (hE : E.ValueClosed) {a : α} (ha : x.Gives E a F) :
    E.Extends F ∧ F.ValueClosed ∧ P a := by
  obtain ⟨hresult, rfl⟩ := ha
  have hrespects := h.keeps E hE
  exact ⟨h.within.run_extends E, hrespects.environment, hrespects.value a hresult⟩

lemma steady_eval (e : Expr) : Steady Expr.IsValue e.eval where
  within := e.eval_within fun _ _ => trivial
  keeps := e.eval_of_closed Contract.sound_values.closed fun _ _ => trivial

/-- The same computation for each of some expressions, one after another. -/
lemma Steady.each_map {f : Expr → Evaluation α} (h : ∀ e, Steady P (f e)) (es : List Expr) :
    Steady (fun vs => ∀ v ∈ vs, P v) (each (es.map f)) where
  within := by
    refine within_each fun x hx => ?_
    obtain ⟨e, -, rfl⟩ := List.mem_map.1 hx
    exact (h e).within
  keeps := by
    refine Contract.sound_values.closed.each fun x hx => ?_
    obtain ⟨e, -, rfl⟩ := List.mem_map.1 hx
    exact (h e).keeps

lemma steady_draw (e : Expr) : Steady (fun _ => True) (draw e) where
  within := .bind (steady_eval e).within fun v => .queue v.head
  keeps := keeps_bind (steady_eval e).keeps fun _ hv => keeps_queue (Contract.sound_values.queue hv)

/-- Only the evaluation can fail. -/
lemma FailsWith.eval_of_draw {e : Expr} (h : (draw e).FailsWith E r F) :
    e.eval.FailsWith E r F := by
  rcases h.bind with he | ⟨v, G, -, hqueue⟩
  · exact he
  · cases hqueue.result

/-- The first failure of a sequence is that of an expression, if each computation fails
only where its expression does. -/
lemma FailsWith.oneFails {f : Expr → Evaluation α} (hsteady : ∀ e, Steady P (f e))
    (hfails : ∀ {e E F}, (f e).FailsWith E r F → e.eval.FailsWith E r F) {es : List Expr}
    (hE : E.ValueClosed) (h : (Evaluation.each (es.map f)).FailsWith E r F) :
    Expr.OneFails es E r F := by
  obtain ⟨before, x, after, vs, G, hparts, hvs, hx⟩ := h.each
  obtain ⟨es₁, es₂, rfl, rfl, hrest⟩ := List.map_eq_append_iff.1 hparts
  obtain ⟨e, es₃, rfl, rfl, -⟩ := List.map_eq_cons_iff.1 hrest
  obtain ⟨hextends, hclosed, -⟩ := (Steady.each_map hsteady es₁).gives hE hvs
  exact ⟨e, by simp, G, hextends, hclosed, hfails hx⟩

end Evaluation

namespace Expr

variable {E F : Environment} {r : EvalError}

lemma oneFails_eval {es : List Expr} (hE : E.ValueClosed)
    (h : (each (es.map eval)).FailsWith E r F) : OneFails es E r F :=
  h.oneFails steady_eval (fun h => h) hE

lemma OneFails.of_eval {e : Expr} {es : List Expr} (he : e ∈ es) (hE : E.ValueClosed)
    (h : e.eval.FailsWith E r F) : OneFails es E r F :=
  ⟨e, he, E, .refl E, hE, h⟩

/-! ### Forms -/

/-- A definition fails for its name, before or after its operand is evaluated, or with its
operand. -/
lemma failsWith_defineName {name : String} {e : Expr}
    (h : (defineName name e.eval).FailsWith E r F) :
    e.eval.FailsWith E r F ∨ Raises E F (node (.symbol "define") [leaf (.symbol name), e]) r := by
  by_cases hreserved : Vocabulary.isReserved name
  · rw [defineName, if_pos hreserved] at h
    obtain ⟨rfl, -⟩ := failsWith_fail.1 h
    exact .inr (.reserved hreserved)
  by_cases hspecial : Vocabulary.isSpecialCharacter name
  · rw [defineName, if_neg hreserved, if_pos hspecial] at h
    obtain ⟨rfl, -⟩ := failsWith_fail.1 h
    exact .inr (.specialTarget hspecial)
  rw [Bool.not_eq_true] at hreserved hspecial
  rw [defineName_eq hreserved hspecial] at h
  have hrest := h.lookup
  split_ifs at hrest with hbound
  · obtain ⟨rfl, rfl⟩ := failsWith_fail.1 hrest
    exact .inr (.redefinition hreserved hspecial hbound)
  rcases hrest.bind with he | ⟨v, G, -, hdefine⟩
  · exact .inl he
  -- the name was free before, so the operand has bound it
  · obtain ⟨rfl, hbound⟩ := (FailsWith.of_bind_pure (g := fun _ => v) hdefine).define
    exact .inr (.redefinition hreserved hspecial hbound)

lemma failsWith_define {t e : Expr} (hE : E.ValueClosed)
    (h : (SpecialForm.define.perform [⟨t, t.eval⟩, ⟨e, e.eval⟩]).FailsWith E r F) :
    OneFails [t, e] E r F ∨ Raises E F (node (.symbol "define") [t, e]) r := by
  rw [SpecialForm.perform] at h
  split at h
  · next name hname =>
      obtain rfl : t = leaf (.symbol name) := hname
      exact (failsWith_defineName h).imp_left (.of_eval (by simp) hE)
  · next hname =>
      obtain ⟨rfl, -⟩ := failsWith_fail.1 h
      exact .inr (.target hname)

lemma failsWith_conditional {c t f : Expr} (hE : E.ValueClosed)
    (h : (SpecialForm.conditional.perform
      [⟨c, c.eval⟩, ⟨t, t.eval⟩, ⟨f, f.eval⟩]).FailsWith E r F) :
    OneFails [c, t, f] E r F ∨ Raises E F (node (.symbol "if") [c, t, f]) r := by
  rcases FailsWith.bind h with hc | ⟨v, G, hv, hbranch⟩
  · exact .inl (.of_eval (by simp) hE hc)
  · obtain ⟨hextends, hclosed, hvalue⟩ := (steady_eval c).gives hE hv
    rw [branch.eq_def] at hbranch
    split at hbranch
    · exact .inl ⟨t, by simp, G, hextends, hclosed, hbranch⟩
    · exact .inl ⟨f, by simp, G, hextends, hclosed, hbranch⟩
    · next htrue hfalse =>
        obtain ⟨rfl, rfl⟩ := failsWith_fail.1 hbranch
        refine .inr (.condition (fun hkind => ?_) hvalue)
        obtain ⟨b, hb⟩ := Content.lawful_boolean.kind_eq_iff.1 hkind
        cases b with
        | true => exact htrue hb
        | false => exact hfalse hb

lemma failsWith_sequence {e : Expr} {es : List Expr} (hE : E.ValueClosed)
    (h : (SpecialForm.sequence.perform
      ((e :: es).map fun e => ⟨e, e.eval⟩)).FailsWith E r F) : OneFails (e :: es) E r F := by
  rw [List.map_cons, SpecialForm.perform, last_eq_each (.leaf .nothing), List.map_map] at h
  exact oneFails_eval hE h.of_bind_pure

lemma failsWith_draw {e : Expr} {es : List Expr} (hE : E.ValueClosed)
    (h : (SpecialForm.draw.perform
      ((e :: es).map fun e => ⟨e, e.eval⟩)).FailsWith E r F) : OneFails (e :: es) E r F := by
  have hdraw := FailsWith.of_bind_pure (g := fun _ => leaf .nothing) h
  rw [← List.map_cons (f := fun e => (⟨e, e.eval⟩ : Operand)), List.map_map, drawEach_eq_each,
    List.map_map] at hdraw
  exact hdraw.of_bind_pure.oneFails steady_draw FailsWith.eval_of_draw hE

lemma failsWith_perform (form : SpecialForm) {es : List Expr} (hE : E.ValueClosed)
    (h : (form.perform (es.map fun e => ⟨e, e.eval⟩)).FailsWith E r F) :
    OneFails es E r F ∨ Raises E F (node (.symbol form.name) es) r := by
  cases hcount : form.arity.accepts es.length with
  | false =>
      rw [SpecialForm.perform_of_not_accepts (by simpa using hcount), List.length_map] at h
      obtain ⟨rfl, -⟩ := failsWith_fail.1 h
      exact .inr (.count hcount)
  | true =>
      cases form with
      | define =>
          obtain ⟨t, e, rfl⟩ := List.length_eq_two.1 (eq_of_beq hcount)
          exact failsWith_define hE h
      | conditional =>
          obtain ⟨c, t, f, rfl⟩ := List.length_eq_three.1 (eq_of_beq hcount)
          exact failsWith_conditional hE h
      | sequence =>
          obtain ⟨e, es, rfl⟩ := List.exists_cons_of_length_pos (of_decide_eq_true hcount)
          exact .inl (failsWith_sequence hE h)
      | draw =>
          obtain ⟨e, es, rfl⟩ := List.exists_cons_of_length_pos (of_decide_eq_true hcount)
          exact .inl (failsWith_draw hE h)

/-! ### Expressions -/

/-- **One node**: if it fails, one of its operands does, or it raises the error itself. -/
lemma failsWith_node {name : String} {es : List Expr} (hE : E.ValueClosed)
    (h : (node (.symbol name) es).eval.FailsWith E r F) :
    OneFails es E r F ∨ Raises E F (node (.symbol name) es) r := by
  rw [eval_symbol, evalNamed_eq] at h
  have hrest := h.lookup
  rw [List.map_map] at hrest
  split at hrest
  · exact absurd hrest not_failsWith_pure
  · next form hmeaning =>
      rcases Environment.native_or_bound hmeaning with hnative | ⟨v, hv⟩
      · cases hnative
        exact failsWith_perform form hE hrest
      · cases hv
  · next p hmeaning =>
      rcases hrest.bind with heach | ⟨vs, G, hvs, happly⟩
      · exact .inl (oneFails_eval hE heach)
      rcases Environment.native_or_bound hmeaning with hnative | ⟨v, hv⟩
      · cases hnative
        obtain ⟨-, -, hvalues⟩ := (Steady.each_map steady_eval es).gives hE hvs
        have herror : p.apply (vs.map head) = .error r := happly.result
        refine .inr (.procedure ?_ (fun a ha => ?_) herror)
        · rw [List.length_map, hvs.length_each, List.length_map]
        · obtain ⟨v, hv, rfl⟩ := List.mem_map.1 ha
          exact hvalues v hv
      · cases hv
  · next hmeaning =>
      split_ifs at hrest with hspecial
      · obtain ⟨rfl, -⟩ := failsWith_fail.1 hrest
        exact .inr (.special hspecial)
      rcases hrest.bind with heach | ⟨vs, G, -, hfail⟩
      · exact .inl (oneFails_eval hE heach)
      -- the operands may have bound the name, but it was free when the node was reached
      · obtain ⟨rfl, -⟩ := failsWith_fail.1 hfail
        exact .inr (.unbound hmeaning (by simpa using hspecial))

/-- **Every error is raised by a node**, from an environment that extends the one at the
start. -/
theorem exists_raises (e : Expr) {E : Environment} (hE : E.ValueClosed)
    (h : e.eval.FailsWith E r F) :
    ∃ n ∈ e.nodes, ∃ G : Environment, E.Extends G ∧ Raises G F n r := by
  induction e using Expr.ind generalizing E with
  | step a es ih =>
      cases a with
      | symbol name =>
          rcases failsWith_node hE h with ⟨e, he, G, hextends, hG, hfails⟩ | hraises
          · obtain ⟨n, hn, H, hH, hraises⟩ := ih e he hG hfails
            exact ⟨n, mem_nodes_of_operand he hn, H, hextends.trans hH, hraises⟩
          · exact ⟨_, mem_nodes_self _, E, .refl E, hraises⟩
      | nothing | boolean | number | point | line | arc =>
          rw [eval_of_head_ne_symbol (by simp [Atom.kind])] at h
          exact absurd h not_failsWith_pure

end Expr

/-! ### What errors say -/

/-- Whether a name is that of a form or a procedure with a given arity. -/
def HasArity (name : String) (arity : Arity) : Prop :=
  (∃ form : SpecialForm, form.name = name ∧ form.arity = arity)
  ∨ ∃ p : Procedure, p.name = name ∧ p.signature.arity = arity

/-- What an error says about a program `e` that was run in `E` and has left `F`. -/
def EvalError.Explained (e : Expr) (E F : Environment) : EvalError → Prop
  | wrongArgumentCount name expected actual =>
    HasArity name expected ∧ expected.accepts actual = false
    ∧ ∃ es, .node (.symbol name) es ∈ e.nodes ∧ es.length = actual
  | typeMismatch name position expected actual =>
    ∃ (p : Procedure) (es : List Expr), p.name = name ∧ .node (.symbol name) es ∈ e.nodes
      ∧ p.signature.arity.accepts es.length = true ∧ 1 ≤ position ∧ position ≤ es.length
      ∧ expected = p.signature.operand (position - 1) ∧ actual.kind ≠ expected
      ∧ actual.kind ≠ .symbol
  | unboundName name =>
    e.Mentions name ∧ Vocabulary.isReserved name = false
    ∧ Vocabulary.isSpecialCharacter name = false ∧ E.meaning? name = none
  | redefinition name =>
    e.Defines name ∧ Vocabulary.isReserved name = false
    ∧ Vocabulary.isSpecialCharacter name = false ∧ ∃ v, F.meaning? name = some (.bound v)
  | reservedName name => Vocabulary.isReserved name = true ∧ e.Defines name
  | specialCharacter name => Vocabulary.isSpecialCharacter name = true ∧ e.Mentions name
  | invalidDefineTarget target =>
    (∃ d, .node (.symbol "define") [target, d] ∈ e.nodes)
    ∧ ∀ name, target ≠ .leaf (.symbol name)
  | nonBooleanCondition value =>
    (∃ c t f, .node (.symbol "if") [c, t, f] ∈ e.nodes)
    ∧ value.kind ≠ .boolean ∧ value.kind ≠ .symbol
  | noProgram => False

/-- What a procedure says about its operands. -/
lemma Expr.explained_of_apply {e : Expr} {E F : Environment} {p : Procedure} {es : List Expr}
    (hn : node (.symbol p.name) es ∈ e.nodes) {operands : List Atom}
    (hlength : operands.length = es.length) (hsymbol : ∀ a ∈ operands, a.kind ≠ .symbol)
    {r : EvalError} (h : p.apply operands = .error r) : r.Explained e E F := by
  have hfollows := p.apply_follows operands
  rw [h] at hfollows
  cases hfollows with
  | count hcount => exact ⟨.inr ⟨p, rfl, rfl⟩, hcount, es, hn, hlength.symm⟩
  | @misfit hcount i a hmisfit =>
      have hi : i < operands.length := (List.getElem?_eq_some_iff.1 hmisfit.operand).1
      refine ⟨p, es, rfl, hn, by rwa [← hlength], by omega, by omega, rfl, hmisfit.wrong, ?_⟩
      exact hsymbol a (List.mem_of_getElem? hmisfit.operand)

/-- What a node raises is true of a program of which it is a node. -/
lemma Expr.Raises.explained {e n : Expr} {E F G : Environment} {r : EvalError}
    (h : Raises G F n r) (hn : n ∈ e.nodes) (hG : E.Extends G) : r.Explained e E F := by
  cases h with
  | @unbound name es hfree hspecial =>
      refine ⟨⟨_, hn, rfl⟩, Environment.isReserved_of_meaning?_eq_none hfree, hspecial, ?_⟩
      -- what stands for something at the start still does when the node is evaluated
      cases hE : E.meaning? name with
      | none => rfl
      | some m =>
          rw [hG.kept name m hE] at hfree
          cases hfree
  | special h => exact ⟨h, _, hn, rfl⟩
  | count h => exact ⟨.inl ⟨_, rfl, rfl⟩, h, _, hn, rfl⟩
  | target h => exact ⟨⟨_, hn⟩, h⟩
  | reserved h => exact ⟨h, _, hn⟩
  | specialTarget h => exact ⟨h, Defines.mentions ⟨_, hn⟩⟩
  | redefinition hreserved hspecial hbound =>
      obtain ⟨m, hm⟩ := Option.isSome_iff_exists.1 hbound
      rcases Environment.native_or_bound hm with hnative | ⟨v, rfl⟩
      · rw [Store.isReserved_of_native hnative] at hreserved
        cases hreserved
      · exact ⟨⟨_, hn⟩, hreserved, hspecial, v, hm⟩
  | condition hboolean hsymbol => exact ⟨⟨_, _, _, hn⟩, hboolean, hsymbol⟩
  | procedure hlength hsymbol h => exact explained_of_apply hn hlength hsymbol h

/-! ### Sessions -/

/-- In every session names are bound to values only. -/
lemma Session.valueClosed_after (requests : List Request) :
    (after requests).environment.ValueClosed := by
  refine after_induction (I := fun s => s.environment.ValueClosed)
    Environment.valueClosed_standard (fun s request hs => ?_) requests
  rw [handle_environment]
  split
  · cases hprogram : s.program with
    | none =>
        rw [run, hprogram]
        exact hs
    | some e =>
        rw [run_of_program hprogram]
        exact (Contract.sound_values.eval (e := e) (fun _ _ => trivial) hs).environment
  · exact Environment.valueClosed_standard
  · exact hs

/-- **Errors tell the truth**: if a program fails in an environment that a session has come
to, what the error says is true of the program, of this environment, and of the one that
the program leaves. -/
theorem session_error_explained {requests : List Session.Request} {s : Session} {e : Expr}
    {r : EvalError} (henvironment : s.environment = (Session.after requests).environment)
    (hprogram : s.program = some e) (h : s.run.1.result = .error r) :
    r.Explained e s.environment s.run.2.environment := by
  have hclosed : s.environment.ValueClosed := henvironment ▸ Session.valueClosed_after requests
  rw [Session.run_of_program hprogram] at h ⊢
  obtain ⟨n, hn, G, hG, hraises⟩ := e.exists_raises hclosed ⟨h, rfl⟩
  exact hraises.explained hn hG

/-- After `(define y True)`, the program `(f (define f y))` fails since `f` stood for nothing
when it began, although `f` is bound when it ends. -/
theorem session_error_explained_bound_too_late : ∃ (requests : List Session.Request)
    (s : Session) (e : Expr), s.environment = (Session.after requests).environment
    ∧ s.environment.contains "y" ∧ s.program = some e
    ∧ s.run.1.result = .error (.unboundName "f") ∧ s.run.2.environment.contains "f"
    ∧ (EvalError.unboundName "f").Explained e s.environment s.run.2.environment := by
  let definition : Expr :=
    .node (.symbol "define") [.leaf (.symbol "y"), .leaf (.boolean true)]
  let e : Expr := .node (.symbol "f")
    [.node (.symbol "define") [.leaf (.symbol "f"), .leaf (.symbol "y")]]
  have hparse : Expr.parse "(define y True)" = .ok definition := Expr.parse_of_advance rfl
  have hload : (Session.fresh.load "(define y True)").2 = ⟨.standard, some definition, []⟩ := by
    rw [Session.load, hparse]
    rfl
  let s : Session := ⟨Environment.standard.extended "y" (.leaf (.boolean true)) rfl, some e, []⟩
  have henvironment : s.environment
      = (Session.after [.load "(define y True)", .run]).environment := by
    simp only [Session.after, List.foldl_cons, List.foldl_nil, Session.handle, hload]
    rfl
  exact ⟨_, s, e, henvironment, rfl, rfl, rfl, rfl, session_error_explained henvironment rfl rfl⟩

end SketchLisp

import Mathlib.Data.List.Basic
import Mathlib.Logic.Equiv.Basic
import SketchLisp.Proofs.Descent
import SketchLisp.Proofs.Forms
import SketchLisp.Proofs.Locality

/-!
Variable names are interchangeable.

No step of an evaluation looks into a name: names are looked up, bound and shown, and told
apart only from each other, from the names of the language and from the special characters.
So a program with other names for its variables does the same, with the other names.

* `Renaming`: a change of names that keeps different names different and leaves those of the
  language alone;
* `Environment.meaning?_rename`: a renamed environment holds the renamed entries;
* `Procedure.apply_rename`: procedures do not look into names;
* `Evaluation.RenamesTo`: computations that do the same up to a renaming, with one lemma for
  each way in which evaluations are put together;
* `Expr.eval_renames`: evaluating a renamed expression;
* `session_run_rename`: running a renamed program in a renamed session.
-/

namespace SketchLisp

/-- A change of names, for instance a bijection, that keeps different names different and
moves neither a name of the language nor a special character. -/
structure Renaming where
  name : String → String
  injective : Function.Injective name
  reserved : ∀ n, Vocabulary.isReserved n = true → name n = n
  special : ∀ n, Vocabulary.isSpecialCharacter n = true → name n = n

/-! ### What is renamed -/

section Rename

variable (ρ : Renaming)

/-- Only names are renamed. -/
def Atom.rename : Atom → Atom
  | symbol n => symbol (ρ.name n)
  | nothing => nothing
  | boolean b => boolean b
  | number x => number x
  | point p => point p
  | line l => line l
  | arc a => arc a

mutual

/-- All heads are renamed, also those that are never evaluated. -/
def Expr.rename : Expr → Expr
  | node a es => node (a.rename ρ) (renameEach es)

/-- Expressions are renamed one by one. -/
def Expr.renameEach : List Expr → List Expr
  | [] => []
  | e :: es => e.rename :: renameEach es

end

/-- What a name is bound to is renamed. -/
def Meaning.rename : Meaning → Meaning
  | keyword form => keyword form
  | procedure p => procedure p
  | bound v => bound (v.rename ρ)

/-- An error is renamed in all that it tells. -/
def EvalError.rename : EvalError → EvalError
  | wrongArgumentCount n expected actual => wrongArgumentCount (ρ.name n) expected actual
  | typeMismatch n position expected actual =>
    typeMismatch (ρ.name n) position expected (actual.rename ρ)
  | unboundName n => unboundName (ρ.name n)
  | redefinition n => redefinition (ρ.name n)
  | reservedName n => reservedName (ρ.name n)
  | specialCharacter n => specialCharacter (ρ.name n)
  | invalidDefineTarget target => invalidDefineTarget (target.rename ρ)
  | nonBooleanCondition value => nonBooleanCondition (value.rename ρ)
  | noProgram => noProgram

def Effect.rename : Effect → Effect
  | bound n v => bound (ρ.name n) (v.rename ρ)
  | queued a => queued (a.rename ρ)

/-- All entries are renamed, with what they stand for. -/
def Store.rename (s : Store) : Store := ⟨s.entries.map fun d => (ρ.name d.1, d.2.rename ρ)⟩

/-- A result is renamed by renaming its error, or its value by `f`. -/
def renameResult {α : Type} (f : α → α) : Except EvalError α → Except EvalError α
  | .ok a => .ok (f a)
  | .error r => .error (r.rename ρ)

end Rename

variable {ρ : Renaming}

lemma Atom.kind_rename (a : Atom) : (a.rename ρ).kind = a.kind := by
  cases a <;> rfl

lemma Atom.rename_of_kind_ne_symbol {a : Atom} (h : a.kind ≠ .symbol) : a.rename ρ = a := by
  cases a with
  | symbol n => exact absurd rfl h
  | nothing | boolean | number | point | line | arc => rfl

lemma Expr.rename_node (a : Atom) (es : List Expr) :
    (node a es).rename ρ = node (a.rename ρ) (es.map (Expr.rename ρ)) := by
  have heach : renameEach ρ es = es.map (Expr.rename ρ) := by
    induction es with
    | nil => rw [renameEach, List.map_nil]
    | cons e es ih => rw [renameEach, ih, List.map_cons]
  rw [rename, heach]

lemma Expr.rename_leaf (a : Atom) : (leaf a).rename ρ = leaf (a.rename ρ) :=
  rename_node a []

lemma Expr.head_rename (e : Expr) : (e.rename ρ).head = e.head.rename ρ := by
  cases e
  rw [rename_node, head_node, head_node]

/-- Only a name is renamed to a name. -/
lemma Expr.exists_of_rename_eq_leaf {e : Expr} {m : String}
    (h : e.rename ρ = leaf (.symbol m)) : ∃ n, e = leaf (.symbol n) := by
  obtain ⟨a, es⟩ := e
  rw [rename_node] at h
  obtain ⟨ha, hes⟩ := node.inj h
  obtain rfl := List.map_eq_nil_iff.1 hes
  cases a with
  | symbol n => exact ⟨n, rfl⟩
  | nothing | boolean | number | point | line | arc => cases ha

/-! ### Names -/

namespace Renaming

/-- A property of names that are not moved is not changed by a renaming, since no other name
is moved to one of them. -/
lemma apply_name {p : String → Bool} (h : ∀ n, p n = true → ρ.name n = n) (n : String) :
    p (ρ.name n) = p n := by
  cases hn : p n with
  | true => rw [h n hn, hn]
  | false =>
      by_contra hmoved
      rw [Bool.not_eq_false] at hmoved
      have hfixed : ρ.name n = n := ρ.injective (h _ hmoved)
      rw [hfixed, hn] at hmoved
      cases hmoved

lemma isReserved_name (n : String) : Vocabulary.isReserved (ρ.name n) = Vocabulary.isReserved n :=
  apply_name ρ.reserved n

lemma isSpecialCharacter_name (n : String) :
    Vocabulary.isSpecialCharacter (ρ.name n) = Vocabulary.isSpecialCharacter n :=
  apply_name ρ.special n

/-- Names of the language are not moved. -/
lemma name_of_native {n : String} {m : Meaning} (h : Store.Native n m) : ρ.name n = n :=
  ρ.reserved n (Store.isReserved_of_native h)

/-- Two names that programs can define may be exchanged. -/
def swap (m n : String)
    (hreserved : Vocabulary.isReserved m = false ∧ Vocabulary.isReserved n = false)
    (hspecial : Vocabulary.isSpecialCharacter m = false ∧ Vocabulary.isSpecialCharacter n = false) :
    Renaming where
  name := Equiv.swap m n
  injective := (Equiv.swap m n).injective
  reserved k hk := by
    refine Equiv.swap_apply_of_ne_of_ne ?_ ?_ <;> rintro rfl
    · exact absurd hk (by simp [hreserved.1])
    · exact absurd hk (by simp [hreserved.2])
  special k hk := by
    refine Equiv.swap_apply_of_ne_of_ne ?_ ?_ <;> rintro rfl
    · exact absurd hk (by simp [hspecial.1])
    · exact absurd hk (by simp [hspecial.2])

end Renaming

/-! ### Stores and environments -/

namespace Store

lemma Native.rename_eq {n : String} {m : Meaning} (h : Native n m) : m.rename ρ = m := by
  cases h with
  | keyword form => rfl
  | procedure p => rfl
  | pi => rw [Meaning.rename, Expr.rename_leaf, Atom.rename]

lemma meaning?_rename (s : Store) (n : String) :
    (s.rename ρ).meaning? (ρ.name n) = (s.meaning? n).map (Meaning.rename ρ) := by
  obtain ⟨entries⟩ := s
  rw [meaning?, meaning?, rename]
  induction entries with
  | nil => rfl
  | cons d rest ih =>
      obtain ⟨m, v⟩ := d
      have hsame : (ρ.name n == ρ.name m) = (n == m) := by
        rw [Bool.eq_iff_iff, beq_iff_eq, beq_iff_eq, ρ.injective.eq_iff]
      rw [List.map_cons, List.lookup_cons, List.lookup_cons, hsame]
      cases n == m with
      | true => rfl
      | false => exact ih

/-- The entries of the language are not changed. -/
lemma rename_standard : standard.rename ρ = standard := by
  have hentries : standard.entries.map (fun d => (ρ.name d.1, d.2.rename ρ))
      = standard.entries.map id := by
    refine List.map_congr_left fun d hd => ?_
    have hnative := native_of_mem_entries hd
    rw [ρ.name_of_native hnative, hnative.rename_eq, id]
  rw [rename, hentries, List.map_id]

/-- A renamed store comes about by the renamed definitions. -/
lemma Derived.rename {s : Store} (hs : s.Derived) : (s.rename ρ).Derived := by
  induction hs with
  | standard =>
      rw [rename_standard]
      exact .standard
  | @define s t n v hs hdefine ih =>
      obtain ⟨hfree, rfl⟩ := define_eq_ok_iff.1 hdefine
      refine ih.define (define_eq_ok_iff.2 ⟨?_, rfl⟩)
      rw [meaning?_rename, hfree, Option.map_none]

end Store

/-- The store of an environment is renamed. -/
def Environment.rename (ρ : Renaming) (E : Environment) : Environment :=
  ⟨E.store.rename ρ, E.derived.rename⟩

namespace Environment

/-- **A renamed environment holds the renamed entries**, those of the language included. -/
lemma meaning?_rename (E : Environment) (n : String) :
    (E.rename ρ).meaning? (ρ.name n) = (E.meaning? n).map (Meaning.rename ρ) :=
  E.store.meaning?_rename n

lemma rename_extended {E : Environment} {n : String} (h : E.meaning? n = none)
    (h' : (E.rename ρ).meaning? (ρ.name n) = none) (v : Expr) :
    (E.extended n v h).rename ρ = (E.rename ρ).extended (ρ.name n) (v.rename ρ) h' := rfl

end Environment

section Rename

variable (ρ : Renaming)

def Outcome.rename {α : Type} (f : α → α) (o : Outcome α) : Outcome α :=
  ⟨renameResult ρ f o.result, o.environment.rename ρ, o.effects.map (Effect.rename ρ)⟩

/-- The environment, the program and the queue of a session are renamed. -/
def Session.rename (s : Session) : Session :=
  ⟨s.environment.rename ρ, s.program.map (Expr.rename ρ), s.graphics.map (Atom.rename ρ)⟩

def Session.Report.rename (r : Report) : Report :=
  ⟨renameResult ρ (Expr.rename ρ) r.result, r.effects.map (Effect.rename ρ)⟩

end Rename

/-! ### Procedures -/

namespace Procedure

lemma map_rename_eq_self {operands : List Atom} (h : ∀ a ∈ operands, a.kind ≠ .symbol) :
    operands.map (Atom.rename ρ) = operands := by
  calc operands.map (Atom.rename ρ) = operands.map id :=
        List.map_congr_left fun a ha => Atom.rename_of_kind_ne_symbol (h a ha)
    _ = operands := List.map_id operands

/-- The first operand of a wrong kind is the same one after renaming. -/
lemma firstMisfit_rename {σ : Signature} {operands : List Atom} {i : Nat} {a : Atom}
    (h : σ.FirstMisfit operands i a) :
    σ.FirstMisfit (operands.map (Atom.rename ρ)) i (a.rename ρ) where
  operand := by rw [List.getElem?_map, h.operand, Option.map_some]
  wrong := by
    rw [Atom.kind_rename]
    exact h.wrong
  before k b hk hb := by
    rw [List.getElem?_map] at hb
    obtain ⟨c, hc, rfl⟩ := Option.map_eq_some_iff.1 hb
    rw [Atom.kind_rename]
    exact h.before k c hk hc

/-- **Procedures do not look into names**: they have a value on other atoms only, and an
error shows the name that it is about. -/
lemma apply_rename (p : Procedure) (operands : List Atom) :
    p.apply (operands.map (Atom.rename ρ))
      = renameResult ρ (Expr.rename ρ) (p.apply operands) := by
  have hname : ρ.name p.name = p.name := ρ.name_of_native (.procedure p)
  have hrenamed := p.apply_follows (operands.map (Atom.rename ρ))
  have hfollows := p.apply_follows operands
  generalize hresult : p.apply operands = result at hfollows ⊢
  cases hfollows with
  | count hcount =>
      rw [hrenamed.of_not_accepts (by simpa using hcount)]
      simp [renameResult, EvalError.rename, hname]
  | misfit hcount hmisfit =>
      rw [hrenamed.of_firstMisfit (by simpa using hcount) (firstMisfit_rename hmisfit)]
      simp [renameResult, EvalError.rename, hname]
  | value _ hfits hkind _ =>
      have hkinds : ∀ b ∈ operands, b.kind ≠ .symbol := fun b hb => by
        obtain ⟨i, hi⟩ := List.mem_iff_getElem?.1 hb
        rw [hfits i b hi]
        exact p.signature_ne_symbol.1 i
      have hvalue := Atom.rename_of_kind_ne_symbol (ρ := ρ) (hkind ▸ p.signature_ne_symbol.2)
      rw [map_rename_eq_self hkinds, hresult, renameResult, Expr.rename_leaf, hvalue]

end Procedure

/-! ### Computations -/

namespace Evaluation

variable {α β : Type} {f : α → α} {g : β → β}

/-- In a renamed environment, the second computation has the renamed outcome of the first;
values are renamed by `f`. -/
def RenamesTo (ρ : Renaming) (f : α → α) (x y : Evaluation α) : Prop :=
  ∀ E : Environment, y.run (E.rename ρ) = (x.run E).rename ρ f

lemma renamesTo_pure (a : α) : RenamesTo ρ f (pure a) (pure (f a)) :=
  fun _ => rfl

lemma renamesTo_ofExcept (result : Except EvalError α) :
    RenamesTo ρ f (ofExcept result) (ofExcept (renameResult ρ f result)) :=
  fun _ => rfl

lemma renamesTo_fail (r : EvalError) : RenamesTo ρ f (fail r) (fail (r.rename ρ)) :=
  fun _ => rfl

lemma renamesTo_queue (a : Atom) : RenamesTo ρ id (queue a) (queue (a.rename ρ)) :=
  fun _ => rfl

lemma renamesTo_bind {x y : Evaluation α} {k l : α → Evaluation β} (hx : RenamesTo ρ f x y)
    (hk : ∀ a, RenamesTo ρ g (k a) (l (f a))) : RenamesTo ρ g (x >>= k) (y >>= l) := by
  intro E
  rw [run_bind, run_bind, hx E]
  cases hresult : (x.run E).result with
  | error r =>
      rw [andThen_of_error hresult, andThen_of_error (by rw [Outcome.rename, hresult]; rfl)]
      rfl
  | ok a =>
      have hnext := hk a (x.run E).environment
      rw [andThen_of_ok hresult, andThen_of_ok (a := f a) (by rw [Outcome.rename, hresult]; rfl)]
      simp only [Outcome.rename] at hnext ⊢
      rw [hnext, List.map_append]

lemma renamesTo_meaning? (n : String) :
    RenamesTo ρ (Option.map (Meaning.rename ρ)) (meaning? n) (meaning? (ρ.name n)) := by
  intro E
  rw [run_meaning?, run_meaning?, E.meaning?_rename]
  rfl

lemma renamesTo_define (n : String) (v : Expr) :
    RenamesTo ρ id (define n v) (define (ρ.name n) (v.rename ρ)) := by
  intro E
  have hmeaning := E.meaning?_rename (ρ := ρ) n
  cases hfree : E.meaning? n with
  | none =>
      rw [hfree] at hmeaning
      rw [run_define_of_none hfree, run_define_of_none hmeaning, Outcome.rename,
        Environment.rename_extended hfree hmeaning]
      rfl
  | some m =>
      have hbound : (E.meaning? n).isSome := by simp [hfree]
      have hbound' : ((E.rename ρ).meaning? (ρ.name n)).isSome := by simp [hmeaning, hfree]
      rw [run_define_of_isSome hbound, run_define_of_isSome hbound']
      rfl

/-- Computations in a row, one for each of some things. -/
lemma renamesTo_each {ι : Type} {is : List ι} {x y : ι → Evaluation α}
    (h : ∀ i ∈ is, RenamesTo ρ f (x i) (y i)) :
    RenamesTo ρ (List.map f) (each (is.map x)) (each (is.map y)) := by
  induction is with
  | nil => exact renamesTo_pure []
  | cons i is ih =>
      rw [List.map_cons, List.map_cons, each_cons, each_cons]
      refine renamesTo_bind (h i (by simp)) fun a => ?_
      exact renamesTo_bind (ih fun j hj => h j (by simp [hj])) fun as => renamesTo_pure (a :: as)

/-! ### Forms -/

lemma renamesTo_branch {x x' y y' : Evaluation Expr} (hx : RenamesTo ρ (Expr.rename ρ) x x')
    (hy : RenamesTo ρ (Expr.rename ρ) y y') (condition : Atom) :
    RenamesTo ρ (Expr.rename ρ) (branch condition x y) (branch (condition.rename ρ) x' y') := by
  cases condition with
  | boolean b => cases b with
    | true => exact hx
    | false => exact hy
  | nothing | number | symbol | point | line | arc => exact renamesTo_fail _

lemma renamesTo_defineName (n : String) {x y : Evaluation Expr}
    (hx : RenamesTo ρ (Expr.rename ρ) x y) :
    RenamesTo ρ (Expr.rename ρ) (defineName n x) (defineName (ρ.name n) y) := by
  have hreserved := ρ.isReserved_name n
  have hspecial := ρ.isSpecialCharacter_name n
  cases hr : Vocabulary.isReserved n with
  | true =>
      rw [defineName, if_pos hr, defineName, if_pos (hreserved.trans hr)]
      exact renamesTo_fail _
  | false =>
      cases hs : Vocabulary.isSpecialCharacter n with
      | true =>
          rw [defineName, if_neg (by simp [hr]), if_pos hs, defineName,
            if_neg (by simp [hreserved, hr]), if_pos (hspecial.trans hs)]
          exact renamesTo_fail _
      | false =>
          rw [defineName_eq hr hs, defineName_eq (hreserved.trans hr) (hspecial.trans hs)]
          refine renamesTo_bind (renamesTo_meaning? n) fun m => ?_
          rw [Option.isSome_map]
          split_ifs
          · exact renamesTo_fail _
          · refine renamesTo_bind hx fun v => ?_
            exact renamesTo_bind (renamesTo_define n v) fun _ => renamesTo_pure v

end Evaluation

open Evaluation

/-- Whether evaluating an expression does the same with other names. -/
def Expr.EvalRenames (ρ : Renaming) (e : Expr) : Prop :=
  RenamesTo ρ (Expr.rename ρ) e.eval (e.rename ρ).eval

namespace Evaluation

variable {es : List Expr}

lemma renamesTo_each_eval (h : ∀ e ∈ es, e.EvalRenames ρ) :
    RenamesTo ρ (List.map (Expr.rename ρ)) (each (es.map Expr.eval))
      (each ((es.map (Expr.rename ρ)).map Expr.eval)) := by
  rw [List.map_map]
  exact renamesTo_each h

lemma renamesTo_last {e : Expr} (h : ∀ f ∈ e :: es, f.EvalRenames ρ) :
    RenamesTo ρ (Expr.rename ρ) (last e.eval (es.map Expr.eval))
      (last (e.rename ρ).eval ((es.map (Expr.rename ρ)).map Expr.eval)) := by
  rw [last_eq_each (.leaf .nothing), last_eq_each ((Expr.leaf .nothing).rename ρ)]
  refine renamesTo_bind (renamesTo_each_eval h) fun vs => ?_
  rw [List.getLastD_map]
  exact renamesTo_pure _

lemma renamesTo_drawEach (h : ∀ e ∈ es, e.EvalRenames ρ) :
    RenamesTo ρ id (drawEach (es.map Expr.eval))
      (drawEach ((es.map (Expr.rename ρ)).map Expr.eval)) := by
  rw [drawEach_eq_each, drawEach_eq_each, List.map_map, List.map_map, List.map_map]
  refine renamesTo_bind (f := List.map id) (renamesTo_each fun e he => ?_)
    fun _ => renamesTo_pure ()
  refine renamesTo_bind (h e he) fun v => ?_
  rw [Expr.head_rename]
  exact renamesTo_queue v.head

end Evaluation

namespace SpecialForm

lemma define_renamesTo (t : Expr) {e : Expr} (he : e.EvalRenames ρ) :
    RenamesTo ρ (Expr.rename ρ) (define.perform [.ofExpr t, .ofExpr e])
      (define.perform [.ofExpr (t.rename ρ), .ofExpr (e.rename ρ)]) := by
  by_cases ht : ∃ n, t = .leaf (.symbol n)
  · obtain ⟨n, rfl⟩ := ht
    rw [Expr.rename_leaf]
    exact renamesTo_defineName n he
  · have hrenamed : ∀ m, t.rename ρ ≠ .leaf (.symbol m) :=
      fun m hm => ht (Expr.exists_of_rename_eq_leaf hm)
    rw [perform_define_of_ne (fun n hn => ht ⟨n, hn⟩), perform_define_of_ne hrenamed]
    exact renamesTo_fail _

/-- A form does the same with renamed operands. -/
lemma perform_renamesTo (form : SpecialForm) {es : List Expr} (h : ∀ e ∈ es, e.EvalRenames ρ) :
    RenamesTo ρ (Expr.rename ρ) (form.perform (es.map .ofExpr))
      (form.perform ((es.map (Expr.rename ρ)).map .ofExpr)) := by
  cases hcount : form.arity.accepts es.length with
  | false =>
      have hname : ρ.name form.name = form.name := ρ.name_of_native (.keyword form)
      rw [perform_of_not_accepts (by simpa using hcount),
        perform_of_not_accepts (by simpa using hcount)]
      simp only [List.length_map]
      nth_rewrite 2 [← hname]
      exact renamesTo_fail _
  | true =>
      cases form with
      | define =>
          obtain ⟨t, e, rfl⟩ := List.length_eq_two.1 (eq_of_beq hcount)
          exact define_renamesTo t (h e (by simp))
      | conditional =>
          obtain ⟨c, t, f, rfl⟩ := List.length_eq_three.1 (eq_of_beq hcount)
          refine renamesTo_bind (h c (by simp)) fun v => ?_
          rw [Expr.head_rename]
          exact renamesTo_branch (h t (by simp)) (h f (by simp)) v.head
      | sequence =>
          obtain ⟨e, es, rfl⟩ := List.exists_cons_of_length_pos (of_decide_eq_true hcount)
          simp only [List.map_cons, perform, Operand.map_evaluate_ofExpr]
          exact renamesTo_last h
      | draw =>
          obtain ⟨e, es, rfl⟩ := List.exists_cons_of_length_pos (of_decide_eq_true hcount)
          have hdraw := renamesTo_drawEach h
          rw [← Operand.map_evaluate_ofExpr, ← Operand.map_evaluate_ofExpr] at hdraw
          have hnothing := renamesTo_pure (ρ := ρ) (f := Expr.rename ρ) (Expr.leaf .nothing)
          rw [Expr.rename_leaf] at hnothing
          exact renamesTo_bind hdraw fun _ => hnothing

end SpecialForm

namespace Expr

lemma evalNamed_renamesTo (n : String) {es : List Expr} (h : ∀ e ∈ es, e.EvalRenames ρ) :
    RenamesTo ρ (Expr.rename ρ) (evalNamed n (es.map .ofExpr))
      (evalNamed (ρ.name n) ((es.map (Expr.rename ρ)).map .ofExpr)) := by
  have hvalues := renamesTo_each_eval h
  rw [← Operand.map_evaluate_ofExpr, ← Operand.map_evaluate_ofExpr] at hvalues
  rw [evalNamed_eq, evalNamed_eq]
  refine renamesTo_bind (renamesTo_meaning? n) fun m => ?_
  cases m with
  | none =>
      simp only [Option.map_none, Renaming.isSpecialCharacter_name]
      split_ifs
      · exact renamesTo_fail _
      · exact renamesTo_bind hvalues fun _ => renamesTo_fail _
  | some m =>
      cases m with
      | bound v => exact renamesTo_pure v
      | keyword form => exact form.perform_renamesTo h
      | procedure p =>
          refine renamesTo_bind hvalues fun vs => ?_
          have hheads : (vs.map (Expr.rename ρ)).map head = (vs.map head).map (Atom.rename ρ) := by
            simp only [List.map_map, Function.comp_def, head_rename]
          rw [hheads, p.apply_rename]
          exact renamesTo_ofExcept _

/-- **Evaluating a renamed expression** in a renamed environment has the renamed outcome. -/
theorem eval_renames (e : Expr) : e.EvalRenames ρ := by
  induction e using Expr.ind with
  | step a es ih =>
      rw [EvalRenames, rename_node]
      cases a with
      | symbol n =>
          rw [eval_symbol, Atom.rename, eval_symbol]
          exact evalNamed_renamesTo n ih
      | nothing | boolean | number | point | line | arc =>
          rw [eval_of_head_ne_symbol (by simp [Atom.kind]),
            eval_of_head_ne_symbol (by simp [Atom.kind, Atom.rename]), ← rename_node]
          exact renamesTo_pure _

end Expr

/-! ### Sessions -/

lemma Outcome.queued_rename {α : Type} {f : α → α} (o : Outcome α) :
    (o.rename ρ f).queued = o.queued.map (Atom.rename ρ) := by
  rw [queued, queued, rename, List.filterMap_map, List.map_filterMap]
  refine List.filterMap_congr fun effect _ => ?_
  cases effect <;> rfl

/-- **Variable names are interchangeable**: a session in which the program, the queue and the
definitions have been renamed runs as the original session does, with the renamed result,
effects, environment and queue. What is looked up in a renamed environment is what was held
for the original name, renamed. -/
theorem session_run_rename (ρ : Renaming) (s : Session) :
    (s.rename ρ).run = (s.run.1.rename ρ, s.run.2.rename ρ)
    ∧ ∀ (E : Environment) (n : String),
        (E.rename ρ).meaning? (ρ.name n) = (E.meaning? n).map (Meaning.rename ρ) := by
  refine ⟨?_, Environment.meaning?_rename⟩
  cases hs : s.program with
  | none =>
      have hrenamed : (s.rename ρ).program = none := by rw [Session.rename, hs]; rfl
      rw [Session.run, Session.run, hs, hrenamed]
      rfl
  | some e =>
      have hrenamed : (s.rename ρ).program = some (e.rename ρ) := by rw [Session.rename, hs]; rfl
      have houtcome := e.eval_renames (ρ := ρ) s.environment
      rw [Session.run_of_program hs, Session.run_of_program hrenamed, Session.rename, houtcome]
      simp only [Session.Report.rename, Session.rename, hs, Outcome.queued_rename,
        List.map_append]
      rfl

/-- With `x` and `y` exchanged, `(begin (define x y) (y x) (z x))` is
`(begin (define y x) (x y) (z y))`. Run where `x` is bound instead of `y`, it binds `y`
instead of `x` before it fails with the same error. -/
theorem session_run_rename_swap : ∃ (ρ : Renaming) (e f : Expr),
    Expr.parse "(begin (define x y) (y x) (z x))" = .ok e
    ∧ Expr.parse "(begin (define y x) (x y) (z y))" = .ok f
    ∧ ∃ E F, Environment.standard.define "y" (.leaf (.boolean true)) = .ok E
      ∧ Environment.standard.define "x" (.leaf (.boolean true)) = .ok F
      ∧ Session.rename ρ ⟨E, some e, [.symbol "x"]⟩ = ⟨F, some f, [.symbol "y"]⟩
      ∧ (Session.run ⟨F, some f, [.symbol "y"]⟩).2.environment
        = (Session.run ⟨E, some e, [.symbol "x"]⟩).2.environment.rename ρ
      ∧ (Session.run ⟨F, some f, [.symbol "y"]⟩).1.result = .error (.unboundName "z") := by
  let ρ : Renaming := .swap "x" "y" (by decide) (by decide)
  let e : Expr := .node (.symbol "begin")
    [.node (.symbol "define") [.leaf (.symbol "x"), .leaf (.symbol "y")],
      .node (.symbol "y") [.leaf (.symbol "x")], .node (.symbol "z") [.leaf (.symbol "x")]]
  let f : Expr := .node (.symbol "begin")
    [.node (.symbol "define") [.leaf (.symbol "y"), .leaf (.symbol "x")],
      .node (.symbol "x") [.leaf (.symbol "y")], .node (.symbol "z") [.leaf (.symbol "y")]]
  let E := Environment.standard.extended "y" (.leaf (.boolean true)) rfl
  let F := Environment.standard.extended "x" (.leaf (.boolean true)) rfl
  have hrename : Session.rename ρ ⟨E, some e, [.symbol "x"]⟩ = ⟨F, some f, [.symbol "y"]⟩ := rfl
  have hrun := (session_run_rename ρ ⟨E, some e, [.symbol "x"]⟩).1
  rw [hrename] at hrun
  exact ⟨ρ, e, f, Expr.parse_of_advance rfl, Expr.parse_of_advance rfl, E, F, rfl, rfl, hrename,
    by rw [hrun]; rfl, rfl⟩

end SketchLisp

import SketchLisp.Proofs.SequencingLaws

/-!
Operands with names of their own.

A call evaluates its operands once each and from left to right, and the procedure takes the
heads of their values. The same is done if each operand is bound to a name first, and the
procedure is called with these names. As long as the names are fresh, the difference between
the two programs is in these names only.

* `Expr.namedCall`: a call whose operands are bound to names first;
* `Outcome.Resembles`: outcomes with the same result and the same queue, whose environments
  agree on the names that matter;
* `Expr.run_binding_resembles`: one operand that is bound to a fresh name, and
  `Expr.run_bindings_resembles` for all of them;
* `Expr.run_names`: the names give back the values of the operands;
* `session_run_namedCall`: what this means for a session.
-/

namespace SketchLisp

open Evaluation

variable {names : String → Prop} {E F : Environment}

/-! ### Outcomes that resemble each other -/

/-- Outcomes that have the same result and have queued the same, and whose environments differ
at most in names that do not matter. -/
structure Outcome.Resembles {α : Type} (names : String → Prop) (o p : Outcome α) : Prop where
  result : o.result = p.result
  queued : o.queued = p.queued
  environment : o.environment.AgreeOn names p.environment

lemma Outcome.Matches.resembles {α : Type} {o p : Outcome α} (h : o.Matches names p) :
    o.Resembles names p :=
  ⟨h.result, h.queued, h.environment⟩

/-- Going on in ways that resemble each other. -/
lemma Outcome.Resembles.andThen {α β : Type} {o p : Outcome α} (h : o.Resembles names p)
    {f g : α → Evaluation β} (hf : ∀ a, p.result = .ok a →
      ((f a).run o.environment).Resembles names ((g a).run p.environment)) :
    (andThen o f).Resembles names (andThen p g) := by
  cases hp : p.result with
  | error r =>
      rw [andThen_of_error (h.result.trans hp), andThen_of_error hp]
      exact ⟨rfl, h.queued, h.environment⟩
  | ok a =>
      have ho := h.result.trans hp
      have hnext := hf a hp
      refine ⟨?_, ?_, ?_⟩
      · rw [andThen_of_ok ho, andThen_of_ok hp]
        exact hnext.result
      · rw [queued_andThen_of_ok ho, queued_andThen_of_ok hp, h.queued, hnext.queued]
      · rw [andThen_of_ok ho, andThen_of_ok hp]
        exact hnext.environment

namespace Expr

/-- The definition that binds an operand to its name. -/
def binding (d : String × Expr) : Expr := definition (leaf (.symbol d.1)) d.2

/-- A call whose operands are bound to names first, one after another. -/
def namedCall (p : Procedure) (ds : List (String × Expr)) : Expr :=
  sequence (ds.map binding ++ [call p (ds.map fun d => leaf (.symbol d.1))])

lemma eval_binding (d : String × Expr) : (binding d).eval = defineName d.1 d.2.eval :=
  eval_definition_name d.1 d.2

/-! ### Binding the operands -/

/-- **One operand**: binding it to a fresh name makes no difference to other names. -/
lemma run_binding_resembles {d : String × Expr} (hmentions : ∀ n, d.2.Mentions n → names n)
    (hname : ¬ names d.1) (hadmits : F.Admits d.1) (hEF : E.AgreeOn names F) :
    (d.2.eval.run E).Resembles names ((binding d).eval.run F) := by
  have hwithin : d.2.eval.Within names := d.2.eval_within hmentions
  have hmatch := hwithin.run_matches E F hEF
  have hfree : (d.2.eval.run F).environment.meaning? d.1 = none := by
    rw [hwithin.meaning?_eq F hname]
    exact Option.not_isSome_iff_eq_none.1 hadmits.unbound
  rw [eval_binding, run_defineName_of_admits hadmits, ← andThen_pure (d.2.eval.run E)]
  refine hmatch.resembles.andThen fun v _ => ?_
  rw [run_bind, run_define_of_none hfree]
  refine ⟨rfl, rfl, fun n hn => ?_⟩
  have hne : n ≠ d.1 := by
    rintro rfl
    exact hname hn
  exact (hmatch.environment n hn).trans (Environment.meaning?_extended_of_ne hne hfree v).symm

/-- A name that can be defined still can be after an operand is bound to another name, if the
operand does not mention it. -/
lemma admits_run_binding {d : String × Expr} {name : String} (hne : name ≠ d.1)
    (hmentions : ¬ d.2.Mentions name) (h : F.Admits name) :
    ((binding d).eval.run F).environment.Admits name := by
  have hwithin : (defineName d.1 d.2.eval).Within (· ≠ name) := by
    refine within_defineName hne.symm (d.2.eval_within fun n hn => ?_)
    rintro rfl
    exact hmentions hn
  refine ⟨h.notReserved, h.notSpecial, ?_⟩
  rw [eval_binding, Environment.contains, hwithin.meaning?_eq F (by simp)]
  exact h.unbound

/-- **All operands**: binding them to fresh names, one after another, makes no difference to
other names. -/
lemma run_bindings_resembles {ds : List (String × Expr)} (hnodup : (ds.map Prod.fst).Nodup)
    (hmentions : ∀ d ∈ ds, ∀ n, d.2.Mentions n → names n) (hnames : ∀ d ∈ ds, ¬ names d.1)
    (hadmits : ∀ d ∈ ds, F.Admits d.1) (hEF : E.AgreeOn names F) :
    ((each ((ds.map Prod.snd).map eval)).run E).Resembles names
      ((each ((ds.map binding).map eval)).run F) := by
  induction ds generalizing E F with
  | nil => exact ⟨rfl, rfl, hEF⟩
  | cons d ds ih =>
      rw [List.map_cons, List.nodup_cons] at hnodup
      rw [List.forall_mem_cons] at hmentions hnames hadmits
      have hfirst := run_binding_resembles hmentions.1 hnames.1 hadmits.1 hEF
      -- the other names are still free, since the first operand does not mention them
      have hlater : ∀ c ∈ ds, ((binding d).eval.run F).environment.Admits c.1 := by
        intro c hc
        have hne : c.1 ≠ d.1 := fun heq => hnodup.1 (heq ▸ List.mem_map_of_mem hc)
        have hnot : ¬ d.2.Mentions c.1 := fun hm => hnames.2 c hc (hmentions.1 c.1 hm)
        exact admits_run_binding hne hnot (hadmits.2 c hc)
      have hrest := ih hnodup.2 hmentions.2 hnames.2 hlater hfirst.environment
      simp only [List.map_cons, each_cons, run_bind]
      refine hfirst.andThen fun v _ => ?_
      rw [run_bind, run_bind]
      exact hrest.andThen fun vs _ => ⟨rfl, rfl, hrest.environment⟩

/-! ### Reading the names -/

lemma each_binding_within (ds : List (String × Expr)) :
    (each ((ds.map binding).map eval)).Within fun _ => True := by
  refine within_each fun x hx => ?_
  obtain ⟨e, -, rfl⟩ := List.mem_map.1 hx
  exact e.eval_within fun _ _ => trivial

/-- When all operands are bound, each name stands for the value of its operand. -/
lemma forall₂_bound_of_bindings {ds : List (String × Expr)} {vs : List Expr}
    (h : (each ((ds.map binding).map eval)).Gives E vs F) :
    List.Forall₂ (fun d v => F.meaning? d.1 = some (.bound v)) ds vs := by
  induction ds generalizing E vs with
  | nil =>
      obtain ⟨rfl, -⟩ := gives_pure.1 h
      exact .nil
  | cons d ds ih =>
      obtain ⟨v, G, hv, hrest⟩ := Gives.exists_of_bind h
      obtain ⟨ws, H, hws, hpure⟩ := hrest.exists_of_bind
      obtain ⟨rfl, rfl⟩ := gives_pure.1 hpure
      refine .cons ?_ (ih hws)
      obtain ⟨name, hname, hbound⟩ := exists_bound_of_definition hv.result
      obtain rfl : d.1 = name := by simpa [leaf] using hname
      -- the first name keeps its value while the others are bound
      have hextends := (each_binding_within ds).run_extends G
      rw [hws.environment] at hextends
      exact hextends.kept d.1 _ (hv.environment ▸ hbound)

/-- Names that stand for values give them back. -/
lemma run_names {ds : List (String × Expr)} {vs : List Expr}
    (h : List.Forall₂ (fun d v => E.meaning? d.1 = some (.bound v)) ds vs) :
    (each ((ds.map fun d => leaf (.symbol d.1)).map eval)).run E = ⟨.ok vs, E, []⟩ := by
  induction h with
  | nil => rfl
  | cons hbound _ ih =>
      have hfirst := run_eval_of_bound hbound []
      rw [List.map_cons, List.map_cons, each_cons, run_bind, leaf, hfirst]
      simp only [andThen, run_bind, ih, run_pure, List.append_nil]

/-- **A call whose operands have fresh names** resembles the call without them. -/
lemma run_namedCall_resembles {ds : List (String × Expr)} (hnodup : (ds.map Prod.fst).Nodup)
    (hadmits : ∀ d ∈ ds, E.Admits d.1) (hfresh : ∀ d ∈ ds, ∀ c ∈ ds, ¬ c.2.Mentions d.1)
    (p : Procedure) :
    ((call p (ds.map Prod.snd)).eval.run E).Resembles (· ∉ ds.map Prod.fst)
      ((namedCall p ds).eval.run E) := by
  have hmentions : ∀ c ∈ ds, ∀ n, c.2.Mentions n → n ∉ ds.map Prod.fst := by
    intro c hc n hn hmem
    obtain ⟨d, hd, rfl⟩ := List.mem_map.1 hmem
    exact hfresh d hd c hc hn
  have hoperands := run_bindings_resembles hnodup hmentions
    (fun d hd hnot => hnot (List.mem_map_of_mem hd)) hadmits fun n _ => rfl
  rw [namedCall, eval_sequence_concat, eval_call, run_bind, run_bind]
  refine hoperands.andThen fun vs hvs => ?_
  rw [eval_call, run_bind, run_names (forall₂_bound_of_bindings ⟨hvs, rfl⟩)]
  exact ⟨rfl, rfl, hoperands.environment⟩

end Expr

/-- **Operands may be given names first**: if the operands of a call are bound to fresh names,
one after another, and the procedure is called with these names, then the result and the queue
are the same as those of the call, and all other names stand for the same. -/
theorem session_run_namedCall {s : Session} {ds : List (String × Expr)}
    (hnodup : (ds.map Prod.fst).Nodup) (hadmits : ∀ d ∈ ds, s.environment.Admits d.1)
    (hfresh : ∀ d ∈ ds, ∀ c ∈ ds, ¬ c.2.Mentions d.1) (p : Procedure) :
    (s.holding (.call p (ds.map Prod.snd))).run.1.result
      = (s.holding (.namedCall p ds)).run.1.result
    ∧ (s.holding (.call p (ds.map Prod.snd))).run.2.graphics
      = (s.holding (.namedCall p ds)).run.2.graphics
    ∧ ∀ name, name ∉ ds.map Prod.fst →
        (s.holding (.call p (ds.map Prod.snd))).run.2.environment.meaning? name
          = (s.holding (.namedCall p ds)).run.2.environment.meaning? name := by
  obtain ⟨hresult, hqueued, henvironment⟩ :=
    Expr.run_namedCall_resembles hnodup hadmits hfresh p
  simp only [Session.run_holding]
  exact ⟨hresult, congrArg (s.graphics ++ ·) hqueued, henvironment⟩

/-- The first operand draws and binds a name that the second looks up. With names for the
operands the same is drawn and bound, and the value is the same. -/
theorem session_run_namedCall_and : ∃ ds : List (String × Expr),
    Expr.parse "(and (begin (draw True) (define z False)) (not z))"
      = .ok (.call .and (ds.map Prod.snd))
    ∧ Expr.parse
        "(begin (define a (begin (draw True) (define z False))) (define b (not z)) (and a b))"
      = .ok (.namedCall .and ds)
    ∧ (ds.map Prod.fst).Nodup ∧ (∀ d ∈ ds, Environment.standard.Admits d.1)
    ∧ (∀ d ∈ ds, ∀ c ∈ ds, ¬ c.2.Mentions d.1)
    ∧ (Session.fresh.holding (.namedCall .and ds)).run.1.result = .ok (.leaf (.boolean false))
    ∧ (Session.fresh.holding (.namedCall .and ds)).run.2.graphics = [.boolean true]
    ∧ (Session.fresh.holding (.namedCall .and ds)).run.2.environment.meaning? "z"
      = some (.bound (.leaf (.boolean false))) := by
  let z : Expr := .leaf (.symbol "z")
  let ds : List (String × Expr) :=
    [("a", .sequence [.drawing [.leaf (.boolean true)], .definition z (.leaf (.boolean false))]),
      ("b", .call .not [z])]
  have hnodup : (ds.map Prod.fst).Nodup := by decide
  have hadmits : ∀ d ∈ ds, Session.fresh.environment.Admits d.1 := by
    simp only [ds, List.forall_mem_cons]
    exact ⟨⟨rfl, rfl, by decide⟩, ⟨rfl, rfl, by decide⟩, by simp⟩
  have hfresh : ∀ d ∈ ds, ∀ c ∈ ds, ¬ c.2.Mentions d.1 := by
    simp only [ds, List.forall_mem_cons]
    decide
  have hrun : (Expr.call .and (ds.map Prod.snd)).eval.run Session.fresh.environment
      = ⟨.ok (.leaf (.boolean false)),
        Environment.standard.extended "z" (.leaf (.boolean false)) rfl,
        [.queued (.boolean true), .bound "z" (.leaf (.boolean false))]⟩ := rfl
  obtain ⟨hresult, hqueue, hnames⟩ := session_run_namedCall hnodup hadmits hfresh .and
  rw [Session.run_holding, hrun] at hresult hqueue hnames
  exact ⟨ds, Expr.parse_of_advance rfl, Expr.parse_of_advance rfl, hnodup, hadmits, hfresh,
    hresult.symm, hqueue.symm, (hnames "z" (by decide)).symm⟩

end SketchLisp

import SketchLisp.Proofs.Footprint
import SketchLisp.Session

/-!
Evaluation only adds to what is there.

A name is bound only while it is free, also if the value it gets was worked out by
a program that binds names itself. So whatever happens, names keep their meaning,
and nothing is taken off the queue.

* `Environment.Extends`: environments that keep all names and bind others;
* `Evaluation.Within.run_extends`: a run extends the environment;
* `session_run_extends`: a run extends the environment and the queue of a session.
-/

namespace SketchLisp

/-- Whether an environment keeps all meanings, and only binds names besides. -/
structure Environment.Extends (E F : Environment) : Prop where
  kept : ∀ name m, E.meaning? name = some m → F.meaning? name = some m
  bound : ∀ name m, E.meaning? name = none → F.meaning? name = some m →
    ∃ value, m = .bound value

namespace Environment.Extends

lemma refl (E : Environment) : E.Extends E := by
  refine ⟨fun _ _ h => h, fun name m hnone hsome => ?_⟩
  rw [hnone] at hsome
  cases hsome

lemma trans {E F G : Environment} (hEF : E.Extends F) (hFG : F.Extends G) : E.Extends G := by
  refine ⟨fun name m h => hFG.kept name m (hEF.kept name m h), fun name m hE hG => ?_⟩
  cases hF : F.meaning? name with
  | none => exact hFG.bound name m hF hG
  -- a name that is new in the middle keeps the meaning it got there
  | some k =>
      have hkm : G.meaning? name = some k := hFG.kept name k hF
      rw [hG] at hkm
      obtain rfl := Option.some.inj hkm
      exact hEF.bound name m hE hF

/-- Binding a free name extends the environment. -/
lemma extended {E : Environment} {name : String} (h : E.meaning? name = none) (value : Expr) :
    E.Extends (E.extended name value h) := by
  refine ⟨fun n m hn => ?_, fun n m hnone hsome => ?_⟩
  · have hne : n ≠ name := by
      rintro rfl
      rw [h] at hn
      cases hn
    rw [meaning?_extended_of_ne hne, hn]
  · by_cases hne : n = name
    · rw [hne, meaning?_extended_self] at hsome
      exact ⟨value, (Option.some.inj hsome).symm⟩
    · rw [meaning?_extended_of_ne hne, hnone] at hsome
      cases hsome

end Environment.Extends

/-- **A run extends the environment**, whether or not it succeeds. -/
lemma Evaluation.Within.run_extends {names : String → Prop} {α : Type} {x : Evaluation α}
    (hx : Within names x) (E : Environment) : E.Extends (x.run E).environment :=
  hx.related Environment.Extends.refl Environment.Extends.trans
    (fun _ _ value _ h => Environment.Extends.extended h value) E

/-- **A session only grows when its program runs**: every name keeps its meaning,
every new name is bound, and the queue is continued. -/
theorem session_run_extends (s : Session) :
    s.environment.Extends s.run.2.environment ∧ s.graphics <+: s.run.2.graphics := by
  cases hs : s.program with
  | none =>
      rw [Session.run, hs]
      exact ⟨.refl _, List.prefix_rfl⟩
  | some e =>
      have hwithin : e.eval.Within e.Mentions := e.eval_within fun _ hn => hn
      rw [Session.run_of_program hs]
      exact ⟨hwithin.run_extends _, List.prefix_append _ _⟩

/-- `(define x (begin (define x True) False))`: the definition inside stays, and the one
around it fails. -/
example : ∃ e : Expr, (Session.run ⟨.standard, some e, []⟩).1.result = .error (.redefinition "x")
    ∧ (Session.run ⟨.standard, some e, []⟩).2.environment.meaning? "x"
      = some (.bound (.leaf (.boolean true))) :=
  ⟨.node (.symbol "define") [.leaf (.symbol "x"), .node (.symbol "begin")
    [.node (.symbol "define") [.leaf (.symbol "x"), .leaf (.boolean true)],
      .leaf (.boolean false)]], rfl, rfl⟩

end SketchLisp

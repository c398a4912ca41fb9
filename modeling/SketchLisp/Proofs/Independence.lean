import SketchLisp.Proofs.Extension
import SketchLisp.Proofs.Licences

/-!
Independent programs.

Two programs are independent if neither defines a name that the other mentions, and if at
most one of them draws. What one of them binds is then nothing to the other. So each of them
does the same before and after the other has run, and they can be run in either order.

* `Expr.Independent`: independent programs, a symmetric relation;
* `Expr.run_meaning?_of_not_defines`: names that a program does not define keep their
  meanings;
* `Expr.Independent.run_matches`: a program does the same after an independent one;
* `Expr.Independent.meaning?_comm`, `Expr.Independent.queued_comm`: names and queue are the
  same in either order;
* `session_run_comm`: what this means for a session.
-/

namespace SketchLisp

namespace Expr

/-- Programs that do not define each other's names, and do not both draw. -/
structure Independent (a b : Expr) : Prop where
  left : ∀ name, a.Defines name → ¬ b.Mentions name
  right : ∀ name, b.Defines name → ¬ a.Mentions name
  draws : ¬ (a.Mentions "draw" ∧ b.Mentions "draw")

lemma Independent.symm {a b : Expr} (h : a.Independent b) : b.Independent a :=
  ⟨h.right, h.left, fun hdraw => h.draws hdraw.symm⟩

/-- Names that a program does not define keep their meanings. -/
lemma run_meaning?_of_not_defines {e : Expr} {name : String} (h : ¬ e.Defines name)
    (E : Environment) : (e.eval.run E).environment.meaning? name = E.meaning? name := by
  cases hE : E.meaning? name with
  | some m => exact (e.eval_within_mentions.run_extends E).kept name m hE
  | none =>
      have hfree : ¬ E.contains name := by simp [Environment.contains, hE]
      by_contra hF
      have hnew := mem_definedNames_of_new hfree (Option.isSome_iff_ne_none.2 hF)
      exact h (defines_of_mem_definedNames hnew).1

namespace Independent

variable {a b : Expr}

/-- **After an independent program** a program does the same as before it. -/
lemma run_matches (h : a.Independent b) (E : Environment) :
    (b.eval.run E).Matches b.Mentions (b.eval.run (a.eval.run E).environment) := by
  refine b.eval_within_mentions.run_matches _ _ fun name hname => ?_
  rw [run_meaning?_of_not_defines fun hdefines => h.left name hdefines hname]

/-- **Names in either order**: a name can be changed by one of the programs only, and that
one binds it to the same value. -/
lemma meaning?_comm (h : a.Independent b) (E : Environment) (name : String) :
    (b.eval.run (a.eval.run E).environment).environment.meaning? name
      = (a.eval.run (b.eval.run E).environment).environment.meaning? name := by
  by_cases hb : b.Mentions name
  · have ha : ¬ a.Defines name := fun hdefines => h.left name hdefines hb
    calc (b.eval.run (a.eval.run E).environment).environment.meaning? name
        = (b.eval.run E).environment.meaning? name :=
          ((h.run_matches E).environment name hb).symm
      _ = (a.eval.run (b.eval.run E).environment).environment.meaning? name :=
          (run_meaning?_of_not_defines ha _).symm
  · have hb' : ¬ b.Defines name := fun hdefines => hb hdefines.mentions
    rw [run_meaning?_of_not_defines hb']
    by_cases ha : a.Mentions name
    · exact (h.symm.run_matches E).environment name ha
    -- a name that neither mentions is what it was
    · have ha' : ¬ a.Defines name := fun hdefines => ha hdefines.mentions
      rw [run_meaning?_of_not_defines ha', run_meaning?_of_not_defines ha',
        run_meaning?_of_not_defines hb']

/-- **The queue in either order**: only one of the programs adds to it. -/
lemma queued_comm (h : a.Independent b) (E F : Environment) :
    (a.eval.run E).queued ++ (b.eval.run F).queued
      = (b.eval.run F).queued ++ (a.eval.run E).queued := by
  by_cases ha : a.Mentions "draw"
  · have hb : ¬ b.Mentions "draw" := fun hb => h.draws ⟨ha, hb⟩
    rw [queued_of_not_mentions hb, List.append_nil, List.nil_append]
  · rw [queued_of_not_mentions ha, List.append_nil, List.nil_append]

end Independent

end Expr

/-- **Independent programs commute**: if one of them succeeds, and then the other, they
succeed with the same values in the other order, and leave the same meanings of all names
and the same queue. -/
theorem session_run_comm {s : Session} {a b va vb : Expr} (h : a.Independent b)
    (ha : (s.holding a).run.1.result = .ok va)
    (hb : ((s.holding a).run.2.holding b).run.1.result = .ok vb) :
    (s.holding b).run.1.result = .ok vb
    ∧ ((s.holding b).run.2.holding a).run.1.result = .ok va
    ∧ (∀ name, ((s.holding b).run.2.holding a).run.2.environment.meaning? name
        = ((s.holding a).run.2.holding b).run.2.environment.meaning? name)
    ∧ ((s.holding b).run.2.holding a).run.2.graphics
        = ((s.holding a).run.2.holding b).run.2.graphics := by
  have hbefore := h.run_matches s.environment
  have hafter := h.symm.run_matches s.environment
  simp only [Session.run_holding] at ha hb ⊢
  refine ⟨hbefore.result.trans hb, hafter.result.symm.trans ha, fun name => ?_, ?_⟩
  · exact (h.meaning?_comm s.environment name).symm
  · rw [List.append_assoc, List.append_assoc, ← hafter.queued, ← hbefore.queued,
      h.queued_comm]

/-- While `y` is bound, one program looks it up to draw it and binds `x`, and the other looks
it up to bind `z`. -/
theorem session_run_comm_shared_name : ∃ (s : Session) (a b : Expr),
    Expr.parse "(define x (begin (draw y) False))" = .ok a
    ∧ Expr.parse "(if y (define z y) (define w y))" = .ok b
    ∧ a.Independent b ∧ a.Mentions "y" ∧ b.Mentions "y"
    ∧ (s.holding a).run.1.result = .ok (.leaf (.boolean false))
    ∧ ((s.holding a).run.2.holding b).run.1.result = .ok (.leaf (.boolean true))
    ∧ ((s.holding b).run.2.holding a).run.1.result = .ok (.leaf (.boolean false))
    ∧ ((s.holding b).run.2.holding a).run.2.environment.meaning? "z"
      = some (.bound (.leaf (.boolean true)))
    ∧ ((s.holding b).run.2.holding a).run.2.graphics = [.boolean true] := by
  let E := Environment.standard.extended "y" (.leaf (.boolean true)) rfl
  let s : Session := ⟨E, none, []⟩
  let a : Expr := .node (.symbol "define") [.leaf (.symbol "x"), .node (.symbol "begin")
    [.node (.symbol "draw") [.leaf (.symbol "y")], .leaf (.boolean false)]]
  let b : Expr := .node (.symbol "if") [.leaf (.symbol "y"),
    .node (.symbol "define") [.leaf (.symbol "z"), .leaf (.symbol "y")],
    .node (.symbol "define") [.leaf (.symbol "w"), .leaf (.symbol "y")]]
  have hindependent : a.Independent b := by
    refine ⟨?_, ?_, by decide⟩
    · rintro name ⟨d, hd⟩
      obtain ⟨rfl, -⟩ : name = "x" ∧ _ := by
        simpa [a, Expr.nodes, Expr.nodesEach, Expr.leaf] using hd
      decide
    · rintro name ⟨d, hd⟩
      obtain ⟨rfl, -⟩ | ⟨rfl, -⟩ : name = "z" ∧ _ ∨ name = "w" ∧ _ := by
        simpa [b, Expr.nodes, Expr.nodesEach, Expr.leaf] using hd
      · decide
      · decide
  let t : Session := ⟨E.extended "x" (.leaf (.boolean false)) rfl, some a, [.boolean true]⟩
  have ha : (s.holding a).run.1.result = .ok (.leaf (.boolean false)) := rfl
  have ht : (s.holding a).run.2 = t := rfl
  have hb : ((s.holding a).run.2.holding b).run.1.result = .ok (.leaf (.boolean true)) := by
    rw [ht]
    rfl
  have hz : (t.holding b).run.2.environment.meaning? "z"
      = some (.bound (.leaf (.boolean true))) := rfl
  have hgraphics : (t.holding b).run.2.graphics = [.boolean true] := rfl
  obtain ⟨-, hvalue, hnames, hqueue⟩ := session_run_comm hindependent ha hb
  rw [ht] at hnames hqueue
  exact ⟨s, a, b, Expr.parse_of_advance rfl, Expr.parse_of_advance rfl, hindependent, by decide,
    by decide, ha, hb, hvalue, (hnames "z").trans hz, hqueue.trans hgraphics⟩

end SketchLisp

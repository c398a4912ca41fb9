import SketchLisp.Proofs.Signature
import SketchLisp.Proofs.StandardNames

/-!
Calls of procedures.

A procedure is called by its name, and it is the same procedure in every environment.
Whatever it is called with, it keeps to the rule of its signature.

* `Environment.procedure_eq_ok_iff`: the name of a procedure;
* `procedure_call`: what a call comes to.
-/

namespace SketchLisp

/-- A name finds the procedure that is called so, in every environment. -/
lemma Environment.procedure_eq_ok_iff {E : Environment} {name : String} {p : Procedure} :
    E.procedure name = .ok p ↔ name = p.name := by
  rw [← meaning?_eq_procedure_iff (E := E), procedure]
  split <;> simp_all

/-- **Procedure calls**: each procedure is found under its name. If it does not take as many
operands as it is given, it says so, whatever their kinds; otherwise, if some are of a wrong
kind, it names the first of them; and otherwise it has a value, which is of the right kind
and is what it should be. -/
theorem procedure_call (p : Procedure) (operands : List Atom) :
    (∀ (E : Environment) (name : String), E.procedure name = .ok p ↔ name = p.name)
    ∧ (p.signature.arity.accepts operands.length = false →
        p.apply operands
          = .error (.wrongArgumentCount p.name p.signature.arity operands.length))
    ∧ (p.signature.arity.accepts operands.length = true → ¬ p.signature.Fits operands →
        ∃ i a, p.signature.FirstMisfit operands i a ∧ p.apply operands
          = .error (.typeMismatch p.name (i + 1) (p.signature.operand i) a))
    ∧ (p.signature.arity.accepts operands.length = true → p.signature.Fits operands →
        ∃ a, p.apply operands = .ok (.leaf a) ∧ a.kind = p.signature.result
          ∧ p.Describes operands a) := by
  have hfollows := p.apply_follows operands
  exact ⟨fun _ _ => Environment.procedure_eq_ok_iff, hfollows.of_not_accepts,
    hfollows.of_not_fits, hfollows.of_fits⟩

/-- Of three operands for an arc, the second is named if it and the third are of a wrong
kind. With two operands it does not matter what they are. -/
theorem procedure_call_arc :
    Procedure.arc.apply [.boolean true, .symbol "x"]
      = .error (.wrongArgumentCount "arc" (.exactly 3) 2)
    ∧ Procedure.arc.apply [.point ⟨0, 0⟩, .boolean true, .symbol "x"]
      = .error (.typeMismatch "arc" 2 .point (.boolean true))
    ∧ ∃ a, Procedure.arc.apply [.point ⟨0, 0⟩, .point ⟨1, 0⟩, .number 2] = .ok (.leaf a)
      ∧ a.kind = .arc := by
  have hcount := (procedure_call .arc [.boolean true, .symbol "x"]).2.1 rfl
  obtain ⟨i, a, hmisfit, hkind⟩ :=
    (procedure_call .arc [.point ⟨0, 0⟩, .boolean true, .symbol "x"]).2.2.1 rfl fun hfits => by
      cases hfits 1 _ rfl
  obtain ⟨b, hvalue, hresult, -⟩ :=
    (procedure_call .arc [.point ⟨0, 0⟩, .point ⟨1, 0⟩, .number 2]).2.2.2 rfl fun i c hc => by
      rcases i with _ | _ | _ | i <;> simp at hc <;> subst hc <;> rfl
  refine ⟨hcount, ?_, b, hvalue, hresult⟩
  match i, hmisfit with
  | 0, ⟨ha, hwrong, _⟩ =>
      obtain rfl := Option.some.inj ha
      exact absurd rfl hwrong
  | 1, ⟨ha, _, _⟩ =>
      obtain rfl := Option.some.inj ha
      exact hkind
  | i + 2, ⟨_, _, hbefore⟩ => cases hbefore 1 _ (by omega) rfl

end SketchLisp

import SketchLisp.Proofs.Transport

/-!
Contracts of evaluations.

A contract says what holds of the environment between two steps of an evaluation,
of the values it works out, and of the atoms it queues. If the single steps respect
a contract, every evaluation does, whether or not it succeeds.

* `Contract`: the three conditions, and `Contract.Sound` for those that the single
  steps respect;
* `Outcome.Respects`: outcomes as a contract has them;
* `Contract.Sound.eval`: evaluating an expression respects every sound contract.
-/

namespace SketchLisp

/-- Conditions on the environment, on values and on queued atoms. -/
structure Contract where
  environment : Environment → Prop
  value : Expr → Prop
  queued : Atom → Prop

/-- A contract that the single steps respect, as long as only names in `names` are
bound. -/
structure Contract.Sound (c : Contract) (names : String → Prop) : Prop where
  /-- Binding a free name that is not a special character to a value. -/
  define {E : Environment} {name : String} {v : Expr} (hE : c.environment E)
    (hfree : E.meaning? name = none) (hspecial : Vocabulary.isSpecialCharacter name = false)
    (hname : names name) (hv : c.value v) : c.environment (E.extended name v hfree)
  /-- Looking up a bound name. -/
  bound {E : Environment} {name : String} {v : Expr} (hE : c.environment E)
    (hname : E.meaning? name = some (.bound v)) : c.value v
  /-- Taking an expression as its own value, or what a procedure gives. -/
  literal {v : Expr} (hv : v.head.kind ≠ .symbol) : c.value v
  /-- Queueing the head of a value. -/
  queue {v : Expr} (hv : c.value v) : c.queued v.head

/-- An outcome as a contract has it, with a condition on the value. -/
structure Outcome.Respects {α : Type} (c : Contract) (P : α → Prop) (o : Outcome α) : Prop where
  environment : c.environment o.environment
  queued : ∀ a ∈ o.queued, c.queued a
  value : ∀ v, o.result = .ok v → P v

namespace Evaluation

variable {α β : Type} {c : Contract} {names : String → Prop} {P : α → Prop} {Q : β → Prop}

/-- Computations that respect a contract from every environment that does. -/
def Keeps (c : Contract) (P : α → Prop) (x : Evaluation α) : Prop :=
  ∀ E, c.environment E → (x.run E).Respects c P

lemma keeps_pure {a : α} (ha : P a) : Keeps c P (pure a) := by
  intro E hE
  refine ⟨hE, by simp [Outcome.queued], fun v hv => ?_⟩
  obtain rfl := Except.ok.inj hv
  exact ha

lemma keeps_fail (e : EvalError) : Keeps c P (fail e) :=
  fun _ hE => ⟨hE, by simp [Outcome.queued], by simp⟩

lemma keeps_queue {a : Atom} (ha : c.queued a) : Keeps c (fun _ => True) (queue a) :=
  fun _ hE => ⟨hE, by simpa [Outcome.queued, Effect.queued?] using ha, by simp⟩

/-- A lookup gives what the name stands for in some environment of the contract. -/
lemma keeps_meaning? (name : String) :
    Keeps c (fun m => ∃ E : Environment, c.environment E ∧ E.meaning? name = m)
      (meaning? name) := by
  intro E hE
  refine ⟨hE, by simp [Outcome.queued], fun m hm => ?_⟩
  exact ⟨E, hE, Except.ok.inj hm⟩

lemma keeps_define (hc : c.Sound names) {name : String} {v : Expr}
    (hspecial : Vocabulary.isSpecialCharacter name = false) (hname : names name)
    (hv : c.value v) : Keeps c (fun _ => True) (define name v) := by
  intro E hE
  cases hfree : E.meaning? name with
  | none =>
      rw [run_define_of_none hfree]
      exact ⟨hc.define hE hfree hspecial hname hv, by simp [Outcome.queued, Effect.queued?],
        by simp⟩
  | some m =>
      rw [run_define_of_isSome (by simp [hfree])]
      exact ⟨hE, by simp [Outcome.queued], by simp⟩

/-- Going on with a value that meets its condition. -/
lemma keeps_bind {x : Evaluation α} {f : α → Evaluation β} (hx : Keeps c P x)
    (hf : ∀ a, P a → Keeps c Q (f a)) : Keeps c Q (x >>= f) := by
  intro E hE
  have ho := hx E hE
  rw [run_bind, andThen]
  split
  · exact ⟨ho.environment, ho.queued, by simp⟩
  · next a ha =>
      have hnext := hf a (ho.value a ha) _ ho.environment
      refine ⟨hnext.environment, fun b hb => ?_, hnext.value⟩
      rw [Outcome.queued, List.filterMap_append, List.mem_append] at hb
      exact hb.elim (ho.queued b) (hnext.queued b)

end Evaluation

open Evaluation

namespace Contract.Sound

variable {c : Contract} {names : String → Prop}

/-- Respecting a sound contract is closed under the ways in which evaluations are put
together. -/
lemma closed (hc : c.Sound names) : Closed names c.value (Keeps c) where
  pure := keeps_pure
  bind := keeps_bind
  fail := keeps_fail
  literal := hc.literal
  queue hv := keeps_queue (hc.queue hv)
  lookup := by
    intro name f hf _
    refine keeps_bind (keeps_meaning? name) fun m hm => hf m fun v hv => ?_
    obtain ⟨E, hE, hmeaning⟩ := hm
    exact hc.bound hE (hmeaning.trans hv)
  define := by
    intro name x hname hreserved hspecial hx
    rw [defineName_eq hreserved hspecial]
    refine keeps_bind (keeps_meaning? name) fun m _ => ?_
    split_ifs
    · exact keeps_fail _
    · refine keeps_bind hx fun v hv => ?_
      exact keeps_bind (keeps_define hc hspecial hname hv) fun _ _ => keeps_pure hv

/-- **Evaluation respects sound contracts**, whether or not it succeeds. -/
lemma eval (hc : c.Sound names) {e : Expr} (he : ∀ name, e.Mentions name → names name)
    {E : Environment} (hE : c.environment E) : (e.eval.run E).Respects c c.value :=
  e.eval_of_closed hc.closed he E hE

end Contract.Sound

end SketchLisp

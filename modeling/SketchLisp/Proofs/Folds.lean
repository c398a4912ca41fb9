import SketchLisp.Proofs.Arithmetic
import SketchLisp.Proofs.Calls

/-!
Procedures that take any number of operands.

Sums, products, `and` and `or` take their operands one after another into a value from
which they start. A call with many operands is therefore a call with two, of which the
first is the value of the call without the last operand. This call starts once more, and
for sums the start does make a difference, as `0 + -0` is `0`. But no value that is
reached on the way is `-0`.

* `Absorbs`: the values that are reached absorb the start;
* `Procedure.FoldsBy`: procedures that take their operands in one after another;
* `Procedure.FoldsBy.apply_concat`: one more operand is one more call;
* `procedure_call_nested`: this holds of sums, products, `and` and `or`.
-/

namespace SketchLisp

/-! ### Starting again -/

/-- Whether the start has a property that is kept and that lets values absorb the start. -/
structure Absorbs {α : Type} (start : α) (f : α → α → α) (reached : α → Prop) : Prop where
  absorb : ∀ a, reached a → f start a = a
  first : reached start
  step : ∀ a b, reached a → reached (f a b)

namespace Absorbs

variable {α : Type} {start : α} {f : α → α → α} {reached : α → Prop}

/-- What is reached from the start has the property. -/
lemma reached_foldl (h : Absorbs start f reached) (xs : List α) :
    reached (xs.foldl f start) := by
  induction xs using List.reverseRecOn with
  | nil => exact h.first
  | append_singleton xs x ih =>
      rw [List.foldl_concat]
      exact h.step _ x ih

/-- Starting again from what was reached makes no difference. -/
lemma foldl_concat (h : Absorbs start f reached) (xs : List α) (y : α) :
    [xs.foldl f start, y].foldl f start = (xs ++ [y]).foldl f start := by
  rw [List.foldl_concat, List.foldl_cons, h.absorb _ (h.reached_foldl xs), List.foldl_cons,
    List.foldl_nil]

end Absorbs

lemma absorbs_and : Absorbs true Bool.and fun _ => True where
  absorb a _ := Bool.true_and a
  first := trivial
  step _ _ _ := trivial

lemma absorbs_or : Absorbs false Bool.or fun _ => True where
  absorb a _ := Bool.false_or a
  first := trivial
  step _ _ _ := trivial

lemma absorbs_multiply : Absorbs (1 : Float) (· * ·) fun _ => True where
  absorb a _ := Binary64.one_mul a
  first := trivial
  step _ _ _ := trivial

/-- Sums never come to `-0`, the only double that does not absorb zero. -/
lemma absorbs_add : Absorbs (0 : Float) (· + ·) fun x => x ≠ -0 where
  absorb _ h := Binary64.zero_add h
  first := by decide
  step _ b h := Binary64.add_ne_negZero h b

/-! ### Folds -/

namespace Procedure

/-- Whether the right operands of a procedure are the atoms of certain values, of which it
takes two or more into a start value. -/
structure FoldsBy (p : Procedure) {α : Type} (make : α → Atom) (start : α) (f : α → α → α) :
    Prop where
  exists_map : ∀ operands, p.signature.Fits operands → ∃ xs : List α, operands = xs.map make
  apply_map : ∀ xs : List α, 2 ≤ xs.length →
    p.apply (xs.map make) = .ok (.leaf (make (xs.foldl f start)))

variable {p : Procedure} {α : Type} {make : α → Atom} {start : α} {f : α → α → α}

/-- Values that are made into atoms are taken in. -/
lemma fold_map {c : Content α} (hc : c.Lawful) (name : String) (start : α) (f : α → α → α)
    {xs : List α} (h : 2 ≤ xs.length) :
    fold c name start f (xs.map c.make) = .ok (.leaf (c.make (xs.foldl f start))) := by
  have hcount : (Arity.atLeast 2).accepts (xs.map c.make).length = true := by
    simpa [Arity.accepts] using h
  rw [fold, checkArity, dif_pos hcount]
  change (c.readFrom name 0 (xs.map c.make) >>= _) = _
  rw [hc.readFrom_map]
  rfl

lemma foldsBy_of_apply {c : Content α} (hc : c.Lawful) {name : String}
    (hσ : ∀ i, p.signature.operand i = c.kind) (h : p.apply = fold c name start f) :
    p.FoldsBy c.make start f where
  exists_map operands hfits := by
    rcases hc.readFrom_cases name 0 operands with hmap | ⟨i, a, ha, hkind, -⟩
    · exact hmap
    · exact absurd ((hfits i a ha).trans (hσ i)) hkind
  apply_map xs hcount := by rw [h, fold_map hc name start f hcount]

/-- **One more operand is one more call**, of the value that was reached with the last
operand. -/
lemma FoldsBy.apply_concat {reached : α → Prop} (h : p.FoldsBy make start f)
    (habsorbs : Absorbs start f reached) {operands : List Atom} {last : Atom}
    (hcount : 2 ≤ operands.length) (hfits : p.signature.Fits (operands ++ [last])) :
    ∃ a b, p.apply operands = .ok (.leaf a) ∧ p.apply [a, last] = .ok (.leaf b)
      ∧ p.apply (operands ++ [last]) = .ok (.leaf b) := by
  obtain ⟨zs, hzs⟩ := h.exists_map _ hfits
  obtain ⟨xs, ys, rfl, hxs, hys⟩ := List.append_eq_map_iff.1 hzs
  obtain ⟨y, rfl, rfl⟩ := List.map_eq_singleton_iff.1 hys
  subst hxs
  rw [List.length_map] at hcount
  refine ⟨_, _, h.apply_map xs hcount, h.apply_map [xs.foldl f start, y] (by simp), ?_⟩
  rw [habsorbs.foldl_concat, ← h.apply_map (xs ++ [y]) (by simp; omega)]
  simp

end Procedure

/-- **Calls with many operands are nested calls with two**: let a sum, a product, `and` or
`or` be called with three operands or more, all of the right kind. It gives what it gives on
two operands, the value of the call without the last operand and this last operand. -/
theorem procedure_call_nested {p : Procedure} (hp : p ∈ [.add, .multiply, .and, .or])
    {operands : List Atom} {last : Atom} (hcount : 2 ≤ operands.length)
    (hfits : p.signature.Fits (operands ++ [last])) :
    ∃ a b, p.apply operands = .ok (.leaf a) ∧ p.apply [a, last] = .ok (.leaf b)
      ∧ p.apply (operands ++ [last]) = .ok (.leaf b) := by
  simp only [List.mem_cons, List.not_mem_nil, or_false] at hp
  rcases hp with rfl | rfl | rfl | rfl
  · have hfolds := Procedure.foldsBy_of_apply (p := .add) Content.lawful_number (fun _ => rfl) rfl
    exact hfolds.apply_concat absorbs_add hcount hfits
  · have hfolds := Procedure.foldsBy_of_apply (p := .multiply) Content.lawful_number
      (fun _ => rfl) rfl
    exact hfolds.apply_concat absorbs_multiply hcount hfits
  · have hfolds := Procedure.foldsBy_of_apply (p := .and) Content.lawful_boolean (fun _ => rfl) rfl
    exact hfolds.apply_concat absorbs_and hcount hfits
  · have hfolds := Procedure.foldsBy_of_apply (p := .or) Content.lawful_boolean (fun _ => rfl) rfl
    exact hfolds.apply_concat absorbs_or hcount hfits

/-- The sum of two `-0` is `0`, and it is the sum of this and another `-0` that three of them
give. -/
theorem procedure_call_nested_negative_zero :
    Procedure.add.signature.Fits ([.number (-0), .number (-0)] ++ [.number (-0)])
    ∧ Procedure.add.apply [.number (-0), .number (-0)] = .ok (.leaf (.number 0))
    ∧ Procedure.add.apply [.number (-0), .number (-0), .number (-0)]
      = Procedure.add.apply [.number 0, .number (-0)] := by
  have hfits : Procedure.add.signature.Fits ([.number (-0), .number (-0)] ++ [.number (-0)]) := by
    intro i a ha
    rcases i with _ | _ | _ | i <;> simp at ha <;> subst ha <;> rfl
  have hfirst : Procedure.add.apply [.number (-0), .number (-0)] = .ok (.leaf (.number 0)) := rfl
  obtain ⟨a, b, ha, hpair, hall⟩ := procedure_call_nested (by simp) (by simp) hfits
  obtain rfl : Atom.number 0 = a := by simpa [hfirst, Expr.leaf] using ha
  exact ⟨hfits, hfirst, hall.trans hpair.symm⟩

end SketchLisp

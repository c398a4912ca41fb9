import Mathlib.Tactic.Common
import SketchLisp.Expr

/-!
The nodes of an expression: the expression itself, its operands, their operands,
and so on.

* `Expr.nodes`: the nodes in the order in which they are written;
* `Expr.mem_nodes_node`: a node is the whole expression or a node of an operand;
* `Expr.Mentions`: whether a name heads a node;
* `Expr.Defines`: whether a node is a definition of a name.
-/

namespace SketchLisp

instance Atom.decidableEqSymbol (name : String) : (a : Atom) → Decidable (a = .symbol name)
  | .symbol n => decidable_of_iff (n = name) (by simp)
  | .nothing | .boolean _ | .number _ | .point _ | .line _ | .arc _ => .isFalse (by simp)

namespace Expr

mutual

/-- The nodes of an expression, in the order in which they are written. -/
def nodes : Expr → List Expr
  | node a es => node a es :: nodesEach es

/-- The nodes of expressions one after another. -/
def nodesEach : List Expr → List Expr
  | [] => []
  | e :: es => nodes e ++ nodesEach es

end

lemma nodesEach_eq_flatMap (es : List Expr) : nodesEach es = es.flatMap nodes := by
  induction es with
  | nil => rw [nodesEach, List.flatMap_nil]
  | cons e es ih => rw [nodesEach, ih, List.flatMap_cons]

/-- A node is the whole expression or a node of an operand. -/
lemma mem_nodes_node {n : Expr} {a : Atom} {es : List Expr} :
    n ∈ (node a es).nodes ↔ n = node a es ∨ ∃ e ∈ es, n ∈ e.nodes := by
  rw [nodes, List.mem_cons, nodesEach_eq_flatMap, List.mem_flatMap]

lemma mem_nodes_self (e : Expr) : e ∈ e.nodes := by
  cases e
  exact mem_nodes_node.2 (.inl rfl)

lemma mem_nodes_of_operand {n e : Expr} {a : Atom} {es : List Expr} (he : e ∈ es)
    (hn : n ∈ e.nodes) : n ∈ (node a es).nodes :=
  mem_nodes_node.2 (.inr ⟨e, he, hn⟩)

/-- The nodes of a node are nodes of the whole expression. -/
lemma mem_nodes_trans {m n e : Expr} (hm : m ∈ n.nodes) (hn : n ∈ e.nodes) : m ∈ e.nodes := by
  induction e using Expr.ind with
  | step a es ih =>
      rcases mem_nodes_node.1 hn with rfl | ⟨e, he, hne⟩
      · exact hm
      · exact mem_nodes_of_operand he (ih e he hne)

/-- Whether a name heads a node of an expression. -/
def Mentions (e : Expr) (name : String) : Prop := ∃ n ∈ e.nodes, n.head = .symbol name

instance (e : Expr) (name : String) : Decidable (e.Mentions name) :=
  inferInstanceAs (Decidable (∃ n ∈ e.nodes, n.head = .symbol name))

lemma mentions_head (name : String) (es : List Expr) : (node (.symbol name) es).Mentions name :=
  ⟨_, mem_nodes_self _, rfl⟩

/-- What an operand mentions is mentioned. -/
lemma Mentions.of_operand {e : Expr} {es : List Expr} {name : String} (h : e.Mentions name)
    (he : e ∈ es) (a : Atom) : (node a es).Mentions name := by
  obtain ⟨n, hn, hhead⟩ := h
  exact ⟨n, mem_nodes_of_operand he hn, hhead⟩

/-- Whether a node of an expression is a definition of a name. -/
def Defines (e : Expr) (name : String) : Prop :=
  ∃ d, node (.symbol "define") [leaf (.symbol name), d] ∈ e.nodes

/-- A name that is defined is mentioned. -/
lemma Defines.mentions {e : Expr} {name : String} (h : e.Defines name) : e.Mentions name := by
  obtain ⟨d, hd⟩ := h
  have htarget : leaf (.symbol name) ∈ (node (.symbol "define") [leaf (.symbol name), d]).nodes :=
    mem_nodes_of_operand (by simp) (mem_nodes_self _)
  exact ⟨_, mem_nodes_trans htarget hd, rfl⟩

end Expr

end SketchLisp

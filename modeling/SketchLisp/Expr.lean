import SketchLisp.Atom

/-!
Expressions: a head atom and a list of operands.

* `Expr.leaf`, `Expr.isLeaf`: expressions without operands;
* `Expr.text`: the written form, a bare atom for a leaf and a bracketed group
  otherwise;
* `==` on expressions: the same shape with heads that count as the same;
* `Expr.ind`: induction over an expression and all its operands.
-/

namespace SketchLisp

/-- An expression: a head with its operands. -/
inductive Expr where
  | node (head : Atom) (operands : List Expr)

namespace Expr

/-- The head of an expression. -/
def head : Expr → Atom
  | node a _ => a

/-- The operands of an expression. -/
def operands : Expr → List Expr
  | node _ es => es

/-- An expression without operands. -/
def leaf (a : Atom) : Expr := node a []

/-- Whether an expression has no operands. -/
def isLeaf (e : Expr) : Bool := e.operands.isEmpty

@[simp] theorem head_node (a : Atom) (es : List Expr) : (node a es).head = a := rfl

@[simp] theorem operands_node (a : Atom) (es : List Expr) : (node a es).operands = es := rfl

@[simp] theorem head_leaf (a : Atom) : (leaf a).head = a := rfl

/-- Induction over expressions: what holds of a node whenever it holds of all
its operands holds of every expression. -/
theorem ind {P : Expr → Prop}
    (step : ∀ a es, (∀ e ∈ es, P e) → P (node a es)) (e : Expr) : P e :=
  @Expr.rec P (fun es => ∀ e ∈ es, P e)
    (fun a es h => step a es h)
    (fun _ h => absurd h List.not_mem_nil)
    (fun _ _ he hes _ h => (List.mem_cons.1 h).elim (fun eq => eq ▸ he) (hes _))
    e

/-! ### The written form -/

mutual

/-- The written form of an expression. -/
def text : Expr → String
  | node a [] => a.text
  | node a (e :: es) => "(" ++ a.text ++ textEach (e :: es) ++ ")"

/-- Operands are written after one blank each. -/
def textEach : List Expr → String
  | [] => ""
  | e :: es => " " ++ e.text ++ textEach es

end

/-! ### Sameness -/

mutual

/-- Whether two expressions have the same shape and the same heads. -/
def same : Expr → Expr → Bool
  | node a es, node b fs => a == b && sameEach es fs

/-- Whether two lists of expressions are the same one by one. -/
def sameEach : List Expr → List Expr → Bool
  | [], [] => true
  | e :: es, f :: fs => same e f && sameEach es fs
  | [], _ :: _ => false
  | _ :: _, [] => false

end

instance : BEq Expr := ⟨same⟩

end Expr

end SketchLisp

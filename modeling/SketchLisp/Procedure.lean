import SketchLisp.EvalError
import SketchLisp.Vocabulary

/-!
Procedures: what each does with its operands.

Every procedure checks the number of its operands by itself, then reads them and
computes its value. The operands are read from left to right, and the first of a
wrong kind is an error.

* `Procedure.checkArity`: refuses a wrong number of operands;
* `Content.readFrom`, `Content.readAt`: what all operands, or the operand at one
  place, hold;
* `Procedure.apply`: the value of a procedure on given atoms.
-/

namespace SketchLisp

/-- What atoms of one kind hold, and how they are made. -/
structure Content (α : Type) where
  kind : Kind
  make : α → Atom
  value? : Atom → Option α

namespace Content

/-- Numbers. -/
def number : Content Float where
  kind := .number
  make := .number
  value?
    | .number x => some x
    | _ => none

/-- Booleans. -/
def boolean : Content Bool where
  kind := .boolean
  make := .boolean
  value?
    | .boolean b => some b
    | _ => none

/-- Points. -/
def point : Content Point where
  kind := .point
  make := .point
  value?
    | .point p => some p
    | _ => none

variable {α : Type}

/-- What an operand of the procedure `name` holds; places count from zero. -/
def read (c : Content α) (name : String) (place : Nat) (operand : Atom) : Except EvalError α :=
  match c.value? operand with
  | some value => .ok value
  | none => .error (.typeMismatch name (place + 1) c.kind operand)

/-- What operands hold, one value for each of them; the first stands at `place`. -/
def readFrom (c : Content α) (name : String) (place : Nat) : (operands : List Atom) →
    Except EvalError { values : List α // values.length = operands.length }
  | [] => .ok ⟨[], rfl⟩
  | a :: rest => do
    let value ← c.read name place a
    let ⟨values, hvalues⟩ ← c.readFrom name (place + 1) rest
    return ⟨value :: values, by rw [List.length_cons, hvalues, List.length_cons]⟩

/-- What the operand at a place holds. -/
def readAt (c : Content α) (name : String) (operands : List Atom)
    (place : Fin operands.length) : Except EvalError α :=
  c.read name place (operands.get place)

end Content

namespace Procedure

/-- Refuses a number of operands that is not allowed. -/
def checkArity (name : String) (operands : List Atom) (arity : Arity) :
    Except EvalError (PLift (arity.accepts operands.length = true)) :=
  if h : arity.accepts operands.length = true then .ok ⟨h⟩
  else .error (.wrongArgumentCount name arity operands.length)

/-- The numbers that all operands are. -/
def numbers (name : String) (operands : List Atom) :
    Except EvalError { values : List Float // values.length = operands.length } :=
  Content.number.readFrom name 0 operands

/-- The booleans that all operands are. -/
def booleans (name : String) (operands : List Atom) :
    Except EvalError { values : List Bool // values.length = operands.length } :=
  Content.boolean.readFrom name 0 operands

/-! ### Procedures of one shape -/

/-- A function of one number. -/
def unaryNumber (name : String) (op : Float → Float) (operands : List Atom) :
    Except EvalError Expr := do
  let ⟨hcount⟩ ← checkArity name operands (.exactly 1)
  have hlength := Arity.eq_of_accepts hcount
  let x ← Content.number.readAt name operands ⟨0, by omega⟩
  return .leaf (.number (op x))

/-- A function of two numbers, with atoms made of its values. -/
def ofTwoNumbers {α : Type} (make : α → Atom) (name : String) (op : Float → Float → α)
    (operands : List Atom) : Except EvalError Expr := do
  let ⟨hcount⟩ ← checkArity name operands (.exactly 2)
  let ⟨values, hvalues⟩ ← numbers name operands
  have hlength := hvalues.trans (Arity.eq_of_accepts hcount)
  return .leaf (make (op values[0] values[1]))

/-- A number made of two. -/
def binaryNumber (name : String) (op : Float → Float → Float) : List Atom → Except EvalError Expr :=
  ofTwoNumbers .number name op

/-- A relation between two numbers. -/
def compare (name : String) (op : Float → Float → Bool) : List Atom → Except EvalError Expr :=
  ofTwoNumbers .boolean name op

/-- Two values or more, taken into `start` from left to right. -/
def fold {α : Type} (c : Content α) (name : String) (start : α) (op : α → α → α)
    (operands : List Atom) : Except EvalError Expr := do
  let _ ← checkArity name operands (.atLeast 2)
  let ⟨values, _⟩ ← c.readFrom name 0 operands
  return .leaf (c.make (values.foldl op start))

/-- A fold of numbers. -/
def foldNumbers (name : String) (start : Float) (op : Float → Float → Float) :
    List Atom → Except EvalError Expr :=
  fold .number name start op

/-- A fold of booleans. -/
def foldBooleans (name : String) (start : Bool) (op : Bool → Bool → Bool) :
    List Atom → Except EvalError Expr :=
  fold .boolean name start op

/-! ### Procedures of their own shape -/

/-- The opposite of a boolean. -/
def negation (operands : List Atom) : Except EvalError Expr := do
  let ⟨hcount⟩ ← checkArity "not" operands (.exactly 1)
  let ⟨values, hvalues⟩ ← booleans "not" operands
  have hlength := hvalues.trans (Arity.eq_of_accepts hcount)
  return .leaf (.boolean (!values[0]))

/-- The negative of one number, or the difference of two. The numbers are counted
once more when it is decided which. -/
def difference (operands : List Atom) : Except EvalError Expr := do
  let _ ← checkArity "-" operands (.oneOf 1 2)
  let ⟨values, _⟩ ← numbers "-" operands
  match values with
  | [x] => return .leaf (.number (-x))
  | [x, y] => return .leaf (.number (x - y))
  | values => throw (.wrongArgumentCount "-" (.oneOf 1 2) values.length)

/-- The line between two points. -/
def makeLine (operands : List Atom) : Except EvalError Expr := do
  let ⟨hcount⟩ ← checkArity "line" operands (.exactly 2)
  have hlength := Arity.eq_of_accepts hcount
  let first ← Content.point.readAt "line" operands ⟨0, by omega⟩
  let second ← Content.point.readAt "line" operands ⟨1, by omega⟩
  return .leaf (.line ⟨first, second⟩)

/-- The arc with a given center, start and span. -/
def makeArc (operands : List Atom) : Except EvalError Expr := do
  let ⟨hcount⟩ ← checkArity "arc" operands (.exactly 3)
  have hlength := Arity.eq_of_accepts hcount
  let center ← Content.point.readAt "arc" operands ⟨0, by omega⟩
  let start ← Content.point.readAt "arc" operands ⟨1, by omega⟩
  let span ← Content.number.readAt "arc" operands ⟨2, by omega⟩
  return .leaf (.arc ⟨center, start, span⟩)

/-! ### All procedures -/

/-- The value of a procedure on given atoms. Division and comparison follow the
rules of binary64 numbers, so nothing is equal to what is not a number. -/
def apply : Procedure → List Atom → Except EvalError Expr
  | not => negation
  | and => foldBooleans "and" true Bool.and
  | or => foldBooleans "or" false Bool.or
  | less => compare "<" fun x y => x < y
  | lessEqual => compare "<=" fun x y => x ≤ y
  | greater => compare ">" fun x y => y < x
  | greaterEqual => compare ">=" fun x y => y ≤ x
  | equal => compare "=" fun x y => x == y
  | add => foldNumbers "+" 0 (· + ·)
  | subtract => difference
  | multiply => foldNumbers "*" 1 (· * ·)
  | divide => binaryNumber "/" (· / ·)
  | log10 => unaryNumber "log10" Float.log10
  | power => binaryNumber "pow" Float.pow
  | point => ofTwoNumbers .point "point" Point.mk
  | line => makeLine
  | arc => makeArc
  | sine => unaryNumber "sin" Float.sin
  | cosine => unaryNumber "cos" Float.cos
  | arctangent => binaryNumber "arctan" Float.atan2

end Procedure

end SketchLisp

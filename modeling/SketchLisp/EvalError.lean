import SketchLisp.Arity
import SketchLisp.Expr

/-!
The ways in which evaluation fails.
-/

namespace SketchLisp

/-- Why an expression has no value. -/
inductive EvalError where
  /-- A form or procedure was given a number of operands that it does not take. -/
  | wrongArgumentCount (name : String) (expected : Arity) (actual : Nat)
  /-- A procedure was given an atom of the wrong kind; positions count from one. -/
  | typeMismatch (name : String) (position : Nat) (expected : Kind) (actual : Atom)
  /-- The name stands for nothing that can be used here. -/
  | unboundName (name : String)
  /-- The name stands for something already. -/
  | redefinition (name : String)
  /-- The name belongs to the language and cannot be defined. -/
  | reservedName (name : String)
  /-- The name is a character that can never be evaluated. -/
  | specialCharacter (name : String)
  /-- What should be defined is not a name. -/
  | invalidDefineTarget (target : Expr)
  /-- A condition is neither true nor false. -/
  | nonBooleanCondition (value : Atom)
  /-- There is nothing to evaluate. -/
  | noProgram

namespace EvalError

/-- The message for an error. -/
def message : EvalError → String
  | wrongArgumentCount name expected actual =>
    s!"Wrong number of arguments for {name}. Expected {expected.text}, got {actual}"
  | typeMismatch name position expected actual =>
    s!"Invalid type for argument {position} of {name}. Expected {expected.name}, "
      ++ s!"got {actual.kind.name} {actual.text}"
  | unboundName name => s!"Unbound name: {name}"
  | redefinition name => s!"Name is already defined: {name}"
  | reservedName name => s!"Reserved name cannot be defined: {name}"
  | specialCharacter name => s!"Special character cannot be evaluated: {name}"
  | invalidDefineTarget target =>
    s!"define expects a symbol as its first argument, got {target.text}"
  | nonBooleanCondition value =>
    s!"Non boolean used in condition: {value.kind.name} {value.text}"
  | noProgram => "No parsed program to evaluate"

end EvalError

end SketchLisp

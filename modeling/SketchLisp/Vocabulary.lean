/-!
The names that belong to the language.

Which names are reserved is written down in lists of names, apart from the forms
and procedures themselves. That both fit together is proved with environments.

* `SpecialForm`: the four forms that decide themselves which operands to
  evaluate;
* `Procedure`: the twenty procedures, which take the values of all operands;
* `isReserved`: names that no program can define;
* `isSpecialCharacter`: names that can be read but never evaluated.
-/

namespace SketchLisp

/-- A form with an evaluation rule of its own. -/
inductive SpecialForm where
  | define
  | conditional
  | sequence
  | draw
deriving DecidableEq, Repr

namespace SpecialForm

/-- The name that calls a form. -/
def name : SpecialForm → String
  | define => "define"
  | conditional => "if"
  | sequence => "begin"
  | draw => "draw"

/-- All forms. -/
def all : List SpecialForm := [define, sequence, conditional, draw]

end SpecialForm

/-- A procedure of the language. -/
inductive Procedure where
  | not
  | and
  | or
  | less
  | lessEqual
  | greater
  | greaterEqual
  | equal
  | add
  | subtract
  | multiply
  | divide
  | log10
  | power
  | point
  | line
  | arc
  | sine
  | cosine
  | arctangent
deriving DecidableEq, Repr

namespace Procedure

/-- The name that calls a procedure. -/
def name : Procedure → String
  | not => "not"
  | and => "and"
  | or => "or"
  | less => "<"
  | lessEqual => "<="
  | greater => ">"
  | greaterEqual => ">="
  | equal => "="
  | add => "+"
  | subtract => "-"
  | multiply => "*"
  | divide => "/"
  | log10 => "log10"
  | power => "pow"
  | point => "point"
  | line => "line"
  | arc => "arc"
  | sine => "sin"
  | cosine => "cos"
  | arctangent => "arctan"

/-- All procedures. -/
def all : List Procedure :=
  [not, and, or, less, lessEqual, greater, greaterEqual, equal, add, subtract, multiply, divide,
   log10, power, point, line, arc, sine, cosine, arctangent]

end Procedure

namespace Vocabulary

/-- The names of the special forms. -/
def keywords : List String := ["define", "if", "begin", "draw"]

/-- The names of the procedures that are written as signs of arithmetic. -/
def arithmeticOperators : List String := ["+", "-", "*", "/"]

/-- The names of all other procedures. -/
def procedureNames : List String :=
  ["<", "<=", ">", ">=", "=", "not", "and", "or", "log10", "pow", "point", "line", "arc", "sin",
   "cos", "arctan"]

/-- The name of the constant `π`. -/
def pi : String := "pi"

/-- Whether a name belongs to the language, so that no program can define it. -/
def isReserved (name : String) : Bool :=
  keywords.contains name || arithmeticOperators.contains name || procedureNames.contains name
    || name == pi

theorem isReserved_iff_mem {name : String} : isReserved name = true
    ↔ name ∈ keywords ++ arithmeticOperators ++ procedureNames ++ [pi] := by
  simp [isReserved, or_assoc]

/-- Characters that are names of their own but stand for nothing. -/
def specialCharacters : List String := ["@", "!", "#", "$", "%", "^", "&"]

/-- Whether a name is one of the characters that can never be evaluated. -/
def isSpecialCharacter (name : String) : Bool := specialCharacters.contains name

end Vocabulary

end SketchLisp

import SketchLisp.Session

/-!
Events: what a running program reports to its log.
-/

namespace SketchLisp.Log

/-- How important an event is; the later a level stands, the finer it is. -/
inductive Level where
  | error
  | warn
  | info
  | debug
  | trace
deriving DecidableEq, Repr

namespace Level

/-- The name of a level. -/
def name : Level → String
  | error => "ERROR"
  | warn => "WARN"
  | info => "INFO"
  | debug => "DEBUG"
  | trace => "TRACE"

/-- The place of a level among all levels, the coarsest first. -/
def rank : Level → Nat
  | error => 1
  | warn => 2
  | info => 3
  | debug => 4
  | trace => 5

end Level

/-- Something worth a line in the log. -/
inductive Event where
  | parsed (program : Expr)
  | parseFailed (error : SyntaxError)
  | effect (effect : Effect)
  | evaluated (value : Expr)
  | evaluationFailed (error : EvalError)
  | environmentReset
  | drawn (figure : Atom)

namespace Event

/-- Figures are announced to whoever runs a program; all else concerns the
working of the interpreter. -/
def level : Event → Level
  | drawn _ => .info
  | _ => .debug

/-- The part of the program that reports an event. -/
def target : Event → String
  | drawn _ => "slisp"
  | _ => "slisp_interpreter"

/-- What an event says. -/
def text : Event → String
  | parsed program => s!"parsed program program={program.text}"
  | parseFailed error => s!"parse failed error={error.message}"
  | effect (.bound name value) => s!"bound name name={name} value={value.text}"
  | effect (.queued atom) => s!"queued graphic graphic={atom.text}"
  | evaluated value => s!"evaluated program value={value.text}"
  | evaluationFailed error => s!"evaluation failed error={error.message}"
  | environmentReset => "environment reset to defaults"
  | drawn figure => s!"draw graphic={figure.text}"

/-- The line for an event. -/
def line (e : Event) : String := s!"{e.level.name} {e.text}"

end Event

/-- The events of an evaluation: its effects, and then how it ended. -/
def ofReport (r : Session.Report) : List Event :=
  r.effects.map .effect ++
    match r.result with
    | .ok value => [.evaluated value]
    | .error error => [.evaluationFailed error]

end SketchLisp.Log

import SketchLisp.Eval
import SketchLisp.Reading

/-!
Sessions: an environment, the program to evaluate next, and the queue of atoms
to draw.

* `Session.load`, `Session.loadSource`: replace the program, or drop it if the
  new one cannot be read;
* `Session.run`: evaluates the program;
* `Session.drain`: empties the queue and gives out the figures in it;
* `Session.clearGraphics`, `Session.clearProgram`, `Session.resetEnvironment`.
-/

namespace SketchLisp

/-- What a program is read from. -/
inductive Source where
  /-- Bytes that hold a text in UTF-8, or fail to. -/
  | bytes (content : ByteArray)
  /-- A source that cannot be read to its end, for a reason. -/
  | failing (reason : String)

/-- The text of a source, or the reason why there is none. -/
def Source.text : Source → Except String String
  | bytes content =>
    match String.fromUTF8? content with
    | some text => .ok text
    | none => .error "stream did not contain valid UTF-8"
  | failing reason => .error reason

/-- Why a program cannot be loaded. -/
inductive LoadError where
  /-- Its text could not be read. -/
  | unreadable (reason : String)
  /-- Its text is not an expression. -/
  | malformed (error : SyntaxError)

/-- The message for an error. -/
def LoadError.message : LoadError → String
  | unreadable reason => s!"Could not read program: {reason}"
  | malformed error => error.message

/-- A session between two of its operations. -/
structure Session where
  environment : Environment
  program : Option Expr
  graphics : List Atom

namespace Session

/-- A session in which nothing has happened. -/
def fresh : Session := ⟨.standard, none, []⟩

instance : Inhabited Session := ⟨fresh⟩

/-- Takes the program that a text spells. If there is none, the program held so
far is dropped too. -/
def load (s : Session) (text : String) : Except SyntaxError Expr × Session :=
  match Expr.parse text with
  | .ok e => (.ok e, { s with program := some e })
  | .error error => (.error error, { s with program := none })

/-- Takes the program of a source. If there is none, the program held so far is
dropped too. -/
def loadSource (s : Session) (source : Source) : Except LoadError Expr × Session :=
  match source.text with
  | .ok text =>
    let (result, s) := s.load text
    (result.mapError .malformed, s)
  | .error reason => (.error (.unreadable reason), { s with program := none })

/-- What evaluating a program gave and did. -/
structure Report where
  result : Except EvalError Expr
  effects : List Effect

/-- Evaluates the program. Names that it defines stay, and atoms that it draws
are queued, also if it fails. -/
def run (s : Session) : Report × Session :=
  match s.program with
  | none => (⟨.error .noProgram, []⟩, s)
  | some e =>
    let (outcome, graphics) := e.eval.runFrom s.environment s.graphics
    (⟨outcome.result, outcome.effects⟩,
      { s with environment := outcome.environment, graphics := graphics })

/-- Running a program adds to the queue what evaluating it queues. -/
theorem run_of_program {s : Session} {e : Expr} (h : s.program = some e) :
    s.run = (⟨(e.eval.run s.environment).result, (e.eval.run s.environment).effects⟩,
      { s with
        environment := (e.eval.run s.environment).environment
        graphics := s.graphics ++ (e.eval.run s.environment).queued }) := by
  simp only [run, h, Evaluation.runFrom_eq]

/-- Empties the queue; gives the figures that were in it. -/
def drain (s : Session) : List Atom × Session :=
  (s.graphics.filter Atom.isGraphic, { s with graphics := [] })

/-- Empties the queue. -/
def clearGraphics (s : Session) : Session := { s with graphics := [] }

/-- Drops the program. -/
def clearProgram (s : Session) : Session := { s with program := none }

/-- Forgets all names that programs have defined. -/
def resetEnvironment (s : Session) : Session := { s with environment := .standard }

end Session

end SketchLisp

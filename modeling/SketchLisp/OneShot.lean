import SketchLisp.Log.Event
import SketchLisp.ResultLine

/-!
Running a single program in a session of its own.

* `OneShot.execute`: loads and evaluates a program once.
-/

namespace SketchLisp.OneShot

/-- Why a run has no result. -/
inductive Failure where
  | load (error : LoadError)
  | eval (error : EvalError)

/-- The message for a failure. -/
def Failure.message : Failure → String
  | load error => error.message
  | eval error => error.message

/-- What a run leads to: its result line if it has one, the figures drawn, and
what goes into the log. -/
structure Run where
  result : Except Failure (Option String)
  drawn : List Atom
  events : List Log.Event

/-- The event of a program that cannot be loaded, if its text was there. -/
def loadEvents : LoadError → List Log.Event
  | .malformed error => [.parseFailed error]
  | .unreadable _ => []

/-- Loads and evaluates a program once. Figures are drawn only if the evaluation
succeeds. -/
def execute (source : Source) : Run :=
  match Session.fresh.loadSource source with
  | (.error error, _) => ⟨.error (.load error), [], loadEvents error⟩
  | (.ok program, s) =>
    let (report, s) := s.run
    let events := .parsed program :: Log.ofReport report
    match report.result with
    | .error error => ⟨.error (.eval error), [], events⟩
    | .ok value =>
      let (drawn, _) := s.drain
      ⟨.ok value.resultLine?, drawn, events ++ drawn.map .drawn⟩

end SketchLisp.OneShot

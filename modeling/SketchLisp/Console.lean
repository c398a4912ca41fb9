import SketchLisp.Log.Event
import SketchLisp.ResultLine
import SketchLisp.Text.Blank

/-!
The console: programs line by line, each with an answer.

A line that cannot be read changes nothing. A line whose evaluation fails takes
all definitions with it, unless the console is told to keep them.

* `Console.answer`: what one line does;
* `Console.programs`: the programs among lines;
* `Console.transcript`: what all lines do.
-/

namespace SketchLisp.Console

/-- The line that shows an error. -/
def errorLine (message : String) : String := "Error: " ++ message

/-- What a line leads to: the lines shown for it, the figures drawn, and what
goes into the log. -/
structure Reply where
  lines : List String
  drawn : List Atom
  events : List Log.Event

/-- Evaluates the program just loaded and shows its value or its error. -/
def evaluate (keepEnvironment : Bool) (s : Session) : Reply × Session :=
  let (report, s) := s.run
  match report.result with
  | .ok value => (⟨value.resultLine?.toList, [], Log.ofReport report⟩, s)
  | .error error =>
    let shown := [errorLine error.message]
    if keepEnvironment then (⟨shown, [], Log.ofReport report⟩, s)
    else (⟨shown, [], Log.ofReport report ++ [.environmentReset]⟩, s.resetEnvironment)

/-- Answers one line. Whatever has been queued is drawn if the line could be
read, also if its evaluation failed. -/
def answer (keepEnvironment : Bool) (s : Session) (line : String) : Reply × Session :=
  match s.load line with
  | (.error error, s) => (⟨[errorLine error.message], [], [.parseFailed error]⟩, s)
  | (.ok program, s) =>
    let (reply, s) := evaluate keepEnvironment s
    let (drawn, s) := s.drain
    (⟨reply.lines, drawn, .parsed program :: reply.events ++ drawn.map .drawn⟩, s)

/-- Answers lines one after another. -/
def answers (keepEnvironment : Bool) (s : Session) : List String → List Reply
  | [] => []
  | line :: rest =>
    let (reply, s) := answer keepEnvironment s line
    reply :: answers keepEnvironment s rest

/-- The programs among lines: all but the blank ones. -/
def programs (lines : List String) : List String :=
  lines.filter fun line => !Text.isBlankLine line

/-- Answers all programs among lines. -/
def transcript (keepEnvironment : Bool) (lines : List String) : List Reply :=
  answers keepEnvironment .fresh (programs lines)

/-- The line shown at the end of the input. -/
def farewell : String := "CTRL-D"

end SketchLisp.Console

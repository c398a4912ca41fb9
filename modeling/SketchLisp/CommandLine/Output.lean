import SketchLisp.CommandLine.Path
import SketchLisp.Console
import SketchLisp.OneShot

/-!
What the command line shows.

What surrounds the program is handed in: the function that reads the arguments, the sources
that paths open, the lines that the console gets, and the function that words the log.

* `Output`: what a run shows, and the code it ends with;
* `Options`: the settings made by the arguments, with `Options.output` for what they lead to;
* `ArgumentReader`: what makes settings of arguments;
* `invoke`: the output for arguments.
-/

namespace SketchLisp.CommandLine

/-- What a run of the command line shows. -/
structure Output where
  exitCode : Nat
  stdout : String
  /-- What the run itself says on the standard error. -/
  stderr : String
  events : List Log.Event

/-- Lines as a text. -/
def unlines (lines : List String) : String := String.join (lines.map (· ++ "\n"))

namespace Output

/-- A run that shows lines and succeeds. -/
def success (lines : List String) (events : List Log.Event) : Output :=
  ⟨0, unlines lines, "", events⟩

/-- A run that fails with a message. -/
def failure (message : String) (events : List Log.Event) : Output :=
  ⟨1, "", unlines [Console.errorLine message], events⟩

/-- The output of a single program. -/
def ofRun (r : OneShot.Run) : Output :=
  match r.result with
  | .ok line => success line.toList r.events
  | .error error => failure error.message r.events

/-- The output of the program in a file, given what opening the file led to. -/
def ofFile (path : String) (opened : Except String Source) : Output :=
  if Path.isSource path then
    match opened with
    | .ok source => ofRun (OneShot.execute source)
    | .error reason => failure s!"could not open {path}: {reason}" []
  else failure s!"{path} is not a .{Path.sourceExtension} file" []

/-- The output of a console. -/
def ofReplies (replies : List Console.Reply) : Output :=
  success (replies.flatMap (·.lines) ++ [Console.farewell]) (replies.flatMap (·.events))

/-- The whole standard error, which the log shares. -/
def standardError (o : Output) (log : List Log.Event → List String) : String :=
  unlines (log o.events) ++ o.stderr

end Output

/-- The settings made by the arguments. -/
structure Options where
  expression : Option String
  path : Option String
  keepEnvironment : Bool
deriving DecidableEq, Repr

/-- What settings lead to: an expression is evaluated, or else the program in a file, or else
the lines of the console. -/
def Options.output (o : Options) (source : String → Except String Source)
    (lines : List String) : Output :=
  match o.expression, o.path with
  | some text, _ => .ofRun (OneShot.execute (.bytes text.toUTF8))
  | none, none => .ofReplies (Console.transcript o.keepEnvironment lines)
  | none, some path => .ofFile path (source path)

/-- What reading the arguments comes to. -/
inductive Invocation where
  /-- Settings to run with. -/
  | settled (options : Options)
  /-- A run that ends there: for help, for the version, or because the arguments are wrong. -/
  | ended (output : Output)

/-- What makes settings of arguments. -/
abbrev ArgumentReader := List String → Invocation

/-- The output for arguments. -/
def invoke (reader : ArgumentReader) (arguments : List String)
    (source : String → Except String Source) (lines : List String) : Output :=
  match reader arguments with
  | .settled options => options.output source lines
  | .ended output => output

end SketchLisp.CommandLine

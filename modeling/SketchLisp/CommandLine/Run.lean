import SketchLisp.CommandLine.Arguments
import SketchLisp.CommandLine.Directory
import SketchLisp.Text.Backspace

/-!
Running the command line on texts alone.

* `run`: the output for arguments, a directory and an input.
-/

namespace SketchLisp.CommandLine

/-- The output for arguments, in a directory, with an input. -/
def run (arguments : List String) (directory : Directory) (input : String) : Output :=
  invoke readArguments arguments directory.source (Text.typedLines input)

end SketchLisp.CommandLine

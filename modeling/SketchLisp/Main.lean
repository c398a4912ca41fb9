import SketchLisp.CommandLine.Run
import SketchLisp.Log.Filter

/-!
The command line program.

Files are opened and the console is read here; what is shown for them is decided
by the modules that this one imports.
-/

namespace SketchLisp.CommandLine

/-- Writes the events that a filter shows to the standard error. -/
def report (filter : Log.Filter) (events : List Log.Event) : IO Unit := do
  for line in filter.lines events do
    (← IO.getStderr).putStrLn line

/-- Shows an output and gives its exit code. -/
def emit (filter : Log.Filter) (output : Output) : IO UInt32 := do
  (← IO.getStdout).putStr output.stdout
  (← IO.getStderr).putStr (output.standardError filter.lines)
  return UInt32.ofNat output.exitCode

/-- The reason for an error of the system, with its code. -/
def reason : IO.Error → String
  | .noFileOrDirectory _ code details | .permissionDenied _ code details
  | .inappropriateType _ code details => s!"{details} (os error {code})"
  | error => toString error

/-- Opens and reads a file. -/
def openSource (path : String) : IO (Except String Source) := do
  match ← (IO.FS.Handle.mk path .read).toBaseIO with
  | .error error => return .error (reason error)
  | .ok handle =>
    match ← handle.readBinToEnd.toBaseIO with
    | .error error => return .ok (.failing (reason error))
    | .ok content => return .ok (.bytes content)

/-- Answers the standard input line by line until it ends. -/
partial def converse (filter : Log.Filter) (keepEnvironment : Bool) (s : Session) : IO Unit := do
  let text ← (← IO.getStdin).getLine
  if text.isEmpty then
    IO.println Console.farewell
  else
    let mut session := s
    for line in Console.programs (Text.typedLines text) do
      let (reply, next) := Console.answer keepEnvironment session line
      report filter reply.events
      IO.print (unlines reply.lines)
      session := next
    converse filter keepEnvironment session

end SketchLisp.CommandLine

open SketchLisp CommandLine in
/-- Runs the command line. The log filter is a setting of the surroundings. -/
def main (arguments : List String) : IO UInt32 := do
  let filter := Log.Filter.ofSetting (← IO.getEnv "RUST_LOG")
  match readArguments arguments with
  | .ended output => emit filter output
  | .settled ⟨none, none, keepEnvironment⟩ =>
    converse filter keepEnvironment .fresh
    return 0
  | .settled options =>
    let opened ← match options.path with
      | some path => if Path.isSource path then openSource path else pure (.error "")
      | none => pure (.error "")
    emit filter (options.output (fun _ => opened) [])

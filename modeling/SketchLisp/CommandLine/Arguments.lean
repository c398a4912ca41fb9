import SketchLisp.CommandLine.Output

/-!
An argument reader, by the usual rules for options.

It belongs to the surroundings of the program: the theory takes any argument reader.

* `Argument.ofText`: an argument by its form;
* `Request.ofArguments`: what the arguments ask for, or why they are wrong;
* `readArguments`: the reader.
-/

namespace SketchLisp.CommandLine

/-- An argument by its form. A single minus is plain. -/
inductive Argument where
  /-- Two minuses: all arguments after it are plain. -/
  | separator
  /-- Two minuses and a name, and what follows an equals sign if there is one. -/
  | long (name : String) (value : Option String)
  /-- A minus, a letter, and the characters after it. -/
  | short (letter : Char) (rest : List Char)
  /-- Anything else. -/
  | plain (text : String)
deriving DecidableEq, Repr

/-- The form of an argument. -/
def Argument.ofText (text : String) : Argument :=
  match text.toList with
  | ['-', '-'] => separator
  | '-' :: '-' :: rest =>
    let name := String.ofList (rest.takeWhile (· != '='))
    match rest.dropWhile (· != '=') with
    | [] => long name none
    | _ :: value => long name (some (String.ofList value))
  | '-' :: letter :: rest => short letter rest
  | _ => plain text

/-- The value that is attached to a letter, with or without an equals sign. -/
def attachedValue : List Char → String
  | '=' :: text => String.ofList text
  | text => String.ofList text

/-- What is wrong with the arguments. -/
inductive UsageError where
  | unknownOption (argument : String)
  | missingValue (argument : String)
  | unexpectedValue (argument : String)
  | repeatedOption (argument : String)
  | excessPath (path : String)
  | emptyPath
  | expressionAndPath
deriving DecidableEq, Repr

/-- The message for an error. -/
def UsageError.message : UsageError → String
  | unknownOption argument => s!"unexpected argument '{argument}'"
  | missingValue argument => s!"a value is required for '{argument}'"
  | unexpectedValue argument => s!"no value is allowed in '{argument}'"
  | repeatedOption argument => s!"'{argument}' cannot be used more than once"
  | excessPath path => s!"unexpected second path '{path}'"
  | emptyPath => "a path cannot be empty"
  | expressionAndPath => "an expression cannot be used together with a path"

namespace Options

/-- No settings. -/
def none : Options := ⟨.none, .none, false⟩

/-- Sets the expression, once. -/
def setExpression (o : Options) (argument text : String) : Except UsageError Options :=
  if o.expression.isSome then .error (.repeatedOption argument)
  else .ok { o with expression := some text }

/-- Sets the path, once. -/
def setPath (o : Options) (path : String) : Except UsageError Options :=
  if path.isEmpty then .error .emptyPath
  else if o.path.isSome then .error (.excessPath path)
  else .ok { o with path := some path }

/-- Asks to keep the environment, once. -/
def setKeepEnvironment (o : Options) (argument : String) : Except UsageError Options :=
  if o.keepEnvironment then .error (.repeatedOption argument)
  else .ok { o with keepEnvironment := true }

end Options

/-- What the arguments ask for. -/
inductive Request where
  | help
  | version
  /-- Run with settings. -/
  | settings (options : Options)
deriving DecidableEq, Repr

namespace Request

/-- What settings ask for, once all arguments are read. -/
def ofOptions (o : Options) : Except UsageError Request :=
  if o.expression.isSome && o.path.isSome then .error .expressionAndPath else .ok (.settings o)

/-- Reads arguments of which all are plain. -/
def ofPaths (o : Options) : List String → Except UsageError Request
  | [] => ofOptions o
  | path :: rest => do ofPaths (← o.setPath path) rest

/-- Reads arguments from left to right, the first of them as the expression that
an option is `awaiting`, if there is such an option. A wish for help or for the
version is granted as soon as it is met. -/
def ofArgumentsFrom (o : Options) (awaiting : Option String) :
    List String → Except UsageError Request
  | [] =>
    match awaiting with
    | some option => .error (.missingValue option)
    | none => ofOptions o
  | argument :: rest =>
    match awaiting, Argument.ofText argument with
    | some option, .plain text => do
      ofArgumentsFrom (← o.setExpression option text) none rest
    | some option, _ => .error (.missingValue option)
    | none, .separator => ofPaths o rest
    | none, .plain path => do ofArgumentsFrom (← o.setPath path) none rest
    | none, .short 'h' _ | none, .long "help" none => .ok .help
    | none, .short 'V' _ | none, .long "version" none => .ok .version
    | none, .short 'e' [] | none, .long "expression" none =>
      ofArgumentsFrom o (some argument) rest
    | none, .short 'e' text => do
      ofArgumentsFrom (← o.setExpression argument (attachedValue text)) none rest
    | none, .long "expression" (some text) => do
      ofArgumentsFrom (← o.setExpression argument text) none rest
    | none, .long "keep-environment" none => do
      ofArgumentsFrom (← o.setKeepEnvironment argument) none rest
    | none, .long "help" (some _) | none, .long "version" (some _)
    | none, .long "keep-environment" (some _) => .error (.unexpectedValue argument)
    | none, .short _ _ | none, .long _ _ => .error (.unknownOption argument)

/-- What the arguments ask for. -/
def ofArguments (arguments : List String) : Except UsageError Request :=
  ofArgumentsFrom .none none arguments

end Request

/-- The name and version of the program. -/
def versionLine : String := "slisp-runner 0.1.0"

/-- The ways to use the program. -/
def helpLines : List String :=
  ["Usage: slisp [OPTIONS] [PATH]",
   "",
   "Arguments:",
   "  [PATH]                         Program file to evaluate (must end in .slp)",
   "",
   "Options:",
   "  -e, --expression <EXPRESSION>  Evaluate a single expression and exit",
   "      --keep-environment         Keep definitions after an evaluation error",
   "  -h, --help                     Print help",
   "  -V, --version                  Print version"]

/-- The output of a run with wrong arguments. -/
def UsageError.output (error : UsageError) : Output :=
  ⟨2, "", unlines ["error: " ++ error.message], []⟩

/-- Reads the arguments. -/
def readArguments : ArgumentReader := fun arguments =>
  match Request.ofArguments arguments with
  | .error error => .ended error.output
  | .ok .help => .ended (.success helpLines [])
  | .ok .version => .ended (.success [versionLine] [])
  | .ok (.settings o) => .settled o

end SketchLisp.CommandLine

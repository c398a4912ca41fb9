/-!
Paths of files.
-/

namespace SketchLisp.CommandLine.Path

/-- The steps of a path, of which those that stay in place are left out. -/
def steps (path : String) : List String :=
  (path.splitOn "/").filter fun step => step != "" && step != "."

/-- The extension of a path: what follows the last point in the name of its last
step. A point at the beginning of a name does not count, and the step upwards
has no name. -/
def extension? (path : String) : Option String :=
  match (steps path).getLast? with
  | none | some ".." => none
  | some name =>
    let ending := name.toList.reverse.takeWhile (· != '.')
    match name.toList.reverse.dropWhile (· != '.') with
    | [] | [_] => none
    | _ :: _ :: _ => some (String.ofList ending.reverse)

/-- The extension of program files. -/
def sourceExtension : String := "slp"

/-- Whether a path names a program file. -/
def isSource (path : String) : Bool := extension? path == some sourceExtension

end SketchLisp.CommandLine.Path

import SketchLisp.CommandLine.Path
import SketchLisp.Session

/-!
Directories in memory, in which a command line can be run.

* `Directory.locate`: what a path leads to;
* `Directory.source`: the source that opening a path gives.
-/

namespace SketchLisp.CommandLine

/-- Something in a directory. -/
inductive Item where
  | file (content : ByteArray)
  | folder

/-- The items of a directory and of the folders in it, each with the names that
lead to it. -/
structure Directory where
  items : List (List String × Item)

namespace Directory

/-- A directory without items. -/
def empty : Directory := ⟨[]⟩

/-- Puts an item where a path says. -/
def insert (d : Directory) (path : String) (item : Item) : Directory :=
  ⟨(Path.steps path, item) :: d.items⟩

/-- Why a path leads nowhere. -/
inductive LocateError where
  | notFound
  | notFolder

/-- The reason as the system words it. -/
def LocateError.reason : LocateError → String
  | notFound => "No such file or directory (os error 2)"
  | notFolder => "Not a directory (os error 20)"

/-- The item that names lead to; no names lead to the directory itself. -/
def item? (d : Directory) (names : List String) : Option Item :=
  if names.isEmpty then some .folder else d.items.lookup names

/-- Follows steps, from the names reached so far. Every step has to start at a
folder, also one that stays in place. Nothing is known to lie above the
directory itself. -/
def follow (d : Directory) (names : List String) : List String → Except LocateError Item
  | [] =>
    match d.item? names with
    | some item => .ok item
    | none => .error .notFound
  | step :: rest =>
    match d.item? names with
    | none => .error .notFound
    | some (.file _) => .error .notFolder
    | some .folder =>
      if step == "" || step == "." then d.follow names rest
      else if step == ".." then
        if names.isEmpty then .error .notFound else d.follow names.dropLast rest
      else d.follow (names ++ [step]) rest

/-- The item that a path leads to. -/
def locate (d : Directory) (path : String) : Except LocateError Item :=
  if path.startsWith "/" then .error .notFound else d.follow [] (path.splitOn "/")

/-- The source that opening a path gives, or the reason why it cannot be opened.
A folder can be opened, but not read. -/
def source (d : Directory) (path : String) : Except String Source :=
  match d.locate path with
  | .ok (.file content) => .ok (.bytes content)
  | .ok .folder => .ok (.failing "Is a directory (os error 21)")
  | .error error => .error error.reason

end Directory

end SketchLisp.CommandLine

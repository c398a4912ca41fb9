import SketchLisp.Text.Cluster
import SketchLisp.Text.Lines

/-!
Backspaces in a typed line: each takes back the cluster before it.

Typing lines belongs to the surroundings of the program: the theory takes the lines as they are.

* `Draft`: a line as far as it has been typed;
* `withoutBackspaces`: a line after its backspaces have done their work;
* `typedLines`: the lines of an input.
-/

namespace SketchLisp.Text

/-- The backspace. -/
def backspace : Char := '\x08'

/-- A line being typed: its characters, and the sizes of the clusters that can be
taken back, both with the latest first. A size is in bytes and one byte wide, so
that of a cluster of 256 bytes or more is taken modulo 256. -/
structure Draft where
  typed : List Char
  sizes : List UInt8

namespace Draft

/-- The line before anything is typed. -/
def empty : Draft := ⟨[], []⟩

/-- Drops as many leading characters as fit into a number of bytes. -/
def dropBytes : Nat → List Char → List Char
  | _, [] => []
  | count, c :: rest =>
    if count < c.utf8Size then c :: rest else dropBytes (count - c.utf8Size) rest

/-- Takes back the latest cluster, if there is one. -/
def takeBack (draft : Draft) : Draft :=
  match draft.sizes with
  | [] => draft
  | size :: sizes => ⟨dropBytes size.toNat draft.typed, sizes⟩

/-- How many bytes characters take. -/
def byteCount : List Char → Nat
  | [] => 0
  | c :: rest => c.utf8Size + byteCount rest

/-- Adds a cluster. -/
def add (draft : Draft) (cluster : List Char) : Draft :=
  ⟨cluster.reverse ++ draft.typed, UInt8.ofNat (byteCount cluster) :: draft.sizes⟩

/-- Types a cluster, which may be a backspace. -/
def type (draft : Draft) (cluster : List Char) : Draft :=
  if cluster == [backspace] then draft.takeBack else draft.add cluster

end Draft

/-- The line that remains of a typed line after its backspaces. -/
def withoutBackspaces (line : String) : String :=
  String.ofList ((clusters line.toList).foldl Draft.type .empty).typed.reverse

/-- The lines of an input as they are after their backspaces. -/
def typedLines (input : String) : List String := (lines input).map withoutBackspaces

end SketchLisp.Text

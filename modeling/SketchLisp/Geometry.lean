import SketchLisp.Number.Text

/-!
What can be drawn: points, lines and arcs, with their written forms.

Two figures are the same (`==`) if their coordinates are, as numbers: the two
zeros are the same and what is not a number is the same as nothing.
-/

namespace SketchLisp

/-- A point of the plane. -/
structure Point where
  x : Float
  y : Float
deriving BEq

/-- A line between two points. -/
structure Line where
  first : Point
  second : Point
deriving BEq

/-- The arc around `center` that starts at `start` and turns by `span`. -/
structure Arc where
  center : Point
  start : Point
  span : Float
deriving BEq

/-- A point is written as its two coordinates. -/
def Point.text (p : Point) : String := "(" ++ Number.text p.x ++ "," ++ Number.text p.y ++ ")"

/-- A line is written as its two points. -/
def Line.text (l : Line) : String := "(" ++ l.first.text ++ l.second.text ++ ")"

/-- An arc is written as its two points and its span. -/
def Arc.text (a : Arc) : String :=
  "(" ++ a.center.text ++ a.start.text ++ "(" ++ Number.text a.span ++ "))"

end SketchLisp

/-!
The lines of a text.
-/

namespace SketchLisp.Text

/-- A finished line, given with its last character first: a carriage return
before the line feed belongs to the line ending. -/
def endLine : List Char → String
  | '\r' :: rest => String.ofList rest.reverse
  | rest => String.ofList rest.reverse

/-- The lines of a text, the first of which has begun with the characters of
`begun`, the latest first. A last line needs no line feed. -/
def linesFrom (begun : List Char) : List Char → List String
  | [] => if begun.isEmpty then [] else [String.ofList begun.reverse]
  | c :: rest =>
    if c == '\n' then endLine begun :: linesFrom [] rest else linesFrom (c :: begun) rest

/-- The lines of a text without their endings, a line feed or a carriage return
and a line feed. -/
def lines (text : String) : List String := linesFrom [] text.toList

end SketchLisp.Text

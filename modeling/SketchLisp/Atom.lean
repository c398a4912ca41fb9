import SketchLisp.Geometry

/-!
Atoms, the smallest parts of programs and of their results.

* `Atom.kind`: which of the seven kinds an atom is of;
* `Atom.isGraphic`: whether an atom can be drawn;
* `Atom.text`: the written form of an atom;
* `==` on atoms: numbers are the same if they are closer than `2 ^ -52`, and
  figures if their coordinates are exactly the same.
-/

namespace SketchLisp

/-- The kinds of atoms. -/
inductive Kind where
  | nothing
  | boolean
  | number
  | symbol
  | point
  | line
  | arc
deriving DecidableEq, Repr

/-- The name of a kind, as messages show it. -/
def Kind.name : Kind → String
  | nothing => "None"
  | boolean => "Boolean"
  | number => "Number"
  | symbol => "Symbol"
  | point => "Point"
  | line => "Line"
  | arc => "Arc"

/-- An atom: nothing, a literal, a name, or a figure. -/
inductive Atom where
  | nothing
  | boolean (value : Bool)
  | number (value : Float)
  | symbol (name : String)
  | point (figure : Point)
  | line (figure : Line)
  | arc (figure : Arc)

namespace Atom

/-- The kind of an atom. -/
def kind : Atom → Kind
  | nothing => .nothing
  | boolean _ => .boolean
  | number _ => .number
  | symbol _ => .symbol
  | point _ => .point
  | line _ => .line
  | arc _ => .arc

/-- Whether an atom is a figure. -/
def isGraphic : Atom → Bool
  | point _ | line _ | arc _ => true
  | nothing | boolean _ | number _ | symbol _ => false

/-- The written form of an atom. -/
def text : Atom → String
  | nothing => "None"
  | boolean true => "True"
  | boolean false => "False"
  | number x => Number.text x
  | symbol name => name
  | point p => p.text
  | line l => l.text
  | arc a => a.text

/-- Numbers closer than this count as the same. -/
def tolerance : Float := Binary64.ofMagnitude false (Binary64.nearest 1 Binary64.leadingBit)

/-- Whether two atoms count as the same. An infinity does not count as the same
as itself, since the distance is then not a number. -/
def same : Atom → Atom → Bool
  | nothing, nothing => true
  | boolean a, boolean b => a == b
  | number a, number b => (a - b).abs < tolerance
  | symbol a, symbol b => a == b
  | point a, point b => a == b
  | line a, line b => a == b
  | arc a, arc b => a == b
  | _, _ => false

instance : BEq Atom := ⟨same⟩

end Atom

end SketchLisp

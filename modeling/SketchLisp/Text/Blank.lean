import SketchLisp.Text.CodeRange

/-!
Blank characters: the Unicode property `White_Space`.
-/

namespace SketchLisp.Text

/-- The ranges of code points with the property `White_Space`, in ascending
order. -/
def blankRanges : List (Nat × Nat) :=
  [(0x09, 0x0D), (0x20, 0x20), (0x85, 0x85), (0xA0, 0xA0), (0x1680, 0x1680),
   (0x2000, 0x200A), (0x2028, 0x2029), (0x202F, 0x202F), (0x205F, 0x205F), (0x3000, 0x3000)]

/-- Whether a character is blank. -/
def isBlank (c : Char) : Bool := inRanges blankRanges c

/-- Whether a text holds nothing but blanks. -/
def isBlankLine (text : String) : Bool := text.toList.all isBlank

/-- There are 25 blank characters. -/
example : countInRanges blankRanges = 25 := by decide

end SketchLisp.Text

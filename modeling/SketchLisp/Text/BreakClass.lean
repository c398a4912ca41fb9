import SketchLisp.Text.Conjunct
import SketchLisp.Text.Mark
import SketchLisp.Text.Pictograph

/-!
How a character behaves where a text is divided into the characters that a reader
sees.

* `BreakClass`: the kinds of behaviour;
* `BreakClass.ofChar`: the kind of a character.
-/

namespace SketchLisp.Text

/-- What a character does to its neighbours. The four kinds of conjoining letters
and syllables are those of Hangul. -/
inductive BreakClass where
  | carriageReturn
  | lineFeed
  | control
  | extending
  | joiner
  | spacing
  | prepended
  | regional
  | leadingLetter
  | vowelLetter
  | trailingLetter
  | openSyllable
  | closedSyllable
  | consonant
  | pictograph
  | other
deriving DecidableEq, Repr

/-- The control and format characters beyond ASCII that stand alone. -/
def controlRanges : List (Nat × Nat) :=
  [(0x7F, 0x9F), (0xAD, 0xAD), (0x61C, 0x61C), (0x180E, 0x180E), (0x200B, 0x200B),
   (0x200E, 0x200F), (0x2028, 0x202E), (0x2060, 0x206F), (0xFEFF, 0xFEFF), (0xFFF0, 0xFFFB),
   (0x13430, 0x1343F), (0x1BCA0, 0x1BCA3), (0x1D173, 0x1D17A), (0xE0000, 0xE001F),
   (0xE0080, 0xE00FF), (0xE01F0, 0xE0FFF)]

/-- The Hangul vowel letters, with the Kirat Rai vowel signs, which join alike. -/
def vowelLetters : List (Nat × Nat) :=
  [(0x1160, 0x11A7), (0xD7B0, 0xD7C6), (0x16D63, 0x16D63), (0x16D67, 0x16D6A)]

/-- The class of a Hangul letter or syllable. A block of 28 syllables starts with
the open one. -/
def hangulClass? (c : Char) : Option BreakClass :=
  if inRanges [(0x1100, 0x115F), (0xA960, 0xA97C)] c then some .leadingLetter
  else if inRanges vowelLetters c then some .vowelLetter
  else if inRanges [(0x11A8, 0x11FF), (0xD7CB, 0xD7FB)] c then some .trailingLetter
  else if inRanges [(0xAC00, 0xD7A3)] c then
    some (if (c.toNat - 0xAC00) % 28 == 0 then .openSyllable else .closedSyllable)
  else none

/-- The class of a character beyond ASCII. -/
def wideClass (c : Char) : BreakClass :=
  if inRanges controlRanges c then .control
  else if c.toNat == 0x200D then .joiner
  else if inRanges [(0x1F1E6, 0x1F1FF)] c then .regional
  else if isExtendingMark c then .extending
  else if isSpacingMark c then .spacing
  else if isPrependedMark c then .prepended
  else if isConjunctConsonant c then .consonant
  else if isPictograph c then .pictograph
  else (hangulClass? c).getD .other

/-- The class of a character. In ASCII nothing but the control characters has a
class of its own. -/
def BreakClass.ofChar (c : Char) : BreakClass :=
  if c.toNat < 0x20 then
    if c == '\r' then .carriageReturn else if c == '\n' then .lineFeed else .control
  else if c.toNat < 0x7F then .other
  else wideClass c

/-- Whether a character of this class stands apart from both neighbours. -/
def BreakClass.isApart : BreakClass → Bool
  | .carriageReturn | .lineFeed | .control => true
  | _ => false

/-- Whether two Hangul letters or syllables belong to one syllable. -/
def BreakClass.hangulJoins : BreakClass → BreakClass → Bool
  | .leadingLetter, .leadingLetter | .leadingLetter, .vowelLetter => true
  | .leadingLetter, .openSyllable | .leadingLetter, .closedSyllable => true
  | .openSyllable, .vowelLetter | .openSyllable, .trailingLetter => true
  | .vowelLetter, .vowelLetter | .vowelLetter, .trailingLetter => true
  | .closedSyllable, .trailingLetter | .trailingLetter, .trailingLetter => true
  | _, _ => false

end SketchLisp.Text

import SketchLisp.Atom
import SketchLisp.Text.Blank
import SketchLisp.Vocabulary

/-!
Words: which atom a word stands for.

A word is a name of the language, a boolean in any case of letters, a number, or
a name. A word that looks like a number has to be one.

* `Word.atom?`: the atom of a word, or nothing if the word is not valid.
-/

namespace SketchLisp.Word

/-- The boolean that a word spells, whatever the case of its letters. -/
def boolean? (word : String) : Option Bool :=
  let letters := word.toList.map Char.toLower
  if letters = ['t', 'r', 'u', 'e'] then some true
  else if letters = ['f', 'a', 'l', 's', 'e'] then some false
  else none

/-- Whether characters go on as a number does: digits, a point if there was none
yet, and an `e` if there was none yet. -/
def continuesNumber (seenPoint seenExponent : Bool) : List Char → Bool
  | [] => true
  | c :: rest =>
    if c.isDigit then continuesNumber seenPoint seenExponent rest
    else if c = '.' && !seenPoint then continuesNumber true seenExponent rest
    else if c = 'e' && !seenExponent then continuesNumber seenPoint true rest
    else false

/-- Whether a word looks like a number: a digit or a minus, then digits with at
most one point and at most one `e` among them. -/
def hasNumberShape (word : String) : Bool :=
  match word.toList with
  | [] => false
  | c :: rest => (c.isDigit || c == '-') && continuesNumber false false rest

/-- Whether a word can be a name: it is not empty, does not start with a digit
and holds no blank. -/
def isName (word : String) : Bool :=
  match word.toList with
  | [] => false
  | c :: rest => !c.isDigit && !(c :: rest).any Text.isBlank

/-- The atom that a word stands for, if the word is valid. -/
def atom? (word : String) : Option Atom :=
  if word = "(" || word = ")" then none
  else if Vocabulary.isReserved word || Vocabulary.isSpecialCharacter word then some (.symbol word)
  else
    match boolean? word with
    | some value => some (.boolean value)
    | none =>
      if hasNumberShape word then (Number.read? word).map .number
      else if isName word then some (.symbol word)
      else none

end SketchLisp.Word

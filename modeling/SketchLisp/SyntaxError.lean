import SketchLisp.Token

/-!
The ways in which a text fails to be an expression.
-/

namespace SketchLisp

/-- Why tokens do not form an expression, with the token to blame. -/
inductive SyntaxError where
  /-- There is nothing to read. -/
  | noTokens
  /-- A group without a head; the token is its opening bracket. -/
  | emptyExpression (opening : Token)
  /-- A closing bracket where an expression should start. -/
  | unexpectedClosing (token : Token)
  /-- The text ends inside the group of this opening bracket. -/
  | unmatchedOpening (opening : Token)
  /-- A word that stands for no atom. -/
  | invalidToken (token : Token)
  /-- A group that starts with another opening bracket. -/
  | invalidHead (token : Token)
  /-- A token after a complete expression. -/
  | excessTokens (token : Token)
deriving DecidableEq, Repr

namespace SyntaxError

/-- The token to blame, if there is one. -/
def token? : SyntaxError → Option Token
  | noTokens => none
  | emptyExpression t | unexpectedClosing t | unmatchedOpening t | invalidToken t | invalidHead t
  | excessTokens t => some t

/-- The message for an error. -/
def message : SyntaxError → String
  | noTokens => "no tokens to parse"
  | emptyExpression t => s!"empty expression: `()` opened {t.describe}"
  | unexpectedClosing t => s!"unexpected closing parenthesis {t.describe}"
  | unmatchedOpening t => s!"no matching closing parenthesis for {t.describe}"
  | invalidToken t => s!"invalid token {t.describe}"
  | invalidHead t => s!"expected an atom after `(`, got {t.describe}"
  | excessTokens t =>
    s!"excess tokens after a complete expression, starting with {t.describe}"

end SyntaxError

end SketchLisp

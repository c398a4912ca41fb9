/-!
Tokens: the brackets and words of a text, with the bytes they span.

A blank ends a word and so does a bracket or a comment. A line break does not:
it is left out, and the word goes on behind it. A comment runs from a semicolon
to the next line break.

* `Token.next`: the next token of a text, and the characters behind it;
* `Token.scan`: the tokens of a text, one after another.
-/

namespace SketchLisp

/-- What a token is, without its place. -/
inductive Token.Kind where
  | opening
  | closing
  | word (text : String)
deriving DecidableEq, Repr

/-- A token and the bytes from `start` up to but not including `stop` that it
takes in the UTF-8 form of its text. -/
structure Token where
  kind : Token.Kind
  start : Nat
  stop : Nat
deriving DecidableEq, Repr

namespace Token

/-- The characters of a token, without the line breaks inside a word. -/
def Kind.text : Kind → String
  | opening => "("
  | closing => ")"
  | word w => w

/-- How messages show a token: its text and where it starts. -/
def describe (t : Token) : String := s!"`{t.kind.text}` at {t.start}"

/-- Whether a character breaks a line. -/
def isLineBreak (c : Char) : Bool := c == '\n' || c == '\r'

/-- Characters, each with the byte at which it starts; the first starts at `offset`. -/
def indexed (offset : Nat) : List Char → List (Nat × Char)
  | [] => []
  | c :: cs => (offset, c) :: indexed (offset + c.utf8Size) cs

/-- The characters behind a comment and the line break that ends it. -/
def skipComment : List (Nat × Char) → List (Nat × Char)
  | [] => []
  | (_, c) :: rest => if isLineBreak c then rest else skipComment rest

theorem length_skipComment_le (cs : List (Nat × Char)) :
    (skipComment cs).length ≤ cs.length := by
  induction cs with
  | nil => exact Nat.le_refl _
  | cons c cs ih =>
      rw [skipComment, List.length_cons]
      split <;> omega

/-- The byte at which the characters that are left start, in a text of `size` bytes. -/
def nextIndex (size : Nat) : List (Nat × Char) → Nat
  | [] => size
  | (index, _) :: _ => index

/-- A bracket that starts at byte `start` and stops where the characters behind it start. -/
def bracket (size : Nat) (kind : Kind) (start : Nat) (rest : List (Nat × Char)) : Token :=
  ⟨kind, start, nextIndex size rest⟩

/-- Goes on looking for the next token of a text of `size` bytes. A word has the characters
`text` so far and stops at `stop`; it starts at `start?`, if it has started. Gives the token,
if there is one, and the characters that are left. -/
def nextFrom (size : Nat) (text : String) (start? : Option Nat) (stop : Nat) :
    List (Nat × Char) → Option Token × List (Nat × Char)
  | [] => (start?.map (⟨.word text, ·, stop⟩), [])
  | (index, c) :: rest =>
    let word? := start?.map (⟨.word text, ·, stop⟩)
    if c == ' ' then
      if start?.isSome then (word?, rest) else nextFrom size text start? stop rest
    else if isLineBreak c then nextFrom size text start? stop rest
    -- a word in progress comes first, and what ends it is left for the next token
    else if c == ';' && start?.isSome then (word?, (index, c) :: rest)
    else if c == ';' then nextFrom size text start? stop (skipComment rest)
    else if (c == '(' || c == ')') && start?.isSome then (word?, (index, c) :: rest)
    else if c == '(' then (some (bracket size .opening index rest), rest)
    else if c == ')' then (some (bracket size .closing index rest), rest)
    else nextFrom size (text.push c) (some (start?.getD index)) (index + c.utf8Size) rest
termination_by cs => cs.length
decreasing_by
  all_goals
    have := length_skipComment_le rest
    simp only [List.length_cons]
    omega

/-- The next token of a text of `size` bytes, if there is one, and the characters that are
left. -/
def next (size : Nat) (cs : List (Nat × Char)) : Option Token × List (Nat × Char) :=
  nextFrom size "" none 0 cs

/-- Looking for a token takes characters, and at least one if a token starts among them. -/
theorem length_nextFrom (size : Nat) (text : String) (start? : Option Nat) (stop : Nat)
    (cs : List (Nat × Char)) :
    (nextFrom size text start? stop cs).2.length ≤ cs.length
    ∧ (start? = none → (nextFrom size text start? stop cs).1.isSome →
      (nextFrom size text start? stop cs).2.length < cs.length) := by
  fun_induction nextFrom size text start? stop cs
  all_goals grind [length_skipComment_le]

theorem length_lt_of_next {size : Nat} {cs rest : List (Nat × Char)} {t : Token}
    (h : next size cs = (some t, rest)) : rest.length < cs.length := by
  have hlt := (length_nextFrom size "" none 0 cs).2 rfl
  rw [next] at h
  rw [h] at hlt
  exact hlt rfl

/-- The tokens among the characters that are left of a text of `size` bytes. -/
def collect (size : Nat) (cs : List (Nat × Char)) : List Token :=
  match _h : next size cs with
  | (some t, rest) => t :: collect size rest
  | (none, _) => []
termination_by cs.length
decreasing_by exact length_lt_of_next _h

/-- The tokens of a text. -/
def scan (text : String) : List Token := collect text.utf8ByteSize (indexed 0 text.toList)

end Token

end SketchLisp

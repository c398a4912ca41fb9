import Mathlib.Tactic.Common
import SketchLisp.Token

/-!
Scanning, one character at a time.

The tokens of a text are looked for one after another, but they also come out of
a single pass over its characters. What a character does there depends only on
its role and on where scanning stands, so that a text can be scanned in two
parts. At a blank or a bracket outside a comment the second part is scanned as if
it stood alone.

* `Role`: the five roles of characters;
* `Scan`: where a pass stands, with `Scan.step` and `Scan.run` for what one
  character and what a piece of text does;
* `scanFrom`: the tokens of a pass, with `scanFrom_append` for two parts;
* `Scan.Finds`: what the search for a token has to find for the pass to go on
  behind it, and `finds_nextFrom`: it does;
* `scan_eq_scanFrom`: the tokens of a text are those of a pass over it;
* `scanFrom_shift`: a text that stands further back has the same tokens, further
  back;
* `scanFrom_append_blank`, `scanFrom_append_bracket`: texts before and behind a
  separator are scanned independently;
* `plain_of_mem_scan`: the words of a text are not empty and hold only letters;
* `kinds_of_plainWord`: conversely such a word is scanned as one word.
-/

namespace SketchLisp.Token

/-! ### Single characters -/

/-- What a character means outside of comments. -/
inductive Role where
  | lineBreak
  | blank
  | semicolon
  | bracket (kind : Kind)
  | letter
deriving DecidableEq

/-- The role of a character. -/
def role (c : Char) : Role :=
  if isLineBreak c then .lineBreak
  else if c == ' ' then .blank
  else if c == ';' then .semicolon
  else if c == '(' then .bracket .opening
  else if c == ')' then .bracket .closing
  else .letter

lemma role_eq_letter_iff {c : Char} : role c = .letter ↔
    c ≠ '\n' ∧ c ≠ '\r' ∧ c ≠ ' ' ∧ c ≠ '(' ∧ c ≠ ')' ∧ c ≠ ';' := by
  constructor
  · intro h
    refine ⟨?_, ?_, ?_, ?_, ?_, ?_⟩ <;> rintro rfl <;> exact absurd h (by decide)
  · intro h
    simp [role, isLineBreak, h]

lemma role_eq_lineBreak_iff {c : Char} : role c = .lineBreak ↔ isLineBreak c := by
  rw [role]
  split_ifs with h <;> simp [h]

lemma role_eq_blank_iff {c : Char} : role c = .blank ↔ c = ' ' := by
  constructor
  · intro h
    rw [role] at h
    split_ifs at h with _ hc
    exact beq_iff_eq.1 hc
  · rintro rfl
    rfl

lemma role_eq_semicolon_iff {c : Char} : role c = .semicolon ↔ c = ';' := by
  constructor
  · intro h
    rw [role] at h
    split_ifs at h with _ _ hc
    exact beq_iff_eq.1 hc
  · rintro rfl
    rfl

/-- The number of bytes of characters. -/
def width : List Char → Nat
  | [] => 0
  | c :: cs => c.utf8Size + width cs

@[simp] lemma width_nil : width [] = 0 := rfl

@[simp] lemma width_cons (c : Char) (cs : List Char) :
    width (c :: cs) = c.utf8Size + width cs := rfl

@[simp] lemma width_append (cs ds : List Char) : width (cs ++ ds) = width cs + width ds := by
  induction cs with
  | nil => simp
  | cons c cs ih => simp [ih, Nat.add_assoc]

/-- The bytes of a text are those of its characters. -/
lemma utf8ByteSize_ofList (cs : List Char) : (String.ofList cs).utf8ByteSize = width cs := by
  induction cs with
  | nil => rfl
  | cons c cs ih =>
      rw [← List.singleton_append, String.ofList_append, String.utf8ByteSize_append, ih,
        ← String.singleton_eq_ofList, String.utf8ByteSize_singleton, width_append, width_cons,
        width_nil, Nat.add_zero]

@[simp] lemma width_toList (text : String) : width text.toList = text.utf8ByteSize := by
  rw [← utf8ByteSize_ofList, String.ofList_toList]

/-! ### One character after another -/

/-- Where scanning stands: between tokens, in a word with its span and text so
far, or in a comment. -/
inductive Scan where
  | gap
  | word (start stop : Nat) (text : String)
  | comment
deriving DecidableEq

namespace Scan

/-- The token that ends here: the word in progress, if there is one. -/
def flush : Scan → List Token
  | word start stop text => [⟨.word text, start, stop⟩]
  | gap | comment => []

/-- Goes on with a character of a word that stands at `offset`. -/
def push (offset : Nat) (c : Char) : Scan → Scan
  | word start _ text => word start (offset + c.utf8Size) (text.push c)
  | gap | comment => word offset (offset + c.utf8Size) (String.singleton c)

/-- What a character at `offset` does outside of comments. -/
def stepOutside (offset : Nat) (c : Char) (state : Scan) : List Token × Scan :=
  match role c with
  | .lineBreak => ([], state)
  | .blank => (state.flush, gap)
  | .semicolon => (state.flush, comment)
  | .bracket kind => (state.flush ++ [⟨kind, offset, offset + c.utf8Size⟩], gap)
  | .letter => ([], state.push offset c)

/-- What a character at `offset` does: the tokens that end before it or with it,
and where scanning stands behind it. -/
def step (offset : Nat) (c : Char) : Scan → List Token × Scan
  | comment => ([], if isLineBreak c then gap else comment)
  | state => state.stepOutside offset c

/-- What characters from `offset` on do: the tokens that end among them, and
where scanning stands behind them. -/
def run : Scan → Nat → List Char → List Token × Scan
  | state, _, [] => ([], state)
  | state, offset, c :: rest =>
    let first := state.step offset c
    let others := run first.2 (offset + c.utf8Size) rest
    (first.1 ++ others.1, others.2)

lemma step_of_ne_comment {state : Scan} (h : state ≠ comment) (offset : Nat) (c : Char) :
    state.step offset c = state.stepOutside offset c := by
  cases state with
  | comment => exact absurd rfl h
  | gap | word => rfl

end Scan

/-- The tokens of the rest of a text, which starts at byte `offset`: one step for each
character. -/
def scanFrom : Scan → Nat → List Char → List Token
  | state, _, [] => state.flush
  | state, offset, c :: rest =>
    (state.step offset c).1 ++ scanFrom (state.step offset c).2 (offset + c.utf8Size) rest

lemma scanFrom_nil (state : Scan) (offset : Nat) : scanFrom state offset [] = state.flush := rfl

lemma scanFrom_cons (state : Scan) (offset : Nat) (c : Char) (rest : List Char) :
    scanFrom state offset (c :: rest)
      = (state.step offset c).1
        ++ scanFrom (state.step offset c).2 (offset + c.utf8Size) rest := rfl

/-- A text can be scanned in two parts. -/
lemma scanFrom_append (state : Scan) (offset : Nat) (cs ds : List Char) :
    scanFrom state offset (cs ++ ds)
      = (state.run offset cs).1
        ++ scanFrom (state.run offset cs).2 (offset + width cs) ds := by
  induction cs generalizing state offset with
  | nil => simp [Scan.run]
  | cons c cs ih => simp [scanFrom_cons, Scan.run, ih, Nat.add_assoc]

lemma scanFrom_eq_run (state : Scan) (offset : Nat) (cs : List Char) :
    scanFrom state offset cs = (state.run offset cs).1 ++ (state.run offset cs).2.flush := by
  simpa [scanFrom_nil] using scanFrom_append state offset cs []

/-! ### Token by token -/

/-- What a character does to the search for the next token. -/
lemma nextFrom_cons (size : Nat) (text : String) (start? : Option Nat) (stop index : Nat)
    (c : Char) (rest : List (Nat × Char)) :
    nextFrom size text start? stop ((index, c) :: rest) =
      let word? := start?.map (⟨.word text, ·, stop⟩)
      match role c with
      | .lineBreak => nextFrom size text start? stop rest
      | .blank => if start?.isSome then (word?, rest) else nextFrom size text start? stop rest
      | .semicolon =>
        if start?.isSome then (word?, (index, c) :: rest)
        else nextFrom size text start? stop (skipComment rest)
      | .bracket kind =>
        if start?.isSome then (word?, (index, c) :: rest)
        else (some (bracket size kind index rest), rest)
      | .letter =>
        nextFrom size (text.push c) (some (start?.getD index)) (index + c.utf8Size) rest := by
  rw [nextFrom, role]
  cases start? <;> grind [isLineBreak]

lemma nextIndex_indexed (offset : Nat) (cs : List Char) :
    nextIndex (offset + width cs) (indexed offset cs) = offset := by
  cases cs <;> rfl

/-- Behind a comment scanning is between tokens. -/
lemma exists_skipComment_indexed (offset : Nat) (cs : List Char) :
    ∃ later ds, skipComment (indexed offset cs) = indexed later ds
      ∧ ds.length ≤ cs.length ∧ later + width ds = offset + width cs
      ∧ scanFrom .comment offset cs = scanFrom .gap later ds := by
  induction cs generalizing offset with
  | nil => exact ⟨offset, [], rfl, Nat.le_refl _, rfl, rfl⟩
  | cons c cs ih =>
      rw [indexed, skipComment, scanFrom_cons, Scan.step, List.nil_append]
      cases hc : isLineBreak c with
      | true => exact ⟨offset + c.utf8Size, cs, rfl, by simp, by simp [Nat.add_assoc], rfl⟩
      | false =>
          obtain ⟨later, ds, hskip, hlength, hwidth, hscan⟩ := ih (offset + c.utf8Size)
          exact ⟨later, ds, hskip, by simp; omega, by simp [hwidth, Nat.add_assoc], hscan⟩

namespace Scan

/-- The characters of the word in progress. -/
def text : Scan → String
  | word _ _ text => text
  | gap | comment => ""

/-- Where the word in progress starts, if there is one. -/
def start? : Scan → Option Nat
  | word start _ _ => some start
  | gap | comment => none

/-- Where the word in progress stops. -/
def stop : Scan → Nat
  | word _ stop _ => stop
  | gap | comment => 0

/-- The outcome of a search for the next token is the first token that scanning gives out, and
the characters behind it, from which scanning goes on between tokens. -/
def Finds (state : Scan) (offset : Nat) (cs : List Char)
    (found : Option Token × List (Nat × Char)) : Prop :=
  ∃ later ds, found.2 = indexed later ds ∧ later + width ds = offset + width cs
    ∧ scanFrom state offset cs = found.1.toList ++ scanFrom .gap later ds
    ∧ (found.1 = none → ds = [])

/-- A search may be made from further on if scanning gives out the same tokens there. -/
lemma Finds.of_scanFrom_eq {state next : Scan} {offset later : Nat} {cs ds : List Char}
    {found : Option Token × List (Nat × Char)} (h : next.Finds later ds found)
    (hscan : scanFrom state offset cs = scanFrom next later ds)
    (hwidth : later + width ds = offset + width cs) : state.Finds offset cs found := by
  obtain ⟨last, es, hrest, hlast, hfound, hnone⟩ := h
  exact ⟨last, es, hrest, hlast.trans hwidth, hscan.trans hfound, hnone⟩

/-- A character that gives out no token leaves the search to the characters behind it. -/
lemma Finds.cons {state next : Scan} {offset : Nat} {c : Char} {cs : List Char}
    {found : Option Token × List (Nat × Char)} (hstep : state.step offset c = ([], next))
    (h : next.Finds (offset + c.utf8Size) cs found) : state.Finds offset (c :: cs) found := by
  apply h.of_scanFrom_eq
  · rw [scanFrom_cons, hstep, List.nil_append]
  · rw [width_cons, Nat.add_assoc]

/-- A character that ends a word and means something itself is left where it is. -/
lemma finds_word {start stop offset : Nat} {text : String} {c : Char}
    (h : (word start stop text).step offset c
      = (⟨.word text, start, stop⟩ :: (gap.step offset c).1, (gap.step offset c).2))
    (cs : List Char) : (word start stop text).Finds offset (c :: cs)
      (some ⟨.word text, start, stop⟩, indexed offset (c :: cs)) := by
  refine ⟨offset, c :: cs, rfl, rfl, ?_, by simp⟩
  rw [scanFrom_cons, h]
  rfl

end Scan

/-- The search for the next token finds what scanning gives out first. -/
lemma finds_nextFrom (state : Scan) (hstate : state ≠ .comment) (offset : Nat) (cs : List Char) :
    state.Finds offset cs (nextFrom (offset + width cs) state.text state.start? state.stop
      (indexed offset cs)) := by
  -- recursion on the characters, since a comment takes more than one of them
  match cs with
  | [] =>
      rw [indexed, nextFrom]
      refine ⟨offset, [], rfl, rfl, ?_, fun _ => rfl⟩
      cases state <;> rfl
  | c :: cs =>
      have hwidth : offset + width (c :: cs) = offset + c.utf8Size + width cs := by
        rw [width_cons, Nat.add_assoc]
      have hstep := Scan.step_of_ne_comment hstate offset c
      rw [indexed, nextFrom_cons, hwidth]
      cases hrole : role c with
      | lineBreak =>
          simp only [Scan.stepOutside, hrole] at hstep
          exact (finds_nextFrom _ hstate _ cs).cons hstep
      | letter =>
          simp only [Scan.stepOutside, hrole] at hstep
          refine Scan.Finds.cons hstep ?_
          cases state with
          | comment => exact absurd rfl hstate
          | gap | word => exact finds_nextFrom (.word _ _ _) (by simp) _ cs
      | blank =>
          simp only [Scan.stepOutside, hrole] at hstep
          cases state with
          | comment => exact absurd rfl hstate
          | gap => exact (finds_nextFrom _ hstate _ cs).cons hstep
          | word start stop text =>
              refine ⟨offset + c.utf8Size, cs, rfl, hwidth.symm, ?_, by simp [Scan.start?]⟩
              rw [scanFrom_cons, hstep]
              rfl
      | semicolon =>
          cases state with
          | comment => exact absurd rfl hstate
          | gap =>
              simp only [Scan.stepOutside, hrole] at hstep
              obtain ⟨later, ds, hskip, hlength, hleft, hscan⟩ :=
                exists_skipComment_indexed (offset + c.utf8Size) cs
              rw [hskip, ← hleft]
              refine (finds_nextFrom _ hstate later ds).of_scanFrom_eq ?_ (hleft.trans hwidth.symm)
              rw [scanFrom_cons, hstep, ← hscan]
              rfl
          | word start stop text =>
              apply Scan.finds_word
              simp [Scan.step, Scan.stepOutside, hrole, Scan.flush]
      | bracket kind =>
          cases state with
          | comment => exact absurd rfl hstate
          | gap =>
              simp only [Scan.stepOutside, hrole] at hstep
              refine ⟨offset + c.utf8Size, cs, rfl, hwidth.symm, ?_, by simp [Scan.start?]⟩
              rw [scanFrom_cons, hstep]
              simp [Scan.start?, bracket, nextIndex_indexed, Scan.flush]
          | word start stop text =>
              apply Scan.finds_word
              simp [Scan.step, Scan.stepOutside, hrole, Scan.flush]
termination_by cs.length

lemma length_indexed (offset : Nat) (cs : List Char) : (indexed offset cs).length = cs.length := by
  induction cs generalizing offset with
  | nil => rfl
  | cons c cs ih => rw [indexed, List.length_cons, List.length_cons, ih]

lemma finds_next (offset : Nat) (cs : List Char) :
    Scan.gap.Finds offset cs (next (offset + width cs) (indexed offset cs)) :=
  finds_nextFrom .gap (by simp) offset cs

/-- One token after another, the tokens are those that scanning gives out. -/
lemma collect_indexed (offset : Nat) (cs : List Char) :
    collect (offset + width cs) (indexed offset cs) = scanFrom .gap offset cs := by
  -- the characters behind a token are fewer
  induction hn : cs.length using Nat.strongRecOn generalizing offset cs with
  | _ n ih =>
      obtain ⟨later, ds, hrest, hwidth, hscan, hnone⟩ := finds_next offset cs
      rw [collect, hscan]
      split
      · next t rest hnext =>
          have hlength := length_lt_of_next hnext
          rw [hnext] at hrest ⊢
          obtain rfl : rest = indexed later ds := hrest
          rw [length_indexed, length_indexed, hn] at hlength
          rw [← hwidth, ih ds.length hlength later ds rfl]
          rfl
      · next rest hnext =>
          rw [hnone (by rw [hnext]), hnext]
          rfl

/-- **Token by token**: the tokens of a text are those that one pass over its characters gives
out. -/
lemma scan_eq_scanFrom (text : String) : scan text = scanFrom .gap 0 text.toList := by
  have h := collect_indexed 0 text.toList
  rwa [Nat.zero_add, width_toList] at h

/-! ### Shifted texts -/

/-- The same token, further back. -/
def shift (n : Nat) (t : Token) : Token := { t with start := t.start + n, stop := t.stop + n }

@[simp] lemma kind_shift (n : Nat) (t : Token) : (t.shift n).kind = t.kind := rfl

@[simp] lemma map_kind_map_shift (n : Nat) (ts : List Token) :
    (ts.map (shift n)).map kind = ts.map kind := by
  simp [Function.comp_def]

namespace Scan

/-- The same place in scanning, further back. -/
def shift (n : Nat) : Scan → Scan
  | gap => gap
  | word start stop text => word (start + n) (stop + n) text
  | comment => comment

lemma flush_shift (n : Nat) (state : Scan) :
    (state.shift n).flush = state.flush.map (Token.shift n) := by
  cases state <;> rfl

lemma push_shift (n offset : Nat) (c : Char) (state : Scan) :
    (state.shift n).push (offset + n) c = (state.push offset c).shift n := by
  cases state <;> simp [shift, push, Nat.add_right_comm]

lemma stepOutside_shift (n offset : Nat) (c : Char) (state : Scan) :
    (state.shift n).stepOutside (offset + n) c
      = ((state.stepOutside offset c).1.map (Token.shift n),
          (state.stepOutside offset c).2.shift n) := by
  rw [stepOutside, stepOutside]
  cases role c with
  | lineBreak => rfl
  | blank | semicolon => rw [flush_shift]; rfl
  | bracket kind =>
      rw [flush_shift, List.map_append, List.map_singleton, Token.shift]
      simp only [Nat.add_right_comm, shift]
  | letter => rw [push_shift]; rfl

lemma step_shift (n offset : Nat) (c : Char) (state : Scan) :
    (state.shift n).step (offset + n) c
      = ((state.step offset c).1.map (Token.shift n), (state.step offset c).2.shift n) := by
  cases state with
  | comment =>
      simp only [shift, step]
      split <;> rfl
  | gap => exact stepOutside_shift n offset c gap
  | word start stop text => exact stepOutside_shift n offset c (word start stop text)

end Scan

/-- A text further back has the same tokens, further back. -/
lemma scanFrom_shift (n : Nat) (state : Scan) (offset : Nat) (cs : List Char) :
    scanFrom (state.shift n) (offset + n) cs = (scanFrom state offset cs).map (shift n) := by
  induction cs generalizing state offset with
  | nil => rw [scanFrom_nil, scanFrom_nil, Scan.flush_shift]
  | cons c cs ih =>
      rw [scanFrom_cons, scanFrom_cons, Scan.step_shift, Nat.add_right_comm, ih, List.map_append]

lemma scanFrom_gap (offset : Nat) (cs : List Char) :
    scanFrom .gap offset cs = (scanFrom .gap 0 cs).map (shift offset) := by
  simpa [Scan.shift] using scanFrom_shift offset .gap 0 cs

/-! ### Separators -/

/-- Whether a text ends outside of comments. -/
def EndsOutside (cs : List Char) : Prop := (Scan.run .gap 0 cs).2 ≠ .comment

/-- Only a semicolon starts a comment. -/
lemma run_ne_comment {cs : List Char} (h : ∀ c ∈ cs, role c ≠ .semicolon) {state : Scan}
    (hstate : state ≠ .comment) (offset : Nat) : (state.run offset cs).2 ≠ .comment := by
  induction cs generalizing state offset with
  | nil => exact hstate
  | cons c cs ih =>
      apply ih fun d hd => h d (by simp [hd])
      have hc := h c (by simp)
      rw [Scan.step_of_ne_comment hstate, Scan.stepOutside]
      cases hrole : role c with
      | lineBreak => exact hstate
      | semicolon => exact absurd hrole hc
      | blank | bracket => simp
      | letter => cases state <;> simp [Scan.push]

lemma endsOutside_of_role {cs : List Char} (h : ∀ c ∈ cs, role c ≠ .semicolon) :
    EndsOutside cs :=
  run_ne_comment h (by simp) 0

/-- A separator outside of comments gives out the word before it, and behind it
scanning starts anew. -/
lemma scanFrom_append_separator {cs : List Char} (h : EndsOutside cs) {c : Char}
    {tokens : Nat → List Token}
    (hc : ∀ (state : Scan) (offset : Nat),
      state.stepOutside offset c = (state.flush ++ tokens offset, .gap)) (ds : List Char) :
    scanFrom .gap 0 (cs ++ c :: ds)
      = scanFrom .gap 0 cs ++ tokens (width cs)
        ++ (scanFrom .gap 0 ds).map (shift (width cs + c.utf8Size)) := by
  rw [scanFrom_append, scanFrom_cons, Scan.step_of_ne_comment h, hc, scanFrom_gap,
    scanFrom_eq_run .gap 0 cs]
  simp

/-- Texts before and behind a blank are scanned independently. -/
lemma scanFrom_append_blank {cs : List Char} (h : EndsOutside cs) (ds : List Char) :
    scanFrom .gap 0 (cs ++ ' ' :: ds)
      = scanFrom .gap 0 cs ++ (scanFrom .gap 0 ds).map (shift (width cs + 1)) := by
  have hc : ∀ (state : Scan) (offset : Nat),
      state.stepOutside offset ' ' = (state.flush ++ [], .gap) := by
    intro state offset
    rw [List.append_nil]
    rfl
  have hscan := scanFrom_append_separator h hc ds
  rwa [List.append_nil] at hscan

/-- Texts before and behind a bracket are scanned independently. -/
lemma scanFrom_append_bracket {cs : List Char} (h : EndsOutside cs) {c : Char} {k : Kind}
    (hc : role c = .bracket k) (ds : List Char) :
    scanFrom .gap 0 (cs ++ c :: ds)
      = scanFrom .gap 0 cs ++ ⟨k, width cs, width cs + c.utf8Size⟩
        :: (scanFrom .gap 0 ds).map (shift (width cs + c.utf8Size)) := by
  have hc' : ∀ (state : Scan) (offset : Nat), state.stepOutside offset c
      = (state.flush ++ [⟨k, offset, offset + c.utf8Size⟩], .gap) := by
    intro state offset
    rw [Scan.stepOutside, hc]
  rw [scanFrom_append_separator h hc' ds, List.append_assoc, List.singleton_append]

/-- The kinds of the tokens of characters. -/
def kinds (cs : List Char) : List Kind := (scanFrom .gap 0 cs).map kind

lemma map_kind_scan (text : String) : (scan text).map kind = kinds text.toList := by
  rw [scan_eq_scanFrom, kinds]

lemma kinds_append_blank {cs : List Char} (h : EndsOutside cs) (ds : List Char) :
    kinds (cs ++ ' ' :: ds) = kinds cs ++ kinds ds := by
  rw [kinds, scanFrom_append_blank h, List.map_append, map_kind_map_shift, kinds, kinds]

lemma kinds_append_bracket {cs : List Char} (h : EndsOutside cs) {c : Char} {k : Kind}
    (hc : role c = .bracket k) (ds : List Char) :
    kinds (cs ++ c :: ds) = kinds cs ++ k :: kinds ds := by
  rw [kinds, scanFrom_append_bracket h hc, List.map_append, List.map_cons, map_kind_map_shift,
    kinds, kinds]

/-! ### Words -/

/-- A word as scanning gives it out. -/
def PlainWord (w : String) : Prop := w.toList ≠ [] ∧ ∀ c ∈ w.toList, role c = .letter

/-- A bracket or a plain word. -/
def Plain (t : Token) : Prop := ∀ w, t.kind = .word w → PlainWord w

/-- The word in progress, if there is one, is plain. -/
def Scan.Plain : Scan → Prop
  | word _ _ text => PlainWord text
  | gap | comment => True

lemma Scan.Plain.flush {state : Scan} (h : state.Plain) : ∀ t ∈ state.flush, t.Plain := by
  cases state with
  | gap | comment => simp [Scan.flush]
  | word start stop text =>
      intro t ht w hw
      rw [Scan.flush, List.mem_singleton] at ht
      subst ht
      exact Kind.word.inj hw ▸ h

lemma Scan.Plain.push {state : Scan} (h : state.Plain) {c : Char} (hc : role c = .letter)
    (offset : Nat) : (state.push offset c).Plain := by
  cases state with
  | gap | comment => exact ⟨by simp, by simpa using hc⟩
  | word start stop text =>
      refine ⟨by simp, fun d hd => ?_⟩
      rw [String.toList_push, List.mem_append, List.mem_singleton] at hd
      exact hd.elim (h.2 d) fun hd => hd ▸ hc

lemma role_eq_bracket {c : Char} {k : Kind} (h : role c = .bracket k) :
    k = .opening ∨ k = .closing := by
  rw [role] at h
  split_ifs at h <;> simp_all

/-- One character gives out plain tokens and leaves a plain word. -/
lemma Scan.Plain.step {state : Scan} (h : state.Plain) (offset : Nat) (c : Char) :
    (∀ t ∈ (state.step offset c).1, t.Plain) ∧ (state.step offset c).2.Plain := by
  by_cases hstate : state = .comment
  · subst hstate
    refine ⟨by simp [Scan.step], ?_⟩
    simp only [Scan.step]
    split <;> trivial
  rw [Scan.step_of_ne_comment hstate, Scan.stepOutside]
  cases hrole : role c with
  | lineBreak => exact ⟨by simp, h⟩
  | blank | semicolon => exact ⟨h.flush, trivial⟩
  | bracket k =>
      refine ⟨fun t ht => ?_, trivial⟩
      rcases List.mem_append.1 ht with ht | ht
      · exact h.flush t ht
      · intro w hw
        rw [List.mem_singleton.1 ht] at hw
        rcases role_eq_bracket hrole with rfl | rfl <;> simp at hw
  | letter => exact ⟨by simp, h.push hrole offset⟩

lemma plain_of_mem_scanFrom {cs : List Char} {state : Scan} (h : state.Plain) {offset : Nat}
    {t : Token} (ht : t ∈ scanFrom state offset cs) : t.Plain := by
  induction cs generalizing state offset with
  | nil =>
      rw [scanFrom_nil] at ht
      exact h.flush t ht
  | cons c cs ih =>
      rw [scanFrom_cons, List.mem_append] at ht
      exact ht.elim ((h.step offset c).1 t) (ih (h.step offset c).2)

/-- The words of a text are plain. -/
lemma plain_of_mem_scan {text : String} {t : Token} (ht : t ∈ scan text) : t.Plain := by
  rw [scan_eq_scanFrom] at ht
  exact plain_of_mem_scanFrom (show Scan.Plain .gap from trivial) ht

/-- Letters behind a word in progress belong to it. -/
lemma map_kind_scanFrom_word {cs : List Char} (h : ∀ c ∈ cs, role c = .letter)
    (start stop offset : Nat) (text : String) :
    (scanFrom (.word start stop text) offset cs).map kind = [.word (text ++ String.ofList cs)] := by
  induction cs generalizing stop offset text with
  | nil => simp [scanFrom_nil, Scan.flush]
  | cons c cs ih =>
      have hstep : (Scan.word start stop text).step offset c
          = ([], .word start (offset + c.utf8Size) (text.push c)) := by
        rw [Scan.step_of_ne_comment (by simp), Scan.stepOutside, h c (by simp)]
        rfl
      rw [scanFrom_cons, hstep, List.nil_append, ih fun d hd => h d (by simp [hd])]
      simp [← String.toList_inj]

/-- A plain word is scanned as one word. -/
lemma kinds_of_plainWord {w : String} (h : PlainWord w) : kinds w.toList = [.word w] := by
  obtain ⟨hne, hletters⟩ := h
  obtain ⟨c, cs, hcs⟩ := List.exists_cons_of_ne_nil hne
  rw [hcs] at hletters
  have hstep : Scan.gap.step 0 c = ([], .word 0 (0 + c.utf8Size) (String.singleton c)) := by
    rw [Scan.step_of_ne_comment (by simp), Scan.stepOutside, hletters c (by simp)]
    rfl
  rw [kinds, hcs, scanFrom_cons, hstep, List.nil_append,
    map_kind_scanFrom_word fun d hd => hletters d (by simp [hd])]
  simp [← String.toList_inj, hcs]

end SketchLisp.Token

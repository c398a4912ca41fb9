import SketchLisp.Proofs.Grammar

/-!
Where syntax errors are noticed.

Tokens are viable if more tokens can follow them so that all together are a
program. Reading goes wrong at the first token that ends viability and not
before, and if it never does, the tokens only end too early.

* `Viable`: tokens that can be completed to a program;
* `Reading.take`: the reading after some tokens, one step for each of them, with
  `Reading.program_eq_take` for programs;
* `viable_iff_take`: the viable tokens are those that can all be taken;
* `InnermostOpen`: the last bracket that is still open at the end;
* `program_error_at_first_wrong_token`: what an error says about the tokens.
-/

namespace SketchLisp

/-- Whether some further tokens make a program of these. -/
def Viable (ts : List Token) : Prop := ∃ more e, (Reading.program (ts ++ more)).1 = .ok e

namespace Reading

/-! ### Taking tokens one by one -/

/-- The reading after some more tokens, if each of them can be taken. -/
def take (r : Reading) (ts : List Token) : Except SyntaxError Reading := ts.foldlM step r

lemma take_cons_of_ok {r r' : Reading} {t : Token} (h : r.step t = .ok r') (ts : List Token) :
    r.take (t :: ts) = r'.take ts := by
  rw [take, List.foldlM_cons, h]
  rfl

lemma take_cons_of_error {r : Reading} {t : Token} {error : SyntaxError}
    (h : r.step t = .error error) (ts : List Token) : r.take (t :: ts) = .error error := by
  rw [take, List.foldlM_cons, h]
  rfl

lemma take_append_of_ok {r r' : Reading} {ts : List Token} (h : r.take ts = .ok r')
    (us : List Token) : r.take (ts ++ us) = r'.take us := by
  rw [take] at h
  rw [take, List.foldlM_append, h]
  rfl

lemma take_append_of_error {r : Reading} {ts : List Token} {error : SyntaxError}
    (h : r.take ts = .error error) (us : List Token) : r.take (ts ++ us) = .error error := by
  rw [take] at h
  rw [take, List.foldlM_append, h]
  rfl

/-- A token too many is an error of the token itself, so a program is read by
taking all tokens. -/
lemma judge_advance (r : Reading) (ts : List Token) :
    judge (advance r ts) = (r.take ts).bind finish := by
  induction ts generalizing r with
  | nil => cases r <;> rfl
  | cons t ts ih =>
      cases hstep : r.step t with
      | ok r' => rw [advance_cons hstep, take_cons_of_ok hstep, ih]
      | error error =>
          rw [take_cons_of_error hstep]
          cases r with
          | done e =>
              simp only [step, Except.error.injEq] at hstep
              rw [← hstep]
              rfl
          | start | head | operands =>
              rw [advance, hstep]
              · rfl
              · simp

/-- A program takes all of its tokens and is then at its end. -/
lemma program_eq_take (ts : List Token) : (program ts).1 = (start.take ts).bind finish := by
  rw [program_eq_judge, expression_eq_advance, judge_advance]

/-- Taking tokens keeps the invariant of reading. -/
lemma Holds.take {r r' : Reading} {before ts : List Token} (h : r.Holds before)
    (hr : r.take ts = .ok r') : r'.Holds (before ++ ts) := by
  induction ts generalizing r before with
  | nil =>
      obtain rfl := Except.ok.inj hr
      rwa [List.append_nil]
  | cons t ts ih =>
      cases hstep : r.step t with
      | error error =>
          rw [take_cons_of_error hstep] at hr
          cases hr
      | ok s =>
          rw [take_cons_of_ok hstep] at hr
          simpa using ih (h.step hstep) hr

/-- If not all tokens can be taken, one of them is the first that is wrong. -/
lemma exists_step_eq_error {r : Reading} {ts : List Token} {error : SyntaxError}
    (h : r.take ts = .error error) : ∃ before t after r', ts = before ++ t :: after
      ∧ r.take before = .ok r' ∧ r'.step t = .error error := by
  induction ts generalizing r with
  | nil => cases h
  | cons t ts ih =>
      cases hstep : r.step t with
      | error error' =>
          rw [take_cons_of_error hstep] at h
          obtain rfl := Except.error.inj h
          exact ⟨[], t, ts, r, rfl, rfl, hstep⟩
      | ok s =>
          rw [take_cons_of_ok hstep] at h
          obtain ⟨before, u, after, r', rfl, hbefore, hu⟩ := ih h
          exact ⟨t :: before, u, after, r', rfl, by rw [take_cons_of_ok hstep, hbefore], hu⟩

/-! ### Completing a reading -/

/-- Open groups are completed by as many closing brackets. -/
lemma exists_take_operands (g : OpenGroup) (outer : List OpenGroup) :
    ∃ more e, (operands g outer).take more = .ok (done e) := by
  induction outer generalizing g with
  | nil => exact ⟨[⟨.closing, 0, 0⟩], g.close, rfl⟩
  | cons g' outer ih =>
      obtain ⟨more, e, hmore⟩ := ih (g'.add g.close)
      refine ⟨⟨.closing, 0, 0⟩ :: more, e, ?_⟩
      rw [take_cons_of_ok (step_operands_closing rfl g _), complete, hmore]

/-- Every reading can be completed: a missing head or program is any word. -/
lemma exists_take_done (r : Reading) : ∃ more e, r.take more = .ok (done e) := by
  have hx : Word.atom? "x" = some (.symbol "x") := rfl
  cases r with
  | start => exact ⟨[⟨.word "x", 0, 0⟩], _, take_cons_of_ok (step_expecting_word rfl hx []) []⟩
  | head opening outer =>
      obtain ⟨more, e, hmore⟩ := exists_take_operands ⟨opening, .symbol "x", []⟩ outer
      refine ⟨⟨.word "x", 0, 0⟩ :: more, e, ?_⟩
      rw [take_cons_of_ok (step_head_word rfl hx outer), hmore]
  | operands g outer => exact exists_take_operands g outer
  | done e => exact ⟨[], e, rfl⟩

end Reading

/-- **Viable tokens** are those that can all be taken. -/
lemma viable_iff_take {ts : List Token} : Viable ts ↔ ∃ r, Reading.start.take ts = .ok r := by
  constructor
  · rintro ⟨more, e, he⟩
    rw [Reading.program_eq_take] at he
    cases hts : Reading.start.take ts with
    | ok r => exact ⟨r, rfl⟩
    | error error =>
        rw [Reading.take_append_of_error hts] at he
        cases he
  · rintro ⟨r, hr⟩
    obtain ⟨more, e, hmore⟩ := r.exists_take_done
    refine ⟨more, e, ?_⟩
    rw [Reading.program_eq_take, Reading.take_append_of_ok hr, hmore]
    rfl

/-! ### Brackets -/

/-- Tokens of which every bracket has its partner among them. -/
inductive Balanced : List Token.Kind → Prop
  | nil : Balanced []
  | word (w : String) {ks : List Token.Kind} (hks : Balanced ks) : Balanced (.word w :: ks)
  | group {ks ls : List Token.Kind} (hks : Balanced ks) (hls : Balanced ls) :
      Balanced (.opening :: ks ++ .closing :: ls)

lemma Balanced.append {ks ls : List Token.Kind} (hks : Balanced ks) (hls : Balanced ls) :
    Balanced (ks ++ ls) := by
  induction hks with
  | nil => exact hls
  | word w _ ih => exact .word w ih
  | group hks _ _ ih => simpa using Balanced.group hks ih

lemma DerivesEach.balanced {ks : List Token.Kind} {es : List Expr}
    (hall : ∀ e ∈ es, ∀ ls, Derives ls e → Balanced ls) (h : DerivesEach ks es) : Balanced ks := by
  induction es generalizing ks with
  | nil =>
      cases h
      exact .nil
  | cons e es ih =>
      cases h with
      | cons he hes =>
          exact (hall e (by simp) _ he).append (ih (fun f hf => hall f (by simp [hf])) hes)

/-- The brackets of an expression are balanced. -/
lemma Derives.balanced (e : Expr) : ∀ ks, Derives ks e → Balanced ks := by
  induction e using Expr.ind with
  | step a es ih =>
      intro ks h
      cases h with
      | word ha => exact .word _ .nil
      | group ha hes => exact .group (.word _ (hes.balanced ih)) .nil

/-- Whether an opening bracket is still open behind the last token, and the brackets
behind it are not. -/
def InnermostOpen (o : Token) (ts : List Token) : Prop :=
  o.kind = .opening ∧ ∃ before after, ts = before ++ o :: after ∧ Balanced (after.map Token.kind)

/-! ### Errors -/

namespace SyntaxError

/-- Whether an error says that the tokens end too early. -/
def isIncomplete : SyntaxError → Bool
  | noTokens | unmatchedOpening _ => true
  | emptyExpression _ | unexpectedClosing _ | invalidToken _ | invalidHead _ | excessTokens _ =>
    false

/-- The errors of a wrong token `t` behind the tokens `before`. All name the token
itself but the one of an empty group, which names its opening bracket. -/
inductive RaisedAt (before : List Token) (t : Token) : SyntaxError → Prop
  | unexpectedClosing (ht : t.kind = .closing) (hfirst : before = []) :
      RaisedAt before t (.unexpectedClosing t)
  | invalidToken {w : String} (ht : t.kind = .word w) (hw : Word.atom? w = none) :
      RaisedAt before t (.invalidToken t)
  | invalidHead (ht : t.kind = .opening) {outer : List Token} {o : Token}
      (ho : o.kind = .opening) (hlast : before = outer ++ [o]) : RaisedAt before t (.invalidHead t)
  | emptyExpression (ht : t.kind = .closing) {outer : List Token} {o : Token}
      (ho : o.kind = .opening) (hlast : before = outer ++ [o]) :
      RaisedAt before t (.emptyExpression o)
  | excessTokens {e : Expr} (he : Derives (before.map Token.kind) e) :
      RaisedAt before t (.excessTokens t)

lemma RaisedAt.isIncomplete {before : List Token} {t : Token} {error : SyntaxError}
    (h : error.RaisedAt before t) : error.isIncomplete = false := by
  cases h <;> rfl

end SyntaxError

namespace Reading

lemma eq_invalidToken_of_map_atom {t : Token} {w : String} {f : Atom → Reading}
    {error : SyntaxError} (h : (atom t w).map f = .error error) :
    Word.atom? w = none ∧ error = .invalidToken t := by
  rw [atom] at h
  split at h
  · cases h
  · next hw => exact ⟨hw, (Except.error.inj h).symm⟩

/-- The error of one step, in terms of the tokens that were taken before. -/
lemma Holds.raisedAt {r : Reading} {before : List Token} {t : Token} {error : SyntaxError}
    (h : r.Holds before) (ht : r.step t = .error error) : error.RaisedAt before t := by
  cases h with
  | done he =>
      simp only [Reading.step, Except.error.injEq] at ht
      exact ht ▸ .excessTokens he
  | start =>
      cases hkind : t.kind with
      | opening => simp [Reading.step, hkind] at ht
      | closing =>
          simp only [Reading.step, hkind, Except.error.injEq] at ht
          exact ht ▸ .unexpectedClosing hkind rfl
      | word w =>
          simp only [Reading.step, hkind] at ht
          obtain ⟨hw, rfl⟩ := eq_invalidToken_of_map_atom ht
          exact .invalidToken hkind hw
  | head houter hopening =>
      cases hkind : t.kind with
      | opening =>
          simp only [Reading.step, hkind, Except.error.injEq] at ht
          exact ht ▸ .invalidHead hkind hopening rfl
      | closing =>
          simp only [Reading.step, hkind, Except.error.injEq] at ht
          exact ht ▸ .emptyExpression hkind hopening rfl
      | word w =>
          simp only [Reading.step, hkind] at ht
          obtain ⟨hw, rfl⟩ := eq_invalidToken_of_map_atom ht
          exact .invalidToken hkind hw
  | operands hstack =>
      cases hkind : t.kind with
      | opening => simp [Reading.step, hkind] at ht
      | closing => simp [Reading.step, hkind] at ht
      | word w =>
          simp only [Reading.step, hkind] at ht
          obtain ⟨hw, rfl⟩ := eq_invalidToken_of_map_atom ht
          exact .invalidToken hkind hw

/-- The errors of tokens that end too early. -/
lemma Holds.finish_eq_error {r : Reading} {ts : List Token} {error : SyntaxError}
    (h : r.Holds ts) (hr : r.finish = .error error) :
    (error = .noTokens ∧ ts = []) ∨ ∃ o, error = .unmatchedOpening o ∧ InnermostOpen o ts := by
  cases h with
  | done he => cases hr
  | start => exact .inl ⟨(Except.error.inj hr).symm, rfl⟩
  | @head outer before houter opening hopening =>
      exact .inr ⟨opening, (Except.error.inj hr).symm, hopening, before, [], rfl, .nil⟩
  | @operands g outer ts hstack =>
      refine .inr ⟨g.opening, (Except.error.inj hr).symm, ?_⟩
      cases hstack with
      | @cons outer before houter g hopening t w ht ha us hes =>
          have hus : Balanced (us.map Token.kind) :=
            hes.balanced fun e _ => Derives.balanced e
          exact ⟨hopening, before, t :: us, rfl, by simpa [ht] using hus.word w⟩

/-- A program fails at a token that cannot be taken, or behind the last one. -/
lemma program_eq_error {ts : List Token} {error : SyntaxError}
    (h : (program ts).1 = .error error) :
    (∃ before t after, ts = before ++ t :: after ∧ Viable before ∧ ¬ Viable (before ++ [t])
      ∧ error.RaisedAt before t)
    ∨ (Viable ts ∧ ((error = .noTokens ∧ ts = [])
      ∨ ∃ o, error = .unmatchedOpening o ∧ InnermostOpen o ts)) := by
  rw [program_eq_take] at h
  cases htake : start.take ts with
  | ok r =>
      rw [htake] at h
      exact .inr ⟨viable_iff_take.2 ⟨r, htake⟩, (Holds.start.take htake).finish_eq_error h⟩
  | error error' =>
      rw [htake] at h
      obtain rfl := Except.error.inj h
      obtain ⟨before, t, after, r, rfl, hbefore, ht⟩ := exists_step_eq_error htake
      refine .inl ⟨before, t, after, rfl, viable_iff_take.2 ⟨r, hbefore⟩, ?_,
        (Holds.start.take hbefore).raisedAt ht⟩
      rw [viable_iff_take]
      rintro ⟨r', hr'⟩
      rw [take_append_of_ok hbefore, take_cons_of_error ht] at hr'
      cases hr'

end Reading

lemma Viable.of_append {ts us : List Token} (h : Viable (ts ++ us)) : Viable ts := by
  obtain ⟨more, e, he⟩ := h
  exact ⟨us ++ more, e, by rwa [← List.append_assoc]⟩

/-- **Errors are noticed at the first token that cannot be put right**: an error says
that tokens are missing exactly if some tokens could follow, and then names the
innermost bracket that is open. Any other error is raised at the one token before
which the tokens were viable and with which they are not. -/
theorem program_error_at_first_wrong_token {ts : List Token} {error : SyntaxError}
    (h : (Reading.program ts).1 = .error error) :
    (error.isIncomplete ↔ Viable ts)
    ∧ (error = .noTokens ↔ ts = [])
    ∧ (∀ o, error = .unmatchedOpening o → InnermostOpen o ts)
    ∧ (error.isIncomplete = false → ∃ before t after, ts = before ++ t :: after
      ∧ Viable before ∧ ¬ Viable (before ++ [t]) ∧ error.RaisedAt before t) := by
  rcases Reading.program_eq_error h with ⟨before, t, after, rfl, hbefore, ht, hraised⟩
    | ⟨hviable, ⟨rfl, rfl⟩ | ⟨o, rfl, ho⟩⟩
  · have hwrong : ¬ Viable (before ++ t :: after) := by
      intro hts
      rw [← List.singleton_append, ← List.append_assoc] at hts
      exact ht hts.of_append
    refine ⟨by simp [hraised.isIncomplete, hwrong], ?_, ?_,
      fun _ => ⟨before, t, after, rfl, hbefore, ht, hraised⟩⟩
    · simp only [List.append_eq_nil_iff, reduceCtorEq, and_false, iff_false]
      rintro rfl
      cases hraised
    · rintro o rfl
      cases hraised
  · exact ⟨by simp [SyntaxError.isIncomplete, hviable], by simp, by simp,
      by simp [SyntaxError.isIncomplete]⟩
  · have hne : ts ≠ [] := by
      obtain ⟨-, before, after, rfl, -⟩ := ho
      simp
    exact ⟨by simp [SyntaxError.isIncomplete, hviable], by simp [hne],
      fun o' h' => SyntaxError.unmatchedOpening.inj h' ▸ ho, by simp [SyntaxError.isIncomplete]⟩

/-- `(f (x) (g y` can be completed, and its last bracket is the one to close. `(f () x`
cannot, since its second bracket has no head. -/
theorem program_error_open_or_empty :
    (Reading.program (Token.scan "(f (x) (g y")).1 = .error (.unmatchedOpening ⟨.opening, 7, 8⟩)
    ∧ Viable (Token.scan "(f (x) (g y")
    ∧ InnermostOpen ⟨.opening, 7, 8⟩ (Token.scan "(f (x) (g y")
    ∧ (Reading.program (Token.scan "(f () x")).1 = .error (.emptyExpression ⟨.opening, 3, 4⟩)
    ∧ ¬ Viable (Token.scan "(f () x") := by
  have hopen : (Reading.program (Token.scan "(f (x) (g y")).1
      = .error (.unmatchedOpening ⟨.opening, 7, 8⟩) := Expr.parse_of_advance rfl
  have hempty : (Reading.program (Token.scan "(f () x")).1
      = .error (.emptyExpression ⟨.opening, 3, 4⟩) := Expr.parse_of_advance rfl
  obtain ⟨hviable, -, hinnermost, -⟩ := program_error_at_first_wrong_token hopen
  obtain ⟨hwrong, -⟩ := program_error_at_first_wrong_token hempty
  refine ⟨hopen, hviable.1 rfl, hinnermost _ rfl, hempty, fun h => ?_⟩
  exact absurd (hwrong.2 h) (by decide)

end SketchLisp

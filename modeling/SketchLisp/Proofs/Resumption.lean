import SketchLisp.Proofs.Viability

/-!
Reading on behind an expression.

Reading an expression looks at no token that it does not take. Unless the tokens end too
early, it comes to the same whatever tokens follow those it has taken, and so expressions
that stand one behind the other are read one by one.

* `Settled`: outcomes that say more than that tokens are missing;
* `Reading.Decides`: tokens that are taken for an outcome, whatever tokens follow them, with
  one lemma for each way in which a token is taken;
* `Reading.Split`: how a run divides its tokens into those it takes and those it leaves,
  kept by one token (`Reading.Split.cons`) and hence by a whole run
  (`Reading.exists_split_advance`);
* `Reading.successive`: expressions read one after another from the same tokens;
* `expression_reads_prefix`: the tokens that an expression takes decide what it comes to, and
  programs that follow each other are read one by one.
-/

namespace SketchLisp

/-- Whether an outcome says more than that tokens are missing. -/
def Settled : Except SyntaxError Expr → Prop
  | .ok _ => True
  | .error error => error.isIncomplete = false

namespace Reading

/-! ### Single tokens -/

/-- A token that is wrong stays wrong whatever follows it. -/
lemma isIncomplete_of_step {r : Reading} {t : Token} {error : SyntaxError}
    (h : r.step t = .error error) : error.isIncomplete = false := by
  cases r with
  | done e =>
      cases h
      rfl
  | start | head | operands =>
      cases hkind : t.kind with
      | word w =>
          simp only [step, hkind] at h
          obtain ⟨-, rfl⟩ := eq_invalidToken_of_map_atom h
          rfl
      | opening | closing =>
          simp only [step, hkind] at h
          cases h <;> rfl

/-- A reading that is not complete only lacks tokens. -/
lemma not_settled_finish {r : Reading} (hr : ∀ e, r ≠ done e) : ¬ Settled r.finish := by
  cases r with
  | done e => exact absurd rfl (hr e)
  | start | head | operands => simp [finish, Settled, SyntaxError.isIncomplete]

/-! ### Tokens taken and tokens left -/

/-- Whether a reading takes some tokens for an outcome, whatever tokens follow them. -/
def Decides (r : Reading) (used : List Token) (result : Except SyntaxError Expr) : Prop :=
  ∀ more, advance r (used ++ more) = (result, more)

lemma decides_done (e : Expr) : (done e).Decides [] (.ok e) := fun _ => by
  rw [List.nil_append, advance_done]

lemma decides_of_error {r : Reading} {t : Token} {error : SyntaxError} (hr : ∀ e, r ≠ done e)
    (h : r.step t = .error error) : r.Decides [t] (.error error) := fun more =>
  advance_cons_of_error hr h more

lemma Decides.cons {r r' : Reading} {t : Token} {used : List Token}
    {result : Except SyntaxError Expr} (ht : r.step t = .ok r') (h : r'.Decides used result) :
    r.Decides (t :: used) result := by
  intro more
  rw [List.cons_append, advance_cons ht, h more]

/-- How a run divides the tokens: those that it takes decide its outcome, or it takes them
all and lacks more. Only a complete reading takes none where there are some. -/
structure Split (r : Reading) (ts used : List Token)
    (outcome : Except SyntaxError Expr × List Token) : Prop where
  eq_append : ts = used ++ outcome.2
  progress : (∀ e, r ≠ done e) → ts ≠ [] → used ≠ []
  decides : Settled outcome.1 → r.Decides used outcome.1
  exhausted : ¬ Settled outcome.1 → outcome.2 = []

/-- One more token in front, if it is not wrong. -/
lemma Split.cons {r r' : Reading} {t : Token} {ts used : List Token}
    {outcome : Except SyntaxError Expr × List Token} (ht : r.step t = .ok r')
    (h : r'.Split ts used outcome) : r.Split (t :: ts) (t :: used) outcome where
  eq_append := by rw [h.eq_append, List.cons_append]
  progress _ _ := List.cons_ne_nil t used
  decides hsettled := (h.decides hsettled).cons ht
  exhausted := h.exhausted

lemma split_of_error {r : Reading} {t : Token} {error : SyntaxError} (hr : ∀ e, r ≠ done e)
    (ht : r.step t = .error error) (ts : List Token) :
    r.Split (t :: ts) [t] (.error error, ts) where
  eq_append := rfl
  progress _ _ := List.cons_ne_nil t []
  decides _ := decides_of_error hr ht
  exhausted h := absurd (isIncomplete_of_step ht) h

lemma split_done (e : Expr) (ts : List Token) : (done e).Split ts [] (.ok e, ts) where
  eq_append := rfl
  progress h := absurd rfl (h e)
  decides _ := decides_done e
  exhausted h := absurd trivial h

lemma split_nil {r : Reading} (hr : ∀ e, r ≠ done e) : r.Split [] [] (r.finish, []) where
  eq_append := rfl
  progress _ h := absurd rfl h
  decides h := absurd h (not_settled_finish hr)
  exhausted _ := rfl

lemma done_or_ne (r : Reading) : (∃ e, r = done e) ∨ ∀ e, r ≠ done e := by
  cases r with
  | done e => exact .inl ⟨e, rfl⟩
  | start | head | operands => exact .inr (by simp)

/-- **A run takes a prefix** of its tokens, and that prefix decides its outcome. -/
lemma exists_split_advance (r : Reading) (ts : List Token) :
    ∃ used, r.Split ts used (advance r ts) := by
  -- a complete reading takes nothing; any other takes the next token, if there is one
  induction ts generalizing r with
  | nil =>
      rcases r.done_or_ne with ⟨e, rfl⟩ | hr
      · exact ⟨[], split_done e []⟩
      · refine ⟨[], ?_⟩
        rw [advance]
        · exact split_nil hr
        · exact hr
  | cons t ts ih =>
      rcases r.done_or_ne with ⟨e, rfl⟩ | hr
      · exact ⟨[], split_done e (t :: ts)⟩
      · cases ht : r.step t with
        | error error =>
            rw [advance_cons_of_error hr ht]
            exact ⟨[t], split_of_error hr ht ts⟩
        | ok r' =>
            obtain ⟨used, hused⟩ := ih r'
            rw [advance_cons ht]
            exact ⟨t :: used, hused.cons ht⟩

/-! ### One expression after another -/

/-- The outcomes of reading `n` expressions one after another, and the tokens left. -/
def successive : Nat → List Token → List (Except SyntaxError Expr) × List Token
  | 0, tokens => ([], tokens)
  | n + 1, tokens =>
    let first := expression tokens
    let others := successive n first.2
    (first.1 :: others.1, others.2)

/-- A program in front of other tokens is read and leaves them. -/
lemma expression_append_of_program {ts : List Token} {e : Expr} (h : (program ts).1 = .ok e)
    (more : List Token) : expression (ts ++ more) = (.ok e, more) := by
  have hread : advance start ts = (.ok e, []) := by
    rw [← expression_eq_advance, program_eq_ok_iff_expression.1 h]
  obtain ⟨used, hused⟩ := exists_split_advance start ts
  rw [hread] at hused
  have hts : ts = used := by simpa using hused.eq_append
  rw [hts, expression_eq_advance]
  exact hused.decides trivial more

/-- Programs that follow each other are read one by one, up to the end of the tokens. -/
lemma successive_flatten {tss : List (List Token)} {es : List Expr}
    (h : List.Forall₂ (fun ts e => (program ts).1 = .ok e) tss es) :
    successive (es.length + 1) tss.flatten = (es.map .ok ++ [.error .noTokens], []) := by
  induction h with
  | nil =>
      rw [List.flatten_nil, List.length_nil, successive, expression_eq_advance]
      rfl
  | cons he _ ih =>
      rw [List.flatten_cons, List.length_cons, successive, expression_append_of_program he]
      simp only [ih]
      rfl

end Reading

/-- **An expression is read from a prefix**: reading takes at least one token if there is one,
and the rest is left as it was. Unless tokens are missing, the outcome depends only on what
was taken, and if some are missing, none is left. Hence programs that follow each other are
read one by one. -/
theorem expression_reads_prefix :
    (∀ ts : List Token, ∃ used, ts = used ++ (Reading.expression ts).2 ∧ (ts ≠ [] → used ≠ [])
      ∧ (Settled (Reading.expression ts).1 → ∀ more,
        Reading.expression (used ++ more) = ((Reading.expression ts).1, more))
      ∧ (¬ Settled (Reading.expression ts).1 → (Reading.expression ts).2 = []))
    ∧ ∀ (tss : List (List Token)) (es : List Expr),
      List.Forall₂ (fun ts e => (Reading.program ts).1 = .ok e) tss es →
        Reading.successive (es.length + 1) tss.flatten = (es.map .ok ++ [.error .noTokens], []) := by
  refine ⟨fun ts => ?_, fun tss es h => Reading.successive_flatten h⟩
  simp only [Reading.expression_eq_advance]
  obtain ⟨used, hused⟩ := Reading.exists_split_advance .start ts
  exact ⟨used, hused.eq_append, hused.progress (by simp), hused.decides, hused.exhausted⟩

/-- `(f x)` and `y` are read in turn. The second bracket of `(g ()` has no head whatever
follows it, while `(g` takes all there is. -/
theorem expression_reads_prefix_in_turn :
    Reading.successive 3 (Token.scan "(f x)" ++ Token.scan "y")
      = ([.ok (.node (.symbol "f") [.leaf (.symbol "x")]), .ok (.leaf (.symbol "y")),
          .error .noTokens], [])
    ∧ (∀ more, Reading.expression (Token.scan "(g ()" ++ more)
      = (.error (.emptyExpression ⟨.opening, 3, 4⟩), more))
    ∧ (Reading.expression (Token.scan "(g")).2 = [] := by
  have hgroup : (Reading.program (Token.scan "(f x)")).1
      = .ok (.node (.symbol "f") [.leaf (.symbol "x")]) := Expr.parse_of_advance rfl
  have hname : (Reading.program (Token.scan "y")).1 = .ok (.leaf (.symbol "y")) :=
    Expr.parse_of_advance rfl
  have hempty : Reading.expression (Token.scan "(g ()")
      = (.error (.emptyExpression ⟨.opening, 3, 4⟩), []) := by
    rw [Reading.expression_eq_advance, Token.scan_eq_scanFrom]
    rfl
  have hopen : (Reading.expression (Token.scan "(g")).1
      = .error (.unmatchedOpening ⟨.opening, 0, 1⟩) := by
    rw [Reading.expression_eq_advance, Token.scan_eq_scanFrom]
    rfl
  have hturn := expression_reads_prefix.2 [Token.scan "(f x)", Token.scan "y"] _
    (.cons hgroup (.cons hname .nil))
  refine ⟨by simpa using hturn, ?_, ?_⟩
  · obtain ⟨used, hused, -, hdecides, -⟩ := expression_reads_prefix.1 (Token.scan "(g ()")
    rw [hempty] at hused hdecides
    rw [hused, List.append_nil]
    exact hdecides rfl
  · obtain ⟨_, -, -, -, hexhausted⟩ := expression_reads_prefix.1 (Token.scan "(g")
    exact hexhausted (by simp [hopen, Settled, SyntaxError.isIncomplete])

end SketchLisp

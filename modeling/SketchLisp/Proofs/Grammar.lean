import Mathlib.Tactic.Common
import SketchLisp.Proofs.Descent

/-!
The grammar of expressions, and that reading follows it.

An expression is a word, or a group of an opening bracket, a word, any number
of expressions and a closing bracket. Only words that stand for an atom are
allowed, and the word of a group gives its head.

* `Derives`: the grammar, as a relation between kinds of tokens and the
  expression they spell;
* `Reading.Holds`: the invariant of reading: a reading stands for exactly the
  tokens taken so far, open group by open group. `Reading.Holds.step` keeps it
  over one token and `Reading.Holds.advance` over a whole run, which gives a
  derivation for each expression that is read;
* `Reading.takes_of_derives`: conversely the tokens of a derivation are read
  as its expression inside any stack of open groups and before any other
  tokens;
* `parse_eq_ok_iff_derives`: a text is read as an expression exactly if its
  tokens derive it, and no tokens derive two expressions.
-/

namespace SketchLisp

/-! ### The grammar -/

mutual

/-- The kinds of tokens that spell an expression. -/
inductive Derives : List Token.Kind → Expr → Prop
  | word {w : String} {a : Atom} (ha : Word.atom? w = some a) : Derives [.word w] (.leaf a)
  | group {w : String} {a : Atom} {ks : List Token.Kind} {es : List Expr}
      (ha : Word.atom? w = some a) (hes : DerivesEach ks es) :
      Derives (.opening :: .word w :: (ks ++ [.closing])) (.node a es)

/-- The kinds of tokens that spell expressions one after another. -/
inductive DerivesEach : List Token.Kind → List Expr → Prop
  | nil : DerivesEach [] []
  | cons {ks ls : List Token.Kind} {e : Expr} {es : List Expr}
      (he : Derives ks e) (hes : DerivesEach ls es) : DerivesEach (ks ++ ls) (e :: es)

end

/-- One more expression behind others. -/
lemma DerivesEach.concat {ks ls : List Token.Kind} {es : List Expr} {e : Expr}
    (hes : DerivesEach ks es) (he : Derives ls e) : DerivesEach (ks ++ ls) (es ++ [e]) := by
  induction es generalizing ks with
  | nil =>
      cases hes
      simpa using DerivesEach.cons he .nil
  | cons f fs ih =>
      cases hes with
      | cons hf hfs =>
          rw [List.append_assoc]
          exact .cons hf (ih hfs)

namespace Reading

/-! ### Derived tokens are read -/

lemma atom_of_atom? {w : String} {a : Atom} (h : Word.atom? w = some a) (t : Token) :
    atom t w = .ok a := by
  rw [atom, h]

/-- A word is valid if reading its atom succeeds. -/
lemma atom?_of_atom {w : String} {a : Atom} {t : Token} (h : atom t w = .ok a) :
    Word.atom? w = some a := by
  rw [atom] at h
  split at h
  · next b hb => rw [hb, Except.ok.inj h]
  · exact absurd h (by simp)

lemma step_expecting_word {t : Token} {w : String} {a : Atom} (ht : t.kind = .word w)
    (ha : Word.atom? w = some a) (stack : List OpenGroup) :
    (expecting stack).step t = .ok (complete (.leaf a) stack) := by
  rw [step_expecting_eq_map ht, atom_of_atom? ha]
  rfl

lemma step_head_word {t opening : Token} {w : String} {a : Atom} (ht : t.kind = .word w)
    (ha : Word.atom? w = some a) (outer : List OpenGroup) :
    (head opening outer).step t = .ok (operands ⟨opening, a, []⟩ outer) := by
  simp [step, ht, atom_of_atom? ha, Except.map]

lemma step_operands_closing {t : Token} (ht : t.kind = .closing) (g : OpenGroup)
    (outer : List OpenGroup) : (operands g outer).step t = .ok (complete g.close outer) := by
  simp [step, ht]

/-- Tokens that are taken as an expression, whatever groups are open around it
and whatever tokens follow. -/
def Takes (ts : List Token) (e : Expr) : Prop :=
  ∀ (stack : List OpenGroup) (rest : List Token),
    advance (expecting stack) (ts ++ rest) = advance (complete e stack) rest

/-- Operands are added to their group one by one. -/
lemma advance_operands {es : List Expr}
    (hall : ∀ e ∈ es, ∀ ts : List Token, Derives (ts.map Token.kind) e → Takes ts e)
    {ts : List Token} (hes : DerivesEach (ts.map Token.kind) es) (g : OpenGroup)
    (outer : List OpenGroup) (rest : List Token) :
    advance (operands g outer) (ts ++ rest)
      = advance (operands { g with latest := es.reverse ++ g.latest } outer) rest := by
  induction es generalizing ts g with
  | nil =>
      generalize hks : ts.map Token.kind = ks at hes
      cases hes
      rw [List.map_eq_nil_iff.1 hks]
      rfl
  | cons e es ih =>
      generalize hks : ts.map Token.kind = ks at hes
      cases hes with
      | cons he hes =>
          obtain ⟨us, vs, rfl, rfl, rfl⟩ := List.map_eq_append_iff.1 hks
          have hfirst := hall e (by simp) us he (g :: outer) (vs ++ rest)
          have hrest := ih (fun f hf => hall f (by simp [hf])) hes (g.add e)
          rw [List.append_assoc, ← expecting_cons, hfirst, complete, hrest]
          simp [OpenGroup.add]

/-- The tokens of a derivation are taken as its expression. -/
lemma takes_of_derives (e : Expr) :
    ∀ ts : List Token, Derives (ts.map Token.kind) e → Takes ts e := by
  induction e using Expr.ind with
  | step a es ih =>
      intro ts he stack rest
      generalize hks : ts.map Token.kind = ks at he
      cases he with
      | word ha =>
          obtain ⟨t, ts, rfl, ht, hts⟩ := List.map_eq_cons_iff.1 hks
          rw [List.map_eq_nil_iff.1 hts]
          exact advance_cons (step_expecting_word ht ha stack) rest
      | group ha hes =>
          obtain ⟨t, ts, rfl, ht, hts⟩ := List.map_eq_cons_iff.1 hks
          obtain ⟨u, us, rfl, hu, hus⟩ := List.map_eq_cons_iff.1 hts
          obtain ⟨vs, ws, rfl, rfl, hws⟩ := List.map_eq_append_iff.1 hus
          obtain ⟨x, xs, rfl, hx, hxs⟩ := List.map_eq_cons_iff.1 hws
          rw [List.map_eq_nil_iff.1 hxs, List.cons_append, List.cons_append, List.append_assoc,
            advance_cons (step_expecting_opening ht stack), advance_cons (step_head_word hu ha _),
            advance_operands ih hes, List.singleton_append,
            advance_cons (step_operands_closing hx _ _)]
          simp [OpenGroup.close]

/-! ### What is read has a derivation -/

/-- The tokens that a stack of open groups stands for: each group has taken its
bracket, its word and the tokens of its operands so far. -/
inductive Stacked : List OpenGroup → List Token → Prop
  | nil : Stacked [] []
  | cons {outer : List OpenGroup} {before : List Token} (houter : Stacked outer before)
      {g : OpenGroup} (hopening : g.opening.kind = .opening)
      {t : Token} {w : String} (ht : t.kind = .word w) (ha : Word.atom? w = some g.head)
      {ts : List Token} (hes : DerivesEach (ts.map Token.kind) g.latest.reverse) :
      Stacked (g :: outer) (before ++ g.opening :: t :: ts)

/-- The tokens that a reading has taken. -/
inductive Holds : Reading → List Token → Prop
  | start : Holds .start []
  | head {outer : List OpenGroup} {before : List Token} (houter : Stacked outer before)
      {opening : Token} (hopening : opening.kind = .opening) :
      Holds (.head opening outer) (before ++ [opening])
  | operands {g : OpenGroup} {outer : List OpenGroup} {ts : List Token}
      (hstack : Stacked (g :: outer) ts) : Holds (.operands g outer) ts
  | done {e : Expr} {ts : List Token} (he : Derives (ts.map Token.kind) e) : Holds (.done e) ts

/-- A complete expression behind the tokens of a stack. -/
lemma Stacked.complete {stack : List OpenGroup} {before ts : List Token} {e : Expr}
    (hstack : Stacked stack before) (he : Derives (ts.map Token.kind) e) :
    Holds (complete e stack) (before ++ ts) := by
  cases hstack with
  | nil => exact .done he
  | @cons outer before houter g hopening t w ht ha us hes =>
      have hes' : DerivesEach ((us ++ ts).map Token.kind) (g.add e).latest.reverse := by
        simpa [OpenGroup.add] using hes.concat he
      rw [Reading.complete, List.append_assoc, List.cons_append, List.cons_append]
      exact .operands (.cons houter (g := g.add e) hopening ht ha hes')

/-- A word reads as its atom or not at all. -/
lemma exists_of_map_atom {t : Token} {w : String} {f : Atom → Reading} {r : Reading}
    (h : (atom t w).map f = .ok r) : ∃ a, Word.atom? w = some a ∧ r = f a := by
  cases hatom : atom t w with
  | error error => simp [hatom, Except.map] at h
  | ok a =>
      rw [hatom] at h
      exact ⟨a, atom?_of_atom hatom, (Except.ok.inj h).symm⟩

/-- One token is added to what a reading has taken. -/
lemma Holds.step {r r' : Reading} {t : Token} {ts : List Token} (h : r.Holds ts)
    (hr : r.step t = .ok r') : r'.Holds (ts ++ [t]) := by
  cases h with
  | start =>
      cases ht : t.kind with
      | opening =>
          simp only [Reading.step, ht, Except.ok.injEq] at hr
          exact hr ▸ .head .nil ht
      | closing => simp [Reading.step, ht] at hr
      | word w =>
          simp only [Reading.step, ht] at hr
          obtain ⟨a, ha, rfl⟩ := exists_of_map_atom hr
          exact .done (by simpa [ht] using Derives.word ha)
  | @head outer before houter opening hopening =>
      cases ht : t.kind with
      | opening => simp [Reading.step, ht] at hr
      | closing => simp [Reading.step, ht] at hr
      | word w =>
          simp only [Reading.step, ht] at hr
          obtain ⟨a, ha, rfl⟩ := exists_of_map_atom hr
          rw [List.append_assoc]
          exact .operands (.cons houter (g := ⟨opening, a, []⟩) hopening ht ha .nil)
  | @operands g outer ts hstack =>
      cases ht : t.kind with
      | opening =>
          simp only [Reading.step, ht, Except.ok.injEq] at hr
          exact hr ▸ .head hstack ht
      | closing =>
          simp only [Reading.step, ht, Except.ok.injEq] at hr
          subst hr
          -- the innermost group ends here and becomes an operand of the next one
          cases hstack with
          | @cons outer before houter g hopening u w hu ha us hes =>
              have he : Derives ((g.opening :: u :: us ++ [t]).map Token.kind) g.close := by
                simpa [hopening, hu, ht, OpenGroup.close] using Derives.group ha hes
              rw [List.append_assoc]
              exact houter.complete he
      | word w =>
          simp only [Reading.step, ht] at hr
          obtain ⟨a, ha, rfl⟩ := exists_of_map_atom hr
          exact hstack.complete (by simpa [ht] using Derives.word ha)
  | done he => simp [Reading.step] at hr

/-- A run that reads an expression has taken tokens that derive it. -/
lemma Holds.advance {e : Expr} {rest : List Token} : ∀ {r : Reading} {before ts : List Token},
    r.Holds before → advance r ts = (.ok e, rest) →
      ∃ used, ts = used ++ rest ∧ Derives ((before ++ used).map Token.kind) e := by
  intro r before ts
  induction ts generalizing r before with
  | nil =>
      intro h hr
      cases h with
      | done he =>
          simp only [Reading.advance, Prod.mk.injEq, Except.ok.injEq] at hr
          obtain ⟨rfl, rfl⟩ := hr
          exact ⟨[], rfl, by simpa using he⟩
      | start | head | operands => simp [Reading.advance, finish] at hr
  | cons t ts ih =>
      intro h hr
      by_cases hdone : ∃ f, r = .done f
      · obtain ⟨f, rfl⟩ := hdone
        simp only [Reading.advance, Prod.mk.injEq, Except.ok.injEq] at hr
        obtain ⟨rfl, rfl⟩ := hr
        cases h with
        | done he => exact ⟨[], rfl, by simpa using he⟩
      · cases hstep : r.step t with
        | error error =>
            rw [Reading.advance, hstep] at hr
            · simp at hr
            · exact fun f hf => hdone ⟨f, hf⟩
        | ok r' =>
            rw [advance_cons hstep] at hr
            obtain ⟨used, rfl, he⟩ := ih (h.step hstep) hr
            exact ⟨t :: used, rfl, by simpa using he⟩

/-! ### Programs -/

/-- A program is read exactly if its first expression is read and leaves no
token. -/
lemma program_eq_ok_iff_expression {ts : List Token} {e : Expr} :
    (program ts).1 = .ok e ↔ expression ts = (.ok e, []) := by
  rw [program]
  generalize expression ts = outcome
  obtain ⟨result, rest⟩ := outcome
  cases result with
  | error error => simp
  | ok f => cases rest <;> simp

/-- A program is read exactly if one derivation takes all of its tokens. -/
lemma program_eq_ok_iff {ts : List Token} {e : Expr} :
    (program ts).1 = .ok e ↔ Derives (ts.map Token.kind) e := by
  rw [program_eq_ok_iff_expression, expression_eq_advance]
  constructor
  · intro h
    obtain ⟨used, rfl, he⟩ := Holds.start.advance h
    simpa using he
  · intro he
    have h := takes_of_derives e ts he [] []
    rwa [List.append_nil] at h

end Reading

/-- Kinds of tokens derive at most one expression: read as tokens, they have
one outcome. -/
lemma Derives.unique {ks : List Token.Kind} {e f : Expr} (he : Derives ks e)
    (hf : Derives ks f) : e = f := by
  let ts : List Token := ks.map fun k => ⟨k, 0, 0⟩
  have hts : ts.map Token.kind = ks := by simp [ts, Function.comp_def]
  rw [← hts] at he hf
  have h := (Reading.program_eq_ok_iff.2 he).symm.trans (Reading.program_eq_ok_iff.2 hf)
  exact Except.ok.inj h

/-- **Reading follows the grammar**: a text is read as an expression exactly if
all of its tokens together derive that expression, and no kinds of tokens
derive two expressions. -/
theorem parse_eq_ok_iff_derives :
    (∀ (text : String) (e : Expr),
      Expr.parse text = .ok e ↔ Derives ((Token.scan text).map Token.kind) e)
    ∧ ∀ (ks : List Token.Kind) (e f : Expr), Derives ks e → Derives ks f → e = f :=
  ⟨fun _ _ => Reading.program_eq_ok_iff, fun _ _ _ he hf => he.unique hf⟩

/-- A group inside a group, and that nothing else is derived by its tokens. -/
theorem derives_nested_group :
    ∃ e, Derives [.opening, .word "f", .opening, .word "x", .closing, .word "2", .closing] e
      ∧ Expr.parse "(f (x) 2)" = .ok e
      ∧ ∀ f, Derives [.opening, .word "f", .opening, .word "x", .closing, .word "2", .closing] f →
        e = f := by
  have hparse : Expr.parse "(f (x) 2)"
      = .ok (.node (.symbol "f") [.leaf (.symbol "x"), .leaf (.number 2)]) :=
    Expr.parse_of_advance rfl
  have h := (parse_eq_ok_iff_derives.1 _ _).1 hparse
  rw [Token.scan_eq_scanFrom] at h
  exact ⟨_, h, hparse, fun f hf => parse_eq_ok_iff_derives.2 _ _ _ h hf⟩

end SketchLisp

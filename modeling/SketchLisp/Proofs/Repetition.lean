import SketchLisp.Proofs.Extension
import SketchLisp.Proofs.Locality
import SketchLisp.Proofs.Transport

/-!
Running a program again.

A program that has run with success has looked up only names that stood for something,
and these still stand for the same. So a second run goes the same way, until it comes
to a definition of the first run: there it stops, since the name is no longer free.

* `Outcome.RepeatedBy`: a second outcome that is the same as the first, or that stops at
  a name which the first has bound;
* `Evaluation.Repeats`: computations whose second runs are such;
* `session_run_again`: what the second run of a program comes to.
-/

namespace SketchLisp

variable {α β : Type}

/-- What a second run from `F` comes to, with the outcome `p`, if the first run went from
`E` to the outcome `o`. -/
inductive Outcome.RepeatedBy (E F : Environment) (o p : Outcome α) : Prop
  /-- Nothing was defined, and the second run is the same. -/
  | same (hE : o.environment = E) (hp : p = ⟨o.result, F, o.effects⟩)
  /-- The first definition fails in the second run. -/
  | stopped {name : String} (hfree : E.meaning? name = none)
      (hbound : (o.environment.meaning? name).isSome)
      {effects : List Effect} (heffects : effects <+: o.effects)
      (hp : p = ⟨.error (.redefinition name), F, effects⟩)

namespace Evaluation

/-- Computations that extend every environment. -/
def Grows (x : Evaluation α) : Prop := ∀ E : Environment, E.Extends (x.run E).environment

lemma grows_bind {x : Evaluation α} {f : α → Evaluation β} (hx : Grows x)
    (hf : ∀ E a, (x.run E).result = .ok a → Grows (f a)) : Grows (x >>= f) := by
  intro E
  cases hresult : (x.run E).result with
  | error e =>
      rw [run_bind, andThen_of_error hresult]
      exact hx E
  | ok a =>
      rw [run_bind, andThen_of_ok hresult]
      exact (hx E).trans (hf E a hresult _)

lemma grows_define (name : String) (v : Expr) : Grows (define name v) := by
  intro E
  cases hfree : E.meaning? name with
  | none =>
      rw [run_define_of_none hfree]
      exact .extended hfree v
  | some m =>
      rw [run_define_of_isSome (by simp [hfree])]
      exact .refl E

/-- A definition that succeeds finds its name free and leaves it bound. -/
lemma meaning?_of_run_defineName {name : String} (hreserved : Vocabulary.isReserved name = false)
    (hspecial : Vocabulary.isSpecialCharacter name = false) {x : Evaluation Expr}
    {E : Environment} {v : Expr} (h : ((defineName name x).run E).result = .ok v) :
    E.meaning? name = none
    ∧ ((defineName name x).run E).environment.meaning? name = some (.bound v) := by
  rw [defineName_eq hreserved hspecial, run_meaning?_bind] at h ⊢
  cases hE : E.meaning? name with
  | some m => simp [hE] at h
  | none =>
      simp only [hE, Option.isSome_none, Bool.false_eq_true, if_false] at h ⊢
      obtain ⟨w, hw, hdefine⟩ := exists_of_run_bind_eq_ok h
      refine ⟨trivial, ?_⟩
      -- the name is still free when the value is there, or binding it would have failed
      cases hfree : (x.run E).environment.meaning? name with
      | some m =>
          rw [run_bind, run_define_of_isSome (by simp [hfree])] at hdefine
          simp [andThen] at hdefine
      | none =>
          rw [run_bind, run_define_of_none hfree] at hdefine
          rw [run_bind, andThen_of_ok hw, run_bind, run_define_of_none hfree]
          obtain rfl : w = v := by simpa [andThen] using hdefine
          exact Environment.meaning?_extended_self hfree w

/-- Computations that extend the environment, give values that meet a condition, and
repeat their successful runs in every environment that has kept what they left. -/
structure Repeats (P : α → Prop) (x : Evaluation α) : Prop where
  grows : Grows x
  value : ∀ E v, (x.run E).result = .ok v → P v
  repeats : ∀ E F v, (x.run E).result = .ok v → (x.run E).environment.Extends F →
    Outcome.RepeatedBy E F (x.run E) (x.run F)

variable {P : α → Prop} {Q : β → Prop}

lemma repeats_pure {a : α} (ha : P a) : Repeats P (pure a) where
  grows := .refl
  value _ _ h := Except.ok.inj h ▸ ha
  repeats _ _ _ _ _ := .same rfl rfl

lemma repeats_fail (e : EvalError) : Repeats P (fail e) where
  grows := .refl
  value E v h := by cases h
  repeats E F v h := by cases h

lemma repeats_queue (a : Atom) : Repeats (fun _ => True) (queue a) where
  grows := .refl
  value _ _ _ := trivial
  repeats _ _ _ _ _ := .same rfl rfl

/-- The second run stops in the first part, or goes on from there as the first run
did. -/
lemma repeats_bind {x : Evaluation α} {f : α → Evaluation β} (hx : Repeats P x)
    (hf : ∀ a, P a → Repeats Q (f a)) : Repeats Q (x >>= f) where
  grows := grows_bind hx.grows fun E a ha => (hf a (hx.value E a ha)).grows
  value E v h := by
    obtain ⟨a, ha, hv⟩ := exists_of_run_bind_eq_ok h
    exact (hf a (hx.value E a ha)).value _ v hv
  repeats E F v h hF := by
    obtain ⟨a, ha, hv⟩ := exists_of_run_bind_eq_ok h
    have hfa := hf a (hx.value E a ha)
    rw [run_bind, andThen_of_ok ha] at hF
    rw [run_bind, run_bind, andThen_of_ok ha]
    rcases hx.repeats E F a ha ((hfa.grows _).trans hF) with
      ⟨hE, hp⟩ | ⟨hfree, hbound, heffects, hp⟩
    · rw [hE] at hv hF ⊢
      have hresult : (x.run F).result = .ok a := by rw [hp, ha]
      rw [andThen_of_ok hresult, hp]
      rcases hfa.repeats E F v hv hF with ⟨hE', hp'⟩ | ⟨hfree, hbound, heffects, hp'⟩
      · exact .same hE' (by simp [hp'])
      · refine .stopped hfree hbound ((List.prefix_append_right_inj _).2 heffects) ?_
        simp [hp']
    · -- what the first part has bound is still bound at the end
      obtain ⟨m, hm⟩ := Option.isSome_iff_exists.1 hbound
      have hkept := (hfa.grows _).kept _ m hm
      refine .stopped hfree (by simp [hkept]) (heffects.trans (List.prefix_append _ _)) ?_
      rw [andThen_of_error (by rw [hp]), hp]

/-- A name that stood for something in the first run stands for the same in the second;
if it was free, there was no success. -/
lemma repeats_lookup {f : Option Meaning → Evaluation β} (hf : ∀ m, Repeats Q (f m))
    (hfails : Fails (f none)) (name : String) : Repeats Q (meaning? name >>= f) where
  grows E := by
    rw [run_meaning?_bind]
    exact (hf _).grows E
  value E v h := by
    rw [run_meaning?_bind] at h
    exact (hf _).value E v h
  repeats E F v h hF := by
    rw [run_meaning?_bind] at h hF
    rw [run_meaning?_bind, run_meaning?_bind]
    cases hm : E.meaning? name with
    | none =>
        rw [hm] at h
        exact absurd h (hfails E v)
    | some m =>
        rw [hm] at h hF
        have hkept := (((hf (some m)).grows E).trans hF).kept name m hm
        rw [hkept]
        exact (hf (some m)).repeats E F v h hF

/-- A definition that succeeded in the first run fails at once in the second. -/
lemma repeats_defineName {name : String} (hreserved : Vocabulary.isReserved name = false)
    (hspecial : Vocabulary.isSpecialCharacter name = false) {x : Evaluation Expr}
    (hx : Repeats (fun _ => True) x) : Repeats (fun _ => True) (defineName name x) where
  grows E := by
    rw [defineName_eq hreserved hspecial, run_meaning?_bind]
    split_ifs
    · exact .refl E
    · have hrest (v : Expr) : Grows (define name v >>= fun _ => pure v) :=
        grows_bind (grows_define name v) fun _ _ _ => .refl
      exact grows_bind hx.grows (fun _ v _ => hrest v) E
  value _ _ _ := trivial
  repeats E F v h hF := by
    obtain ⟨hfree, hbound⟩ := meaning?_of_run_defineName hreserved hspecial h
    refine .stopped hfree (by simp [hbound]) List.nil_prefix ?_
    rw [defineName_eq hreserved hspecial, run_meaning?_bind, hF.kept name _ hbound]
    rfl

/-- Repeating successful runs is closed under the ways in which evaluations are put
together. -/
lemma closed_repeats : Closed (fun _ => True) (fun _ => True) Repeats where
  pure := repeats_pure
  bind := repeats_bind
  fail := repeats_fail
  literal _ := trivial
  queue _ := repeats_queue _
  lookup hf hfails := repeats_lookup (fun m => hf m fun _ _ => trivial) hfails _
  define _ hreserved hspecial hx := repeats_defineName hreserved hspecial hx

end Evaluation

/-- A second run of an expression, from the environment that the first has left. -/
lemma Expr.eval_repeated (e : Expr) {E : Environment} {v : Expr}
    (h : (e.eval.run E).result = .ok v) :
    Outcome.RepeatedBy E (e.eval.run E).environment (e.eval.run E)
      (e.eval.run (e.eval.run E).environment) :=
  (e.eval_of_closed Evaluation.closed_repeats fun _ _ => trivial).repeats E _ v h (.refl _)

/-- **Running a program again** after it has succeeded: if the first run has bound no
names, the second does the same as the first; otherwise it stops at a name that the
first has bound, having queued some of the atoms that the first has queued. Either
way it leaves the environment as it is. -/
theorem session_run_again {s t : Session} {v : Expr} (hv : s.run.1.result = .ok v)
    (hprogram : t.program = s.program) (henvironment : t.environment = s.run.2.environment) :
    ∃ d, s.run.2.graphics = s.graphics ++ d ∧ t.run.2.environment = t.environment
      ∧ ((∀ name, t.environment.meaning? name = s.environment.meaning? name) →
        t.run.1.result = .ok v ∧ t.run.2.graphics = t.graphics ++ d)
      ∧ ((¬ ∀ name, t.environment.meaning? name = s.environment.meaning? name) →
        ∃ name d', t.environment.contains name ∧ ¬ s.environment.contains name
          ∧ t.run.1.result = .error (.redefinition name)
          ∧ d' <+: d ∧ t.run.2.graphics = t.graphics ++ d') := by
  cases hs : s.program with
  | none =>
      rw [Session.run, hs] at hv
      cases hv
  | some e =>
      rw [hs] at hprogram
      rw [Session.run_of_program hs] at hv henvironment ⊢
      rw [Session.run_of_program hprogram, henvironment]
      refine ⟨_, rfl, ?_⟩
      rcases e.eval_repeated hv with ⟨hE, hp⟩ | ⟨hfree, hbound, heffects, hp⟩
      · refine ⟨by rw [hp], fun _ => ?_, fun hne => ?_⟩
        · rw [hp]
          exact ⟨hv, rfl⟩
        · exact absurd (fun name => by rw [hE]) hne
      · refine ⟨by rw [hp], fun hsame => ?_, fun _ => ?_⟩
        · rw [hsame, hfree] at hbound
          cases hbound
        · refine ⟨_, _, hbound, by simp [Environment.contains, hfree], by rw [hp],
            heffects.filterMap Effect.queued?, ?_⟩
          simp [hp, Outcome.queued]

/-- The second run of `(begin (draw True) (define x (begin (draw False) True)))` stops at
the name that the first has bound, and queues no more than the first has queued. -/
theorem session_run_again_define : ∃ e v : Expr, ∃ s : Session, s.program = some e
    ∧ s.run.1.result = .ok v ∧ s.run.2.graphics = [.boolean true, .boolean false]
    ∧ ∃ name d', s.run.2.run.1.result = .error (.redefinition name)
      ∧ d' <+: [.boolean true, .boolean false]
      ∧ s.run.2.run.2.graphics = [.boolean true, .boolean false] ++ d' := by
  let e : Expr := .node (.symbol "begin") [.node (.symbol "draw") [.leaf (.boolean true)],
    .node (.symbol "define") [.leaf (.symbol "x"), .node (.symbol "begin")
      [.node (.symbol "draw") [.leaf (.boolean false)], .leaf (.boolean true)]]]
  let s : Session := ⟨.standard, some e, []⟩
  have hresult : s.run.1.result = .ok (.leaf (.boolean true)) := rfl
  obtain ⟨d, hd, -, -, hagain⟩ := session_run_again (t := s.run.2) hresult rfl rfl
  have hgraphics : d = [.boolean true, .boolean false] := by
    rw [← List.nil_append d]
    exact hd.symm
  obtain ⟨name, d', -, -, hname, hprefix, hd'⟩ := hagain fun hsame => by
    have hx : some (Meaning.bound (.leaf (.boolean true))) = none := hsame "x"
    cases hx
  exact ⟨e, _, s, rfl, hresult, rfl, name, d', hname, hgraphics ▸ hprefix, hd'⟩

end SketchLisp

import SketchLisp.Proofs.Footprint
import SketchLisp.Session

/-!
Evaluation depends only on the names that a program mentions.

Two runs of the same program, in environments that give the same meaning to every
name it mentions, go through the same steps: each lookup gives the same answer and
each binding is made in both runs or refused in both.

* `Environment.AgreeOn`: environments with the same meanings for some names;
* `Outcome.Matches`: outcomes with the same result and the same effects, whose
  environments agree;
* `Evaluation.Within.run_matches`: runs in environments that agree match;
* `session_run_eq_of_agreeOn`: the same for sessions that hold the same program;
* `Session.holding`: a session with another program.
-/

namespace SketchLisp

variable {names : String → Prop} {α β : Type}

/-- Whether two environments give the same meaning, or none, to some names. -/
def Environment.AgreeOn (names : String → Prop) (E F : Environment) : Prop :=
  ∀ name, names name → E.meaning? name = F.meaning? name

/-- Environments agree after the same name is bound to the same value in both. -/
lemma Environment.AgreeOn.extended {E F : Environment} (h : E.AgreeOn names F) {name : String}
    (hE : E.meaning? name = none) (hF : F.meaning? name = none) (value : Expr) :
    AgreeOn names (E.extended name value hE) (F.extended name value hF) := by
  intro n hn
  by_cases hname : n = name
  · rw [hname, meaning?_extended_self, meaning?_extended_self]
  · rw [meaning?_extended_of_ne hname, meaning?_extended_of_ne hname, h n hn]

/-! ### Two runs -/

/-- Outcomes that differ at most in names that do not matter. -/
structure Outcome.Matches (names : String → Prop) (o p : Outcome α) : Prop where
  result : o.result = p.result
  effects : o.effects = p.effects
  environment : o.environment.AgreeOn names p.environment

lemma Outcome.Matches.queued {o p : Outcome α} (h : o.Matches names p) : o.queued = p.queued := by
  rw [Outcome.queued, h.effects, Outcome.queued]

namespace Evaluation

/-- Going on in the same way after matching outcomes gives matching outcomes. -/
lemma andThen_matches {o p : Outcome α} (h : o.Matches names p) {f : α → Evaluation β}
    (hf : ∀ a (E F : Environment), E.AgreeOn names F →
      ((f a).run E).Matches names ((f a).run F)) :
    (andThen o f).Matches names (andThen p f) := by
  rw [andThen, andThen, ← h.result]
  cases o.result with
  | error e => exact ⟨rfl, h.effects, h.environment⟩
  | ok a =>
      have hnext := hf a _ _ h.environment
      refine ⟨hnext.result, ?_, hnext.environment⟩
      simp only [h.effects, hnext.effects]

/-- Binding a name succeeds in both environments or in neither. -/
lemma run_define_matches {E F : Environment} (h : E.AgreeOn names F) {name : String}
    (hname : names name) (value : Expr) :
    ((define name value).run E).Matches names ((define name value).run F) := by
  have hsame := h name hname
  cases hE : E.meaning? name with
  | none =>
      have hF : F.meaning? name = none := by rw [← hsame, hE]
      rw [run_define_of_none hE, run_define_of_none hF]
      exact ⟨rfl, rfl, h.extended hE hF value⟩
  | some m =>
      have hF : F.meaning? name = some m := by rw [← hsame, hE]
      rw [run_define_of_isSome (by simp [hE]), run_define_of_isSome (by simp [hF])]
      exact ⟨rfl, rfl, h⟩

/-- **Two runs match** if the environments they start in agree on the names that
are looked up or bound. -/
lemma Within.run_matches {x : Evaluation α} (hx : Within names x) :
    ∀ E F : Environment, E.AgreeOn names F → (x.run E).Matches names (x.run F) := by
  induction hx with
  | pure a => exact fun E F h => ⟨rfl, rfl, h⟩
  | ofExcept result => exact fun E F h => ⟨rfl, rfl, h⟩
  | queue a => exact fun E F h => ⟨rfl, rfl, h⟩
  | meaning? hname => exact fun E F h => ⟨by simp [h _ hname], rfl, h⟩
  | define hname value => exact fun E F h => run_define_matches h hname value
  -- the first run fails exactly if the second does, so that both go on or neither
  | bind hx hf ihx ihf =>
      intro E F h
      rw [run_bind, run_bind]
      exact andThen_matches (ihx E F h) ihf

/-- Names that are neither looked up nor bound keep their meaning. -/
lemma Within.meaning?_eq {x : Evaluation α} (hx : Within names x) (E : Environment)
    {name : String} (hname : ¬ names name) :
    (x.run E).environment.meaning? name = E.meaning? name := by
  refine hx.related (R := fun E F => F.meaning? name = E.meaning? name) (fun _ => rfl)
    (fun hEF hFG => hFG.trans hEF) ?_ E
  intro E n value hn hfree
  have hne : name ≠ n := by
    rintro rfl
    exact hname hn
  exact Environment.meaning?_extended_of_ne hne hfree value

end Evaluation

/-! ### Sessions -/

namespace Session

/-- A session with another program. -/
def holding (s : Session) (e : Expr) : Session := { s with program := some e }

lemma run_holding (s : Session) (e : Expr) :
    (s.holding e).run = (⟨(e.eval.run s.environment).result, (e.eval.run s.environment).effects⟩,
      ⟨(e.eval.run s.environment).environment, some e,
        s.graphics ++ (e.eval.run s.environment).queued⟩) :=
  run_of_program rfl

end Session

/-- **A program depends only on the names it mentions**: if the environments of two
sessions agree on the names that a program mentions, running it has the same result
in both, adds the same atoms to both queues, leaves environments that agree on these
names again, and leaves all other names as they were. -/
theorem session_run_eq_of_agreeOn {s t : Session} {e : Expr} (hs : s.program = some e)
    (ht : t.program = some e) (h : s.environment.AgreeOn e.Mentions t.environment) :
    s.run.1.result = t.run.1.result
    ∧ (∃ d, s.run.2.graphics = s.graphics ++ d ∧ t.run.2.graphics = t.graphics ++ d)
    ∧ s.run.2.environment.AgreeOn e.Mentions t.run.2.environment
    ∧ ∀ name, ¬ e.Mentions name →
        s.run.2.environment.meaning? name = s.environment.meaning? name
        ∧ t.run.2.environment.meaning? name = t.environment.meaning? name := by
  have hwithin : e.eval.Within e.Mentions := e.eval_within fun _ hn => hn
  have hmatch := hwithin.run_matches _ _ h
  rw [Session.run_of_program hs, Session.run_of_program ht]
  refine ⟨hmatch.result, ⟨(e.eval.run s.environment).queued, rfl, ?_⟩, hmatch.environment, ?_⟩
  · simp only [hmatch.queued]
  · intro name hname
    exact ⟨hwithin.meaning?_eq _ hname, hwithin.meaning?_eq _ hname⟩

/-- The program `(begin (define x True) (draw x) (f x))` binds a name and draws before
it fails, whatever another name stands for. -/
theorem session_run_begin : ∃ e : Expr, e.Mentions "x" ∧ ¬ e.Mentions "z"
    ∧ (Session.run ⟨.standard, some e, []⟩).1.result = .error (.unboundName "f")
    ∧ ∃ E, Environment.standard.define "z" (.leaf .nothing) = .ok E
      ∧ (Session.run ⟨E, some e, [.nothing]⟩).1.result = .error (.unboundName "f") := by
  refine ⟨.node (.symbol "begin")
    [.node (.symbol "define") [.leaf (.symbol "x"), .leaf (.boolean true)],
      .node (.symbol "draw") [.leaf (.symbol "x")], .node (.symbol "f") [.leaf (.symbol "x")]],
    by decide, by decide, rfl, _,
    Environment.define_of_none rfl _, ?_⟩
  refine Eq.trans (session_run_eq_of_agreeOn (t := ⟨.standard, _, []⟩) rfl rfl ?_).1 rfl
  intro name hname
  refine Environment.meaning?_extended_of_ne ?_ rfl _
  rintro rfl
  exact absurd hname (by decide)

end SketchLisp

import SketchLisp.Console
import SketchLisp.Proofs.Descent
import SketchLisp.Proofs.StandardNames

/-!
How the console recovers from errors.

An answer depends on the definitions and the queue that earlier lines have left, but not
on the program that the session still holds: every line puts its own in its place, or
none. So a line that cannot be read might as well not be there, and a line that fails
leaves a session that answers like a new one.

* `Console.sessionAfter`: the session that some lines leave;
* `Console.answers_append`: lines are answered in two parts;
* `Console.answers_of_program`: the program held does not matter;
* `Console.answer_of_malformed`, `Console.answer_of_failing`: what a line does that cannot
  be read, or that fails;
* `console_recovers`: what this means for all lines before and after it.
-/

namespace SketchLisp

namespace Console

/-- The session after some lines. -/
def sessionAfter (keepEnvironment : Bool) (s : Session) : List String → Session
  | [] => s
  | line :: rest => sessionAfter keepEnvironment (answer keepEnvironment s line).2 rest

lemma answers_cons (keep : Bool) (s : Session) (line : String) (rest : List String) :
    answers keep s (line :: rest)
      = (answer keep s line).1 :: answers keep (answer keep s line).2 rest := rfl

/-- Lines can be answered in two parts. -/
lemma answers_append (keep : Bool) (s : Session) (before after : List String) :
    answers keep s (before ++ after)
      = answers keep s before ++ answers keep (sessionAfter keep s before) after := by
  induction before generalizing s with
  | nil => rfl
  | cons line rest ih =>
      rw [List.cons_append, answers_cons, ih, answers_cons, List.cons_append, sessionAfter]

/-! ### The program held -/

lemma load_of_program (s : Session) (p : Option Expr) (text : String) :
    { s with program := p }.load text = s.load text := by
  rw [Session.load, Session.load]

/-- An answer does not depend on the program that the session holds. -/
lemma answer_of_program (keep : Bool) (s : Session) (p : Option Expr) (line : String) :
    answer keep { s with program := p } line = answer keep s line := by
  rw [answer, answer, load_of_program]

lemma answers_of_program (keep : Bool) (s : Session) (p : Option Expr) (lines : List String) :
    answers keep { s with program := p } lines = answers keep s lines := by
  cases lines with
  | nil => rfl
  | cons line rest => rw [answers_cons, answers_cons, answer_of_program]

/-! ### Single lines -/

/-- The reply to a line that cannot be read. -/
def malformedReply (error : SyntaxError) : Reply :=
  ⟨[errorLine error.message], [], [.parseFailed error]⟩

/-- A line that cannot be read changes nothing but the program held. -/
lemma answer_of_malformed {line : String} {error : SyntaxError}
    (h : Expr.parse line = .error error) (keep : Bool) (s : Session) :
    answer keep s line = (malformedReply error, { s with program := none }) := by
  rw [answer, Session.load, h]
  rfl

/-- A line that fails leaves a session with nothing but its program. -/
lemma answer_of_failing {s t : Session} {line : String} {e : Expr} {error : EvalError}
    (hload : s.load line = (.ok e, t)) (hrun : t.run.1.result = .error error) :
    ∃ p, (answer false s line).2 = { Session.fresh with program := p } := by
  refine ⟨t.run.2.program, ?_⟩
  rw [answer, hload]
  simp only [evaluate, hrun]
  rfl

/-- The queue is empty after each line, if it was before. -/
lemma graphics_answer {s : Session} (h : s.graphics = []) (keep : Bool) (line : String) :
    (answer keep s line).2.graphics = [] := by
  rw [answer, Session.load]
  cases Expr.parse line with
  | error error => exact h
  | ok e => rfl

lemma graphics_sessionAfter {s : Session} (h : s.graphics = []) (keep : Bool)
    (lines : List String) : (sessionAfter keep s lines).graphics = [] := by
  induction lines generalizing s with
  | nil => exact h
  | cons line rest ih => exact ih (graphics_answer h keep line)

/-! ### Many lines -/

/-- The answer to a line that cannot be read stands between the answers that are there
without it. -/
lemma answers_of_malformed {line : String} {error : SyntaxError}
    (h : Expr.parse line = .error error) (keep : Bool) (s : Session)
    (before after : List String) : answers keep s (before ++ line :: after)
      = (answers keep s (before ++ after)).insertIdx before.length (malformedReply error) := by
  induction before generalizing s with
  | nil =>
      rw [List.nil_append, answers_cons, answer_of_malformed h, answers_of_program]
      rfl
  | cons first rest ih =>
      rw [List.cons_append, List.cons_append, answers_cons, answers_cons, ih, List.length_cons,
        List.insertIdx_succ_cons]

/-- After a line that fails, lines are answered as by a new console. -/
lemma answers_of_failing {s t u : Session} {line : String} {e : Expr} {error : EvalError}
    {before : List String} (hbefore : sessionAfter false s before = t)
    (hload : t.load line = (.ok e, u)) (hrun : u.run.1.result = .error error)
    (after : List String) : answers false s (before ++ line :: after)
      = answers false s (before ++ [line]) ++ answers false .fresh after := by
  obtain ⟨p, hp⟩ := answer_of_failing hload hrun
  have hrest : answers false (answer false t line).2 after = answers false .fresh after := by
    rw [hp, answers_of_program]
  calc answers false s (before ++ line :: after)
      = answers false s before
          ++ ((answer false t line).1 :: answers false (answer false t line).2 after) := by
        rw [answers_append, hbefore, answers_cons]
    _ = answers false s (before ++ [line]) ++ answers false .fresh after := by
        rw [hrest, answers_append, hbefore, List.append_assoc]
        rfl

end Console

open Console in
/-- **The console recovers from errors**: a line that cannot be read adds its answer and
changes no other, whether or not definitions are kept; if they are not, the lines after
one that fails are answered as by a new console; and after each line the queue is
empty. -/
theorem console_recovers (keep : Bool) (before after : List String) (line : String) :
    (∀ error, Expr.parse line = .error error →
      answers keep .fresh (before ++ line :: after)
        = (answers keep .fresh (before ++ after)).insertIdx before.length
            ⟨["Error: " ++ error.message], [], [.parseFailed error]⟩)
    ∧ (∀ e s error, (sessionAfter false .fresh before).load line = (.ok e, s) →
      s.run.1.result = .error error →
      answers false .fresh (before ++ line :: after)
        = answers false .fresh (before ++ [line]) ++ answers false .fresh after)
    ∧ (sessionAfter keep .fresh before).graphics = [] := by
  refine ⟨fun error herror => ?_, fun e s error hload hrun => ?_, ?_⟩
  · exact answers_of_malformed herror keep .fresh before after
  · exact answers_of_failing rfl hload hrun after
  · exact graphics_sessionAfter rfl keep before

open Console in
/-- After `(define x True)`, the line `)` cannot be read and leaves `x` defined, and the line
`y` fails and takes the definition with it. -/
theorem console_recovers_after_define : ∃ (error : SyntaxError) (e : Expr) (s : Session),
    Expr.parse ")" = .error error
    ∧ answers true .fresh ["(define x True)", ")", "x"]
      = (answers true .fresh ["(define x True)", "x"]).insertIdx 1
          ⟨["Error: " ++ error.message], [], [.parseFailed error]⟩
    ∧ (sessionAfter false .fresh ["(define x True)"]).load "y" = (.ok e, s)
    ∧ s.environment.contains "x" ∧ s.run.1.result = .error (.unboundName "y")
    ∧ answers false .fresh ["(define x True)", "y", "x"]
      = answers false .fresh ["(define x True)", "y"] ++ answers false .fresh ["x"] := by
  let definition : Expr :=
    .node (.symbol "define") [.leaf (.symbol "x"), .leaf (.boolean true)]
  have hmalformed : Expr.parse ")" = .error (.unexpectedClosing ⟨.closing, 0, 1⟩) :=
    Expr.parse_of_advance rfl
  have hdefinition : Expr.parse "(define x True)" = .ok definition := Expr.parse_of_advance rfl
  have hfailing : Expr.parse "y" = .ok (.leaf (.symbol "y")) := Expr.parse_of_advance rfl
  let E := Environment.standard.extended "x" (.leaf (.boolean true)) rfl
  have hbefore : sessionAfter false .fresh ["(define x True)"] = ⟨E, some definition, []⟩ := by
    rw [sessionAfter, answer, Session.load, hdefinition]
    rfl
  have hload : (sessionAfter false .fresh ["(define x True)"]).load "y"
      = (.ok (.leaf (.symbol "y")), ⟨E, some (.leaf (.symbol "y")), []⟩) := by
    rw [hbefore, Session.load, hfailing]
  exact ⟨_, _, _, hmalformed, (console_recovers true ["(define x True)"] ["x"] ")").1 _ hmalformed,
    hload, rfl, rfl, (console_recovers false ["(define x True)"] ["x"] "y").2.1 _ _ _ hload rfl⟩

end SketchLisp

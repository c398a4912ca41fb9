import SketchLisp.CommandLine.Arguments
import SketchLisp.Proofs.HeldProgram
import SketchLisp.Proofs.Recovery

/-!
A single run and the first answer of a console.

A program can be given as a source and run once, or typed into a new console. The two load it
in different ways, word their errors apart and drain the queue under different conditions,
and still they agree on every text.

* `OneShot.Run.AgreesWith`: a run and a reply that show the same;
* `Expr.head?_resultLine?`: no result can be taken for an error;
* `OneShot.execute_agreesWith_answer`: a single run agrees with the first answer;
* `CommandLine.ArgumentReader.TakesExpression`: what is asked of the argument reader;
* `CommandLine.Output.Shows`: what the command line shows for such a run;
* `single_run_agrees_with_console`: all of this for every text.
-/

namespace SketchLisp

/-! ### Results and errors -/

/-- A result is shown in brackets. -/
lemma Expr.head?_resultLine? {e : Expr} {line : String} (h : e.resultLine? = some line) :
    line.toList.head? = some '(' := by
  rw [resultLine?] at h
  cases ha : e.head with
  | nothing | symbol => simp [ha] at h
  | boolean | number | point | line | arc =>
      simp only [ha, Option.some.injEq] at h
      subst h
      simp [Atom.text, Point.text, Line.text, Arc.text]

/-- An error is not. -/
lemma Console.head?_errorLine (message : String) :
    (errorLine message).toList.head? = some 'E' := by
  simp [errorLine]

/-- A text in UTF-8 is loaded as the text itself. -/
lemma Session.loadSource_bytes (s : Session) (text : String) :
    s.loadSource (.bytes text.toUTF8)
      = ((s.load text).1.mapError .malformed, (s.load text).2) := by
  rw [loadSource, Source.text_eq_ok_iff.2 rfl]

lemma Session.loadSource_of_parse {text : String} {e : Expr} (h : Expr.parse text = .ok e)
    (s : Session) : s.loadSource (.bytes text.toUTF8) = (.ok e, { s with program := some e }) := by
  rw [loadSource_bytes, load, h]
  rfl

/-! ### Agreement -/

namespace OneShot

/-- Whether a run and a reply show the same: the same result, figures and events, or the same
error. -/
def Run.AgreesWith (r : Run) (reply : Console.Reply) : Prop :=
  (∃ value : Expr, r.result = .ok value.resultLine? ∧ reply.lines = value.resultLine?.toList
      ∧ r.drawn = reply.drawn ∧ r.events = reply.events)
    ∨ ∃ error, r.result = .error error ∧ reply.lines = [Console.errorLine error.message]

/-- The run of a program whose text cannot be read. -/
lemma execute_of_malformed {text : String} {error : SyntaxError}
    (h : Expr.parse text = .error error) : execute (.bytes text.toUTF8)
      = ⟨.error (.load (.malformed error)), [], [.parseFailed error]⟩ := by
  rw [execute, Session.loadSource_bytes, Session.load, h]
  rfl

/-- A single run agrees with the first answer of a console. -/
lemma execute_agreesWith_answer (keep : Bool) (text : String) :
    (execute (.bytes text.toUTF8)).AgreesWith (Console.answer keep .fresh text).1 := by
  cases hparse : Expr.parse text with
  | error error =>
      rw [execute_of_malformed hparse, Console.answer_of_malformed hparse]
      exact .inr ⟨_, rfl, rfl⟩
  | ok e =>
      let s : Session := { Session.fresh with program := some e }
      have hload : Session.fresh.load text = (.ok e, s) := by rw [Session.load, hparse]
      rw [execute, Session.loadSource_of_parse hparse, Console.answer, hload]
      simp only [Console.evaluate]
      cases hresult : s.run.1.result with
      | ok value => exact .inl ⟨value, rfl, rfl, rfl, rfl⟩
      | error error =>
          -- keeping definitions or not changes the session and the events, but not the lines
          refine .inr ⟨.eval error, rfl, ?_⟩
          cases keep <;> rfl

namespace Run.AgreesWith

variable {r : Run} {reply : Console.Reply}

lemma result_eq_some_iff (h : r.AgreesWith reply) (line : String) :
    r.result = .ok (some line) ↔ reply.lines = [line] ∧ line.toList.head? = some '(' := by
  rcases h with ⟨value, hresult, hlines, -, -⟩ | ⟨error, hresult, hlines⟩
  · rw [hresult, hlines]
    constructor
    · intro h
      rw [Except.ok.inj h]
      exact ⟨rfl, Expr.head?_resultLine? (Except.ok.inj h)⟩
    · rintro ⟨h, -⟩
      rw [Option.toList_eq_singleton_iff.1 h]
  · rw [hresult, hlines]
    refine iff_of_false (by simp) ?_
    rintro ⟨h, hhead⟩
    rw [← List.singleton_inj.1 h, Console.head?_errorLine] at hhead
    exact absurd hhead (by decide)

lemma result_eq_none_iff (h : r.AgreesWith reply) : r.result = .ok none ↔ reply.lines = [] := by
  rcases h with ⟨value, hresult, hlines, -, -⟩ | ⟨error, hresult, hlines⟩
  · rw [hresult, hlines, Option.toList_eq_nil_iff, Except.ok.injEq]
  · simp [hresult, hlines]

lemma result_eq_error_iff (h : r.AgreesWith reply) (message : String) :
    (∃ error, r.result = .error error ∧ error.message = message)
      ↔ reply.lines = [Console.errorLine message] := by
  rcases h with ⟨value, hresult, hlines, -, -⟩ | ⟨error, hresult, hlines⟩
  · rw [hresult, hlines]
    refine iff_of_false (by simp) fun h => ?_
    have hhead := Expr.head?_resultLine? (Option.toList_eq_singleton_iff.1 h)
    rw [Console.head?_errorLine] at hhead
    exact absurd hhead (by decide)
  · rw [hresult, hlines, List.singleton_inj, Console.errorLine, Console.errorLine,
      String.append_right_inj]
    simp

lemma drawn_eq (h : r.AgreesWith reply) {line : Option String} (hr : r.result = .ok line) :
    r.drawn = reply.drawn ∧ r.events = reply.events := by
  rcases h with ⟨value, -, -, hsame⟩ | ⟨error, hresult, -⟩
  · exact hsame
  · rw [hresult] at hr
    cases hr

end Run.AgreesWith

end OneShot

namespace CommandLine

/-! ### The command line -/

/-- What the command line shows for a run, given the reply of a console. If the run succeeds,
the lines of the reply are the standard output, and nothing is said on the standard error. If it
fails, they are said on the standard error. The lines of the log precede them there. -/
structure Output.Shows (output : Output) (r : OneShot.Run) (reply : Console.Reply) : Prop where
  success : ∀ line, r.result = .ok line → output.exitCode = 0
    ∧ output.stdout = unlines reply.lines
    ∧ ∀ log, output.standardError log = unlines (log reply.events)
  failure : ∀ error, r.result = .error error → output.exitCode = 1
    ∧ output.stdout = ""
    ∧ ∀ log, output.standardError log = unlines (log r.events) ++ unlines reply.lines

lemma Output.shows_ofRun {r : OneShot.Run} {reply : Console.Reply} (h : r.AgreesWith reply) :
    (ofRun r).Shows r reply := by
  rcases h with ⟨value, hresult, hlines, -, hevents⟩ | ⟨error, hresult, hlines⟩
  · have houtput : ofRun r = success reply.lines reply.events := by
      rw [ofRun, hresult, hlines, hevents]
    refine ⟨fun line _ => ?_, fun error herror => by simp [hresult] at herror⟩
    rw [houtput]
    exact ⟨rfl, rfl, fun log => String.append_empty⟩
  · have houtput : ofRun r = ⟨1, "", unlines reply.lines, r.events⟩ := by
      rw [ofRun, hresult, hlines]
      rfl
    refine ⟨fun line hline => by simp [hresult] at hline, fun error _ => ?_⟩
    rw [houtput]
    exact ⟨rfl, rfl, fun log => rfl⟩

/-- Whether an argument reader takes a text for the expression that the arguments ask to
evaluate. This is what the option `-e` is for, whatever text follows it. -/
def ArgumentReader.TakesExpression (reader : ArgumentReader) (arguments : List String)
    (text : String) : Prop :=
  ∃ keep, reader arguments = .settled ⟨some text, none, keep⟩

lemma invoke_of_takesExpression {reader : ArgumentReader} {arguments : List String}
    {text : String} (h : reader.TakesExpression arguments text)
    (source : String → Except String Source) (lines : List String) :
    invoke reader arguments source lines = .ofRun (OneShot.execute (.bytes text.toUTF8)) := by
  obtain ⟨keep, hreader⟩ := h
  rw [invoke, hreader]
  rfl

end CommandLine

open CommandLine in
/-- **A single run agrees with the first answer of a console**, whether or not the console
keeps definitions: it gives the line that the console shows, which starts with a bracket, or no
line if the console shows none, or the error that the console shows, and if it succeeds, the
same figures are drawn in the same order. The command line shows these lines and ends with the
code for success or failure, whenever the argument reader takes the text for the expression. -/
theorem single_run_agrees_with_console (keep : Bool) (text : String) :
    let r := OneShot.execute (.bytes text.toUTF8)
    let reply := (Console.answer keep .fresh text).1
    (∀ line, r.result = .ok (some line)
      ↔ reply.lines = [line] ∧ line.toList.head? = some '(')
    ∧ (r.result = .ok none ↔ reply.lines = [])
    ∧ (∀ message, (∃ error, r.result = .error error ∧ error.message = message)
      ↔ reply.lines = ["Error: " ++ message])
    ∧ (∀ line, r.result = .ok line → r.drawn = reply.drawn ∧ r.events = reply.events)
    ∧ ∀ (reader : ArgumentReader) (arguments : List String),
      reader.TakesExpression arguments text →
        ∀ (source : String → Except String Source) (lines : List String),
          (invoke reader arguments source lines).Shows r reply := by
  intro r reply
  have h : r.AgreesWith reply := OneShot.execute_agreesWith_answer keep text
  refine ⟨h.result_eq_some_iff, h.result_eq_none_iff, h.result_eq_error_iff,
    fun line => h.drawn_eq, fun reader arguments hreader source lines => ?_⟩
  rw [invoke_of_takesExpression hreader]
  exact Output.shows_ofRun h

open CommandLine in
/-- Behind the option `-e`, the expression `True` is shown on the standard output and the error
of `x` on the standard error. -/
theorem single_run_agrees_with_console_option :
    let output (text : String) := invoke readArguments ["-e", text] (fun _ => .error "") []
    ((output "True").exitCode = 0 ∧ (output "True").stdout = "(True)\n"
      ∧ (output "True").standardError (fun _ => []) = "")
    ∧ (output "x").exitCode = 1 ∧ (output "x").stdout = ""
      ∧ (output "x").standardError (fun _ => []) = "Error: Unbound name: x\n" := by
  intro output
  have htrue : (OneShot.execute (.bytes "True".toUTF8)).result = .ok (some "(True)") := by
    rw [OneShot.execute, Session.loadSource_of_parse (Expr.parse_of_advance rfl)]
    rfl
  have hx : (OneShot.execute (.bytes "x".toUTF8)).result
      = .error (.eval (.unboundName "x")) := by
    rw [OneShot.execute, Session.loadSource_of_parse (Expr.parse_of_advance rfl)]
    rfl
  obtain ⟨hline, -, -, -, hshows⟩ := single_run_agrees_with_console false "True"
  obtain ⟨-, -, herror, -, hshows'⟩ := single_run_agrees_with_console false "x"
  constructor
  · obtain ⟨hcode, hstdout, hstderr⟩ :=
      (hshows readArguments ["-e", "True"] ⟨false, rfl⟩ (fun _ => .error "") []).success _ htrue
    rw [((hline _).1 htrue).1] at hstdout
    exact ⟨hcode, hstdout, hstderr _⟩
  · obtain ⟨hcode, hstdout, hstderr⟩ :=
      (hshows' readArguments ["-e", "x"] ⟨false, rfl⟩ (fun _ => .error "") []).failure _ hx
    refine ⟨hcode, hstdout, (hstderr _).trans ?_⟩
    rw [(herror _).1 ⟨_, hx, rfl⟩]
    rfl

end SketchLisp

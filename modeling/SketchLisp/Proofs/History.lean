import SketchLisp.Proofs.WrittenForm
import SketchLisp.Session

/-!
What can happen to a session.

* `Session.Request`: one of the operations on a session, and `Session.handle` for what
  it makes of the session, whether or not it succeeds;
* `Session.after`: the session after some requests from the start on, with
  `Session.after_induction` for what every request keeps;
* `Session.exists_parse_of_handle`: a program that a session holds was read from a text;
* `Expr.atom?_of_parse`: the names that such a program mentions are words for
  themselves.
-/

namespace SketchLisp

namespace Session

/-- An operation on a session. -/
inductive Request where
  | load (text : String)
  | loadSource (source : Source)
  | run
  | drain
  | clearGraphics
  | clearProgram
  | resetEnvironment

/-- The session after one request. -/
def handle (s : Session) : Request → Session
  | .load text => (s.load text).2
  | .loadSource source => (s.loadSource source).2
  | .run => s.run.2
  | .drain => s.drain.2
  | .clearGraphics => s.clearGraphics
  | .clearProgram => s.clearProgram
  | .resetEnvironment => s.resetEnvironment

/-- The session after some requests from the start on. -/
def after (requests : List Request) : Session := requests.foldl handle fresh

/-- What holds at the start and is kept by every request holds after all of them. -/
lemma after_induction {I : Session → Prop} (hfresh : I fresh)
    (hhandle : ∀ s request, I s → I (s.handle request)) (requests : List Request) :
    I (after requests) :=
  List.foldlRecOn requests handle hfresh fun s hs request _ => hhandle s request hs

/-! ### Loading -/

lemma toOption_eq_some_iff {ε α : Type} {result : Except ε α} {a : α} :
    result.toOption = some a ↔ result = .ok a := by
  cases result <;> simp [Except.toOption]

lemma load_eq (s : Session) (text : String) :
    (s.load text).2 = { s with program := (Expr.parse text).toOption } := by
  rw [load]
  cases Expr.parse text <;> rfl

/-- The text that a source holds is loaded, and without one there is no program. -/
lemma loadSource_eq (s : Session) (source : Source) : (s.loadSource source).2
    = { s with program := source.text.toOption.bind fun text => (Expr.parse text).toOption } := by
  rw [loadSource]
  cases source.text with
  | error reason => rfl
  | ok text => exact s.load_eq text

/-- Running a program does not change which program it is. -/
lemma run_program (s : Session) : s.run.2.program = s.program := by
  rw [run]
  split <;> simp_all

/-- A program that is held after a request was held before or has just been read. -/
lemma exists_parse_of_handle {s : Session} {request : Request} {e : Expr}
    (h : (s.handle request).program = some e) :
    s.program = some e ∨ ∃ text, Expr.parse text = .ok e := by
  cases request with
  | load text =>
      rw [handle, load_eq] at h
      exact .inr ⟨text, toOption_eq_some_iff.1 h⟩
  | loadSource source =>
      rw [handle, loadSource_eq] at h
      obtain ⟨text, -, htext⟩ := Option.bind_eq_some_iff.1 h
      exact .inr ⟨text, toOption_eq_some_iff.1 htext⟩
  | run => exact .inl (s.run_program ▸ h)
  | clearProgram => cases h
  | drain | clearGraphics | resetEnvironment => exact .inl h

/-- Only running a program and forgetting all names change the environment. -/
lemma handle_environment (s : Session) (request : Request) :
    (s.handle request).environment = match request with
      | .run => s.run.2.environment
      | .resetEnvironment => .standard
      | _ => s.environment := by
  cases request with
  | load text => rw [handle, load_eq]
  | loadSource source => rw [handle, loadSource_eq]
  | run | drain | clearGraphics | clearProgram | resetEnvironment => rfl

end Session

/-- A name in a program that was read is a word that stands for that name. -/
lemma Expr.atom?_of_parse {text : String} {e : Expr} (h : parse text = .ok e) {name : String}
    (hname : e.Mentions name) : Word.atom? name = some (.symbol name) := by
  obtain ⟨n, hn, hhead⟩ := hname
  obtain ⟨w, hw⟩ := exists_spells h hn
  have hatom := hw.atom
  rw [hhead] at hatom
  rcases Word.atom?_cases hatom with ⟨hword, -⟩ | ⟨b, hb, -⟩ | ⟨x, hx, -⟩
  · obtain rfl := Atom.symbol.inj hword
    exact hatom
  · cases hb
  · cases hx

end SketchLisp

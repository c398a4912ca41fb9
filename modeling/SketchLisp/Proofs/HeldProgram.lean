import SketchLisp.Proofs.Causes
import SketchLisp.Proofs.Queue

/-!
The program that a session holds.

Three requests concern the program: two of them load one, and a load that fails drops the
program held so far. So the last of these requests decides what is held, and a program that
was held before a failed load is never run again. The other requests concern the environment
or the queue, and running a program concerns both.

* `Source.text_eq_ok_iff`: the sources that hold a text;
* `Session.Request.concernsProgram`, `Session.Loads`: the requests that set the program, and
  those that load a given one;
* `Session.handle_program_eq_some_iff`: what one such request leaves, with
  `Session.program_after_eq_some_iff` for many requests;
* `Session.OwnParts`: what each request does to its own part of a session;
* `session_program_decided_by_last_load`: both hold in every session.
-/

namespace SketchLisp

/-- A source holds a text if its bytes are the UTF-8 form of that text. -/
lemma Source.text_eq_ok_iff {source : Source} {text : String} :
    source.text = .ok text ↔ source = .bytes text.toUTF8 := by
  cases source with
  | failing reason => simp [Source.text]
  | bytes content =>
      rw [Source.text, String.fromUTF8?]
      constructor
      · intro h
        split_ifs at h with hvalid
        obtain rfl := Except.ok.inj h
        rfl
      · intro h
        obtain rfl := Source.bytes.inj h
        have hvalid : text.toUTF8.IsValidUTF8 := text.isValidUTF8
        rw [dif_pos hvalid]
        rfl

namespace Session

/-! ### Loading -/

/-- A source is loaded if it holds the text of a program. -/
lemma loadSource_eq_ok_iff {s : Session} {source : Source} {p : Expr} :
    (s.loadSource source).1 = .ok p
      ↔ ∃ text, source = .bytes text.toUTF8 ∧ Expr.parse text = .ok p := by
  simp only [← Source.text_eq_ok_iff, loadSource]
  cases source.text with
  | error reason => simp
  | ok text =>
      simp only [load]
      cases hparse : Expr.parse text <;> simp [Except.mapError, hparse]

/-- The program loaded is held, and none is if loading fails. -/
lemma load_program (s : Session) (text : String) :
    (s.load text).2.program = (s.load text).1.toOption := by
  rw [load]
  cases Expr.parse text <;> rfl

lemma loadSource_program (s : Session) (source : Source) :
    (s.loadSource source).2.program = (s.loadSource source).1.toOption := by
  simp only [loadSource]
  cases source.text with
  | error reason => rfl
  | ok text =>
      simp only [load]
      cases Expr.parse text <;> rfl

/-- Whether a request loads a program or drops it. -/
def Request.concernsProgram : Request → Bool
  | .load _ | .loadSource _ | .clearProgram => true
  | .run | .drain | .clearGraphics | .resetEnvironment => false

/-- Whether a request loads a given program. -/
def Loads (s : Session) (p : Expr) : Request → Prop
  | .load text => (s.load text).1 = .ok p
  | .loadSource source => (s.loadSource source).1 = .ok p
  | .run | .drain | .clearGraphics | .clearProgram | .resetEnvironment => False

/-! ### The program held -/

/-- After a request that concerns the program, a program is held only if it has just been
loaded. -/
lemma handle_program_eq_some_iff {s : Session} {request : Request} {p : Expr}
    (h : request.concernsProgram = true) :
    (s.handle request).program = some p ↔ s.Loads p request := by
  cases request with
  | load text => rw [handle, load_program, toOption_eq_some_iff, Loads]
  | loadSource source => rw [handle, loadSource_program, toOption_eq_some_iff, Loads]
  | clearProgram => simp [handle, clearProgram, Loads]
  | run | drain | clearGraphics | resetEnvironment => cases h

/-- Other requests leave the program alone. -/
lemma handle_program_of_not_concerns (s : Session) {request : Request}
    (h : request.concernsProgram = false) : (s.handle request).program = s.program := by
  cases request with
  | load | loadSource | clearProgram => cases h
  | run => exact s.run_program
  | drain | clearGraphics | resetEnvironment => rfl

lemma Loads.concernsProgram {s : Session} {p : Expr} {request : Request}
    (h : s.Loads p request) : request.concernsProgram = true := by
  cases request with
  | load | loadSource => rfl
  | run | drain | clearGraphics | clearProgram | resetEnvironment => exact h.elim

lemma after_concat (requests : List Request) (request : Request) :
    after (requests ++ [request]) = (after requests).handle request := by
  rw [after, List.foldl_append, List.foldl_cons, List.foldl_nil, after]

/-- Requests that do not concern the program leave it alone, however many they are. -/
lemma program_after_append {before later : List Request}
    (h : ∀ r ∈ later, r.concernsProgram = false) :
    (after (before ++ later)).program = (after before).program := by
  induction later using List.reverseRecOn with
  | nil => rw [List.append_nil]
  | append_singleton later r ih =>
      rw [← List.append_assoc, after_concat, handle_program_of_not_concerns _ (h r (by simp)),
        ih fun q hq => h q (by simp [hq])]

/-- **The last request that concerns the program decides** which program is held. -/
lemma program_after_eq_some_iff {requests : List Request} {p : Expr} :
    (after requests).program = some p ↔ ∃ before request later,
      requests = before ++ request :: later ∧ (after before).Loads p request
      ∧ ∀ r ∈ later, r.concernsProgram = false := by
  constructor
  · intro h
    induction requests using List.reverseRecOn with
    | nil => cases h
    | append_singleton requests r ih =>
        rw [after_concat] at h
        cases hr : r.concernsProgram with
        | true => exact ⟨requests, r, [], rfl, (handle_program_eq_some_iff hr).1 h, by simp⟩
        | false =>
            rw [handle_program_of_not_concerns _ hr] at h
            obtain ⟨before, request, later, rfl, hloads, hlater⟩ := ih h
            refine ⟨before, request, later ++ [r], by simp, hloads, fun q hq => ?_⟩
            rcases List.mem_append.1 hq with hq | hq
            · exact hlater q hq
            · rw [List.mem_singleton.1 hq, hr]
  · rintro ⟨before, request, later, rfl, hloads, hlater⟩
    rw [List.append_cons, program_after_append hlater, after_concat]
    exact (handle_program_eq_some_iff hloads.concernsProgram).2 hloads

/-! ### Parts of a session -/

/-- What each request does to its own part of a session, and that it does nothing else. -/
structure OwnParts (s : Session) : Prop where
  /-- A source is loaded if it can be read to its end, and its bytes are the UTF-8 form of a
  program. -/
  source : ∀ source p, (s.loadSource source).1 = .ok p
    ↔ ∃ text, source = .bytes text.toUTF8 ∧ Expr.parse text = .ok p
  /-- Otherwise the program held so far is dropped. -/
  dropped : ∀ source, (∀ p, (s.loadSource source).1 ≠ .ok p) →
    (s.loadSource source).2.program = none
  /-- Only a program that is not there cannot be run at all. -/
  noProgram : s.run.1.result = .error .noProgram ↔ s.program = none
  /-- Then nothing is done. -/
  idle : s.program = none → s.run.1.effects = [] ∧ s.run.2 = s
  /-- The environment changes when a program runs and when all names are forgotten. -/
  environment : ∀ request, request ≠ .run → request ≠ .resetEnvironment →
    (s.handle request).environment = s.environment
  /-- The queue changes when a program runs and when it is drained or cleared. -/
  graphics : ∀ request, request ≠ .run → request ≠ .drain → request ≠ .clearGraphics →
    (s.handle request).graphics = s.graphics
  /-- The program changes when one is loaded, or fails to be, and when it is dropped. -/
  program : ∀ request, request.concernsProgram = false →
    (s.handle request).program = s.program

/-- A program that runs does not fail for want of a program. -/
lemma run_ne_noProgram {s : Session} (hclosed : s.environment.ValueClosed) {e : Expr}
    (he : s.program = some e) : s.run.1.result ≠ .error .noProgram := by
  intro h
  rw [run_of_program he] at h
  obtain ⟨n, hn, G, hG, hraises⟩ := e.exists_raises hclosed ⟨h, rfl⟩
  exact hraises.explained hn hG

lemma ownParts_after (requests : List Request) : (after requests).OwnParts where
  source _ _ := loadSource_eq_ok_iff
  dropped source h := by
    rw [loadSource_program, Option.eq_none_iff_forall_ne_some]
    exact fun p hp => h p (toOption_eq_some_iff.1 hp)
  noProgram := by
    refine ⟨fun h => ?_, fun h => by rw [run, h]⟩
    cases he : (after requests).program with
    | none => rfl
    | some e => exact absurd h (run_ne_noProgram (valueClosed_after requests) he)
  idle h := by
    rw [run, h]
    exact ⟨rfl, rfl⟩
  environment request hrun hreset := by
    rw [handle_environment]
    split
    · exact absurd rfl hrun
    · exact absurd rfl hreset
    · rfl
  graphics request hrun hdrain hclear := by
    rw [handle_graphics]
    cases request with
    | run => exact absurd rfl hrun
    | drain => exact absurd rfl hdrain
    | clearGraphics => exact absurd rfl hclear
    | load | loadSource | clearProgram | resetEnvironment => exact List.append_nil _
  program _ h := handle_program_of_not_concerns _ h

end Session

open Session in
/-- **The last load decides which program a session holds**: whatever a session has been asked
for, it holds a program exactly if that was loaded and no request since then has loaded
another, failed to load one, or dropped it. Each request changes only its own part of the
session. -/
theorem session_program_decided_by_last_load (requests : List Request) :
    (∀ p, (after requests).program = some p ↔ ∃ before request later,
      requests = before ++ request :: later ∧ (after before).Loads p request
      ∧ ∀ r ∈ later, r.concernsProgram = false)
    ∧ (after requests).OwnParts :=
  ⟨fun _ => program_after_eq_some_iff, ownParts_after requests⟩

/-- A source that fails takes the program loaded before it along. -/
example : (Session.after [.load "x", .run, .loadSource (.failing "device failed")]).run.1.result
    = .error .noProgram := rfl

end SketchLisp

import Mathlib.Data.List.DropRight
import SketchLisp.Proofs.History

/-!
The queue of a session.

A program that runs adds atoms to the queue, also if it fails, and draining or clearing
empties it; nothing else touches it. So at every moment it holds what has been added since
it was last emptied, and what is drained is never lost, repeated or put in another order.

* `Session.contribution`: what a request adds, and `Session.handedOut` for the figures
  that it gives out;
* `Session.collect`: all of one or the other over some requests;
* `Session.handle_graphics`, `Session.figures_handle`: what one request does to the queue
  and to the figures in it, with `Session.graphics_foldl` and `Session.figures_foldl` for
  many of them;
* `session_queue_accounts`: where all atoms and figures of a session are.
-/

namespace SketchLisp

/-- The points, lines and arcs among atoms. -/
def figures (atoms : List Atom) : List Atom :=
  atoms.filter fun a => a.kind = .point ∨ a.kind = .line ∨ a.kind = .arc

lemma figures_append (as bs : List Atom) : figures (as ++ bs) = figures as ++ figures bs :=
  List.filter_append ..

lemma filter_isGraphic (atoms : List Atom) : atoms.filter Atom.isGraphic = figures atoms := by
  refine List.filter_congr fun a _ => ?_
  cases a <;> rfl

namespace Session

/-- Whether a request empties the queue. -/
def Request.empties : Request → Bool
  | .drain | .clearGraphics => true
  | .load _ | .loadSource _ | .run | .clearProgram | .resetEnvironment => false

/-- The atoms that a request adds to the queue: those that a program queues while it
runs. -/
def contribution (s : Session) : Request → List Atom
  | .run => s.run.1.effects.filterMap Effect.queued?
  | _ => []

/-- The figures that a request gives out. -/
def handedOut (s : Session) : Request → List Atom
  | .drain => s.drain.1
  | _ => []

/-- What each of some requests gives, one after another. -/
def collect (f : Session → Request → List Atom) : Session → List Request → List Atom
  | _, [] => []
  | s, request :: rest => f s request ++ collect f (s.handle request) rest

/-- What has been added to the queue since it was last emptied. -/
def addedSinceEmptied (requests : List Request) : List Atom :=
  collect contribution (after (requests.rdropWhile fun request => !request.empties))
    (requests.rtakeWhile fun request => !request.empties)

/-! ### Single requests -/

/-- A program only appends to the queue. -/
lemma run_graphics (s : Session) : s.run.2.graphics = s.graphics ++ s.contribution .run := by
  rw [contribution]
  cases hs : s.program with
  | none =>
      rw [run, hs]
      exact (List.append_nil _).symm
  | some e =>
      rw [run_of_program hs]
      rfl

/-- What one request does to the queue. -/
lemma handle_graphics (s : Session) (request : Request) :
    (s.handle request).graphics
      = if request.empties then [] else s.graphics ++ s.contribution request := by
  cases request with
  | load text => simp [handle, load_eq, Request.empties, contribution]
  | loadSource source => simp [handle, loadSource_eq, Request.empties, contribution]
  | run => exact s.run_graphics
  | drain | clearGraphics => rfl
  | clearProgram | resetEnvironment => exact (List.append_nil _).symm

/-- Figures that were queued, or are queued now, are given out or stay queued, unless the
queue is cleared. -/
lemma figures_handle (s : Session) {request : Request} (h : request ≠ .clearGraphics) :
    figures (s.graphics ++ s.contribution request)
      = s.handedOut request ++ figures (s.handle request).graphics := by
  rw [handle_graphics]
  cases request with
  | clearGraphics => exact absurd rfl h
  | drain =>
      simp only [Request.empties, if_true, contribution, handedOut, drain, List.append_nil]
      rw [filter_isGraphic]
      exact (List.append_nil _).symm
  | load | loadSource | run | clearProgram | resetEnvironment => rfl

/-! ### Many requests -/

/-- Requests that do not empty the queue add to it one after another. -/
lemma graphics_foldl {requests : List Request} (h : ∀ request ∈ requests, ¬ request.empties)
    (s : Session) :
    (requests.foldl handle s).graphics = s.graphics ++ s.collect contribution requests := by
  induction requests generalizing s with
  | nil => exact (List.append_nil _).symm
  | cons request rest ih =>
      rw [List.foldl_cons, ih fun r hr => h r (by simp [hr]), handle_graphics,
        if_neg (h request (by simp)), collect, List.append_assoc]

/-- Unless the queue is cleared, all figures are given out in order, and the last of them
are still queued. -/
lemma figures_foldl {requests : List Request} (h : Request.clearGraphics ∉ requests)
    (s : Session) : figures (s.graphics ++ s.collect contribution requests)
      = s.collect handedOut requests ++ figures (requests.foldl handle s).graphics := by
  induction requests generalizing s with
  | nil => simp [collect]
  | cons request rest ih =>
      rw [List.mem_cons, not_or] at h
      calc figures (s.graphics ++ s.collect contribution (request :: rest))
          = figures (s.graphics ++ s.contribution request)
              ++ figures ((s.handle request).collect contribution rest) := by
            rw [collect, ← List.append_assoc, figures_append]
        _ = s.handedOut request ++ figures ((s.handle request).graphics
              ++ (s.handle request).collect contribution rest) := by
            rw [s.figures_handle (Ne.symm h.1), figures_append, List.append_assoc]
        _ = s.collect handedOut (request :: rest)
              ++ figures ((request :: rest).foldl handle s).graphics := by
            rw [ih h.2, collect, List.foldl_cons, List.append_assoc]

/-- The queue is empty at the start and right after it was emptied. -/
lemma graphics_after_rdropWhile (requests : List Request) :
    (after (requests.rdropWhile fun request => !request.empties)).graphics = [] := by
  rcases List.eq_nil_or_concat' (requests.rdropWhile fun request => !request.empties) with
    hnil | ⟨before, last, hlast⟩
  · rw [hnil]
    rfl
  · have hempties := List.rdropWhile_last_not (fun request : Request => !request.empties) requests
      (by simp [hlast])
    simp only [hlast, List.getLast_append_singleton] at hempties
    rw [hlast, after, List.foldl_append, List.foldl_cons, List.foldl_nil, handle_graphics,
      if_pos (by simpa using hempties)]

lemma after_graphics (requests : List Request) :
    (after requests).graphics = addedSinceEmptied requests := by
  have hsplit : after requests
      = (requests.rtakeWhile fun request => !request.empties).foldl handle
          (after (requests.rdropWhile fun request => !request.empties)) := by
    rw [after, after, ← List.foldl_append, List.rdropWhile_append_rtakeWhile]
  rw [hsplit, graphics_foldl, graphics_after_rdropWhile, List.nil_append, addedSinceEmptied]
  intro request hrequest
  simpa using List.mem_rtakeWhile_imp hrequest

end Session

open Session in
/-- **No drawing is lost, repeated or moved**: whatever a session is asked for, its queue
holds what programs have added since it was last emptied, in this order; draining gives
the figures among it; and unless the queue is cleared, all figures that were drained, and
then those that are still queued, are the figures that programs have added. -/
theorem session_queue_accounts (requests : List Request) :
    (after requests).run.2.graphics
      = (after requests).graphics ++ (after requests).contribution .run
    ∧ (after requests).graphics = addedSinceEmptied requests
    ∧ (after requests).drain.1 = figures (addedSinceEmptied requests)
    ∧ (Request.clearGraphics ∉ requests →
        fresh.collect handedOut requests ++ figures (after requests).graphics
          = figures (fresh.collect contribution requests)) := by
  refine ⟨run_graphics _, after_graphics requests, ?_, fun hclear => ?_⟩
  · rw [← after_graphics, ← filter_isGraphic, drain]
  · exact (figures_foldl hclear fresh).symm

open Session in
/-- `(draw (point 1 1) True x)` adds a point and a boolean before it fails. Of three runs,
the first two before a drain, two points are drained and one is still queued. -/
theorem session_queue_accounts_three_runs : ∃ (requests : List Request) (p : Atom),
    Request.clearGraphics ∉ requests
    ∧ (after requests).run.1.result = .error (.unboundName "x")
    ∧ (after requests).graphics = [p, .boolean true]
    ∧ fresh.collect handedOut requests = [p, p]
    ∧ [p, p] ++ figures [p, .boolean true] = figures (fresh.collect contribution requests) := by
  let e : Expr := .node (.symbol "draw")
    [.node (.symbol "point") [.leaf (.number 1), .leaf (.number 1)], .leaf (.boolean true),
      .leaf (.symbol "x")]
  have hparse : Expr.parse "(draw (point 1 1) True x)" = .ok e := Expr.parse_of_advance rfl
  have hload : (fresh.load "(draw (point 1 1) True x)").2 = ⟨.standard, some e, []⟩ := by
    rw [load, hparse]
    rfl
  let p : Atom := .point ⟨1, 1⟩
  have heval : e.eval.run .standard
      = ⟨.error (.unboundName "x"), .standard, [.queued p, .queued (.boolean true)]⟩ := rfl
  have hrun (q : List Atom) : Session.run ⟨.standard, some e, q⟩
      = (⟨.error (.unboundName "x"), [.queued p, .queued (.boolean true)]⟩,
          ⟨.standard, some e, q ++ [p, .boolean true]⟩) := by
    simp [run_of_program, heval, Outcome.queued, Effect.queued?]
  let requests : List Request := [.load "(draw (point 1 1) True x)", .run, .run, .drain, .run]
  have hclear : Request.clearGraphics ∉ requests := by simp [requests]
  have hafter : after requests = ⟨.standard, some e, [p, .boolean true]⟩ := by
    simp [after, requests, hload, handle, hrun, drain]
  have hout : fresh.collect handedOut requests = [p, p] := by
    simp only [collect, requests, hload, handle, handedOut, hrun, drain, List.nil_append,
      List.append_nil]
    rfl
  have hall := (session_queue_accounts requests).2.2.2 hclear
  rw [hout, hafter] at hall
  exact ⟨requests, p, hclear, by rw [hafter, hrun], by rw [hafter], hout, hall⟩

end SketchLisp

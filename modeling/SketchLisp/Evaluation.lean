import SketchLisp.Environment

/-!
Evaluations: computations that read an environment, add names to it, add atoms to
a queue for drawing, and may fail. What was done before a failure stays done.

A computation is handed the environment and the queue, and hands both on. It does
not look at the queue: it only adds the atoms that it tells of in its effects. Each
computation carries the proof of this, so that its outcome does not depend on the
queue.

* `Effect`: what an evaluation does besides giving a value;
* `Outcome`: how an evaluation ends, with the environment it leaves and its
  effects in order;
* `Evaluation`: a computation with an outcome and a queue afterwards for each
  environment and queue, a lawful monad;
* `Evaluation.run`: the outcome in an environment.
-/

namespace SketchLisp

/-- Something that an evaluation does to its surroundings. -/
inductive Effect where
  /-- A name was bound. -/
  | bound (name : String) (value : Expr)
  /-- An atom was queued for drawing. -/
  | queued (atom : Atom)

/-- The atom that an effect queues. -/
def Effect.queued? : Effect → Option Atom
  | queued a => some a
  | bound _ _ => none

/-- How an evaluation ends. -/
structure Outcome (α : Type) where
  result : Except EvalError α
  environment : Environment
  effects : List Effect

/-- The atoms queued on the way to an outcome, in order. -/
def Outcome.queued {α : Type} (o : Outcome α) : List Atom := o.effects.filterMap Effect.queued?

/-- A computation with an outcome, and a queue afterwards, for each environment
and queue. -/
structure Evaluation (α : Type) where
  runFrom : Environment → List Atom → Outcome α × List Atom
  /-- The queue is only added to, and makes no difference otherwise. -/
  appends : ∀ env queue,
    runFrom env queue = ((runFrom env []).1, queue ++ (runFrom env []).1.queued)

namespace Evaluation

variable {α β : Type}

/-- The outcome in a given environment. -/
def run (x : Evaluation α) (env : Environment) : Outcome α := (x.runFrom env []).1

/-- The queue afterwards is the queue before with the atoms that were queued. -/
theorem runFrom_eq (x : Evaluation α) (env : Environment) (queue : List Atom) :
    x.runFrom env queue = (x.run env, queue ++ (x.run env).queued) := x.appends env queue

@[ext] theorem ext {x y : Evaluation α} (h : ∀ env, x.run env = y.run env) : x = y := by
  have hfrom : x.runFrom = y.runFrom := by
    funext env queue
    rw [runFrom_eq, runFrom_eq, h]
  cases x
  cases y
  cases hfrom
  rfl

/-- Goes on after an outcome: a failure stays, a value is handed on together
with the environment, and effects add up. -/
def andThen (o : Outcome α) (f : α → Evaluation β) : Outcome β :=
  match o.result with
  | .error e => ⟨.error e, o.environment, o.effects⟩
  | .ok a =>
    let next := (f a).run o.environment
    ⟨next.result, next.environment, o.effects ++ next.effects⟩

/-- Goes on after an outcome, with the queue that it left. -/
def continueWith (f : α → Evaluation β) : Outcome α × List Atom → Outcome β × List Atom
  | (⟨.error e, env, effects⟩, queue) => (⟨.error e, env, effects⟩, queue)
  | (⟨.ok a, env, effects⟩, queue) =>
    let (next, queue) := (f a).runFrom env queue
    (⟨next.result, next.environment, effects ++ next.effects⟩, queue)

/-- The queue makes no difference to what comes next. -/
theorem continueWith_eq (f : α → Evaluation β) (o : Outcome α) (queue : List Atom) :
    continueWith f (o, queue ++ o.queued)
      = (andThen o f, queue ++ (andThen o f).queued) := by
  obtain ⟨result, env, effects⟩ := o
  cases result with
  | error e => rfl
  | ok a => simp [continueWith, andThen, runFrom_eq, Outcome.queued]

instance : Monad Evaluation where
  pure a := ⟨fun env queue => (⟨.ok a, env, []⟩, queue), by simp [Outcome.queued]⟩
  bind x f := ⟨fun env queue => continueWith f (x.runFrom env queue), fun env queue => by
    rw [x.runFrom_eq env queue, x.runFrom_eq env [], continueWith_eq, continueWith_eq]⟩

@[simp] theorem run_pure (a : α) (env : Environment) :
    (pure a : Evaluation α).run env = ⟨.ok a, env, []⟩ := rfl

@[simp] theorem run_bind (x : Evaluation α) (f : α → Evaluation β) (env : Environment) :
    (x >>= f).run env = andThen (x.run env) f := by
  change (continueWith f (x.runFrom env [])).1 = _
  rw [x.runFrom_eq env [], continueWith_eq]

@[simp] theorem andThen_pure (o : Outcome α) : andThen o pure = o := by
  obtain ⟨result, env, effects⟩ := o
  cases result <;> simp [andThen]

theorem andThen_andThen {γ : Type} (o : Outcome α) (f : α → Evaluation β)
    (g : β → Evaluation γ) :
    andThen (andThen o f) g = andThen o fun a => f a >>= g := by
  obtain ⟨result, env, effects⟩ := o
  cases result with
  | error e => rfl
  | ok a =>
    simp only [andThen, run_bind]
    split <;> simp

instance : LawfulMonad Evaluation := LawfulMonad.mk'
  Evaluation
  (fun x => ext fun env => (run_bind x _ env).trans (andThen_pure (x.run env)))
  (fun a f => ext fun env => by simp [andThen])
  (fun x f g => ext fun env => by simp only [run_bind, andThen_andThen])

/-! ### Single steps -/

/-- A computation that needs neither the environment nor the queue. -/
def ofExcept (result : Except EvalError α) : Evaluation α :=
  ⟨fun env queue => (⟨result, env, []⟩, queue), by simp [Outcome.queued]⟩

/-- Fails at once. -/
def fail (e : EvalError) : Evaluation α := ofExcept (.error e)

/-- What a name stands for. -/
def meaning? (name : String) : Evaluation (Option Meaning) :=
  ⟨fun env queue => (⟨.ok (env.meaning? name), env, []⟩, queue), by simp [Outcome.queued]⟩

/-- The procedure of a name. -/
def procedure (name : String) : Evaluation Procedure :=
  ⟨fun env queue => (⟨env.procedure name, env, []⟩, queue), by simp [Outcome.queued]⟩

/-- Binds a name that stands for nothing yet. -/
def define (name : String) (value : Expr) : Evaluation Unit where
  runFrom env queue :=
    match env.define name value with
    | .ok env => (⟨.ok (), env, [.bound name value]⟩, queue)
    | .error e => (⟨.error e, env, []⟩, queue)
  appends env queue := by split <;> simp [Outcome.queued, Effect.queued?]

/-- Queues an atom for drawing. -/
def queue (a : Atom) : Evaluation Unit :=
  ⟨fun env queue => (⟨.ok (), env, [.queued a]⟩, queue ++ [a]),
    by simp [Outcome.queued, Effect.queued?]⟩

@[simp] theorem run_fail (e : EvalError) (env : Environment) :
    (fail e : Evaluation α).run env = ⟨.error e, env, []⟩ := rfl

@[simp] theorem run_meaning? (name : String) (env : Environment) :
    (meaning? name).run env = ⟨.ok (env.meaning? name), env, []⟩ := rfl

@[simp] theorem run_procedure (name : String) (env : Environment) :
    (procedure name).run env = ⟨env.procedure name, env, []⟩ := rfl

@[simp] theorem run_queue (a : Atom) (env : Environment) :
    (queue a).run env = ⟨.ok (), env, [.queued a]⟩ := rfl

/-! ### Sequences -/

/-- Runs computations one after another and collects their values. -/
def each : List (Evaluation α) → Evaluation (List α)
  | [] => pure []
  | x :: xs => do
    let a ← x
    let rest ← each xs
    pure (a :: rest)

/-- Runs computations one after another and keeps the last value. -/
def last (x : Evaluation α) : List (Evaluation α) → Evaluation α
  | [] => x
  | y :: ys => do
    let _ ← x
    last y ys

end Evaluation

end SketchLisp

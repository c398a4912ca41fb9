import SketchLisp.Proofs.Transport

/-!
Computations one after another.

All sequences of computations are `each`, with something done to the values afterwards.
A sequence that fails has a first computation that fails, from the environment that those
before it have left.

* `Evaluation.Gives`, `Evaluation.FailsWith`: how a run ends, and in which environment;
* `Evaluation.FailsWith.bind`: a failure in one of two parts;
* `Evaluation.each_append`: a sequence in two parts;
* `Evaluation.last_eq_each`, `Evaluation.drawEach_eq_each`: the other sequences;
* `Evaluation.FailsWith.each`: the first failure of a sequence.
-/

namespace SketchLisp.Evaluation

variable {α β : Type} {E F : Environment} {r : EvalError}

/-- Running a computation from `E` gives a value and leaves `F`. -/
structure Gives (x : Evaluation α) (E : Environment) (a : α) (F : Environment) : Prop where
  result : (x.run E).result = .ok a
  environment : (x.run E).environment = F

/-- Running a computation from `E` fails with an error and leaves `F`. -/
structure FailsWith (x : Evaluation α) (E : Environment) (r : EvalError) (F : Environment) :
    Prop where
  result : (x.run E).result = .error r
  environment : (x.run E).environment = F

/-! ### Two parts -/

lemma gives_pure {a b : α} : (pure a : Evaluation α).Gives E b F ↔ a = b ∧ E = F :=
  ⟨fun h => ⟨Except.ok.inj h.result, h.environment⟩, fun h => ⟨by rw [← h.1]; rfl, h.2⟩⟩

lemma Gives.bind {x : Evaluation α} {f : α → Evaluation β} {a : α} {b : β} {G : Environment}
    (hx : x.Gives E a F) (hf : (f a).Gives F b G) : (x >>= f).Gives E b G := by
  obtain ⟨hresult, rfl⟩ := hx
  constructor <;> rw [run_bind, andThen_of_ok hresult]
  · exact hf.result
  · exact hf.environment

/-- A computation that succeeds has two parts that do. -/
lemma Gives.exists_of_bind {x : Evaluation α} {f : α → Evaluation β} {b : β}
    (h : (x >>= f).Gives E b F) : ∃ a G, x.Gives E a G ∧ (f a).Gives G b F := by
  obtain ⟨hresult, henvironment⟩ := h
  obtain ⟨a, ha, hb⟩ := exists_of_run_bind_eq_ok hresult
  refine ⟨a, _, ⟨ha, rfl⟩, hb, ?_⟩
  rw [← henvironment, run_bind, andThen_of_ok ha]

lemma not_failsWith_pure {a : α} : ¬ (pure a : Evaluation α).FailsWith E r F := by
  rintro ⟨h, -⟩
  cases h

lemma failsWith_fail {e : EvalError} :
    (fail e : Evaluation α).FailsWith E r F ↔ e = r ∧ E = F :=
  ⟨fun h => ⟨Except.error.inj h.result, h.environment⟩, fun h => ⟨by rw [← h.1]; rfl, h.2⟩⟩

/-- A computation that fails does so in its first part, or in its second part after the
first has succeeded. -/
lemma FailsWith.bind {x : Evaluation α} {f : α → Evaluation β} (h : (x >>= f).FailsWith E r F) :
    x.FailsWith E r F ∨ ∃ a G, x.Gives E a G ∧ (f a).FailsWith G r F := by
  obtain ⟨hresult, henvironment⟩ := h
  rw [run_bind] at hresult henvironment
  cases hx : (x.run E).result with
  | error e =>
      rw [andThen_of_error hx] at hresult henvironment
      obtain rfl := Except.error.inj hresult
      exact .inl ⟨hx, henvironment⟩
  | ok a =>
      rw [andThen_of_ok hx] at hresult henvironment
      exact .inr ⟨a, _, ⟨hx, rfl⟩, hresult, henvironment⟩

/-- What is done to a value afterwards does not fail by itself. -/
lemma FailsWith.of_bind_pure {x : Evaluation α} {g : α → β}
    (h : (x >>= fun a => pure (g a)).FailsWith E r F) : x.FailsWith E r F := by
  rcases h.bind with hx | ⟨a, G, -, hpure⟩
  · exact hx
  · exact absurd hpure not_failsWith_pure

/-- A lookup does not fail, but what is done with the meaning may. -/
lemma FailsWith.lookup {name : String} {f : Option Meaning → Evaluation β}
    (h : (meaning? name >>= f).FailsWith E r F) : (f (E.meaning? name)).FailsWith E r F := by
  obtain ⟨hresult, henvironment⟩ := h
  rw [run_meaning?_bind] at hresult henvironment
  exact ⟨hresult, henvironment⟩

/-- Binding a name fails if it stands for something already. -/
lemma FailsWith.define {name : String} {v : Expr}
    (h : (Evaluation.define name v).FailsWith E r F) :
    r = .redefinition name ∧ (F.meaning? name).isSome := by
  obtain ⟨hresult, henvironment⟩ := h
  cases hfree : E.meaning? name with
  | none =>
      rw [run_define_of_none hfree] at hresult
      cases hresult
  | some m =>
      rw [run_define_of_isSome (by simp [hfree])] at hresult henvironment
      obtain rfl := henvironment
      exact ⟨(Except.error.inj hresult).symm, by simp [hfree]⟩

/-! ### Sequences -/

lemma each_cons (x : Evaluation α) (xs : List (Evaluation α)) :
    each (x :: xs) = x >>= fun a => each xs >>= fun rest => pure (a :: rest) := rfl

/-- A sequence can be cut in two. -/
lemma each_append (xs ys : List (Evaluation α)) :
    each (xs ++ ys) = each xs >>= fun as => each ys >>= fun bs => pure (as ++ bs) := by
  induction xs with
  | nil => simp [each]
  | cons x xs ih => simp [each_cons, ih]

/-- What is done to each value at once can be done to all of them at the end. -/
lemma each_map_bind_pure {ι : Type} (x : ι → Evaluation α) (g : α → β) (is : List ι) :
    each (is.map fun i => x i >>= fun a => pure (g a))
      = each (is.map x) >>= fun as => pure (as.map g) := by
  induction is with
  | nil => simp [each]
  | cons i is ih => simp only [List.map_cons, each_cons, ih, bind_assoc, pure_bind]

/-- A sequence gives one value for each computation. -/
lemma Gives.length_each {xs : List (Evaluation α)} {vs : List α} (h : (each xs).Gives E vs F) :
    vs.length = xs.length := by
  induction xs generalizing E vs with
  | nil =>
      obtain ⟨rfl, -⟩ := gives_pure.1 h
      rfl
  | cons x xs ih =>
      obtain ⟨a, G, -, hrest⟩ := Gives.exists_of_bind h
      obtain ⟨rest, H, hxs, hpure⟩ := hrest.exists_of_bind
      obtain ⟨rfl, rfl⟩ := gives_pure.1 hpure
      rw [List.length_cons, List.length_cons, ih hxs]

/-- Keeping the last value: a value that is there already is given if no other
follows. -/
lemma last_eq_each (d : α) (x : Evaluation α) (xs : List (Evaluation α)) :
    last x xs = each (x :: xs) >>= fun vs => pure (vs.getLastD d) := by
  induction xs generalizing x d with
  | nil => simp [last, each]
  | cons y ys ih =>
      rw [last, each_cons, bind_assoc]
      refine bind_congr fun a => ?_
      rw [ih a y, bind_assoc]
      refine bind_congr fun vs => ?_
      rw [pure_bind, List.getLastD_cons]

/-- Drawing is evaluating and queueing, one operand after another. -/
lemma drawEach_eq_each (xs : List (Evaluation Expr)) :
    drawEach xs = each (xs.map fun x => x >>= fun v => queue v.head) >>= fun _ => pure () := by
  induction xs with
  | nil => simp [drawEach, each]
  | cons x xs ih => simp [drawEach, each_cons, ih]

/-- **The first failure of a sequence**: all computations before it have succeeded, and it
fails from the environment that they have left. -/
lemma FailsWith.each {xs : List (Evaluation α)} (h : (each xs).FailsWith E r F) :
    ∃ before x after vs G, xs = before ++ x :: after
      ∧ (Evaluation.each before).Gives E vs G ∧ x.FailsWith G r F := by
  induction xs generalizing E with
  | nil => exact absurd h not_failsWith_pure
  | cons x xs ih =>
      rcases FailsWith.bind h with hx | ⟨a, G, ha, hrest⟩
      · exact ⟨[], x, xs, [], E, rfl, gives_pure.2 ⟨rfl, rfl⟩, hx⟩
      · obtain ⟨before, y, after, vs, H, rfl, hvs, hy⟩ := ih hrest.of_bind_pure
        refine ⟨x :: before, y, after, a :: vs, H, rfl, ?_, hy⟩
        exact ha.bind (hvs.bind (gives_pure.2 ⟨rfl, rfl⟩))

end SketchLisp.Evaluation

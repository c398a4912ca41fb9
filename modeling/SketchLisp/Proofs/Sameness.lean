import SketchLisp.Proofs.Arithmetic
import SketchLisp.Proofs.Footprint
import SketchLisp.Proofs.Nodes
import SketchLisp.Proofs.Signature
import SketchLisp.Proofs.StandardNames

/-!
What counts as the same.

Atoms are compared as numbers, up to a tolerance or exactly; expressions by their shape and
their heads; environments by what their names stand for. All of this is symmetric, but not
everything counts as the same as itself.

* `Atom.Regular`: the atoms that count as the same as themselves;
* `Expr.beq_comm`, `Expr.beq_self_iff`: the same of expressions, node by node;
* `Environment.beq_comm`, `Environment.beq_self_iff`: the same of environments, name by name;
* `Environment.exists_defineAll`: what names stand for after definitions;
* `sameness_laws`: all of this, and that the order of definitions does not matter.
-/

namespace SketchLisp

/-! ### Atoms -/

lemma Point.beq_eq (p q : Point) : (p == q) = (p.x == q.x && p.y == q.y) := rfl

lemma Line.beq_eq (k l : Line) : (k == l) = (k.first == l.first && k.second == l.second) := rfl

lemma Arc.beq_eq (a b : Arc) :
    (a == b) = (a.center == b.center && (a.start == b.start && a.span == b.span)) := rfl

lemma Point.beq_comm (p q : Point) : (p == q) = (q == p) := by
  rw [beq_eq, beq_eq, BEq.comm (a := p.x), BEq.comm (a := p.y)]

namespace Atom

/-- Sameness does not depend on the order. -/
lemma beq_comm (a b : Atom) : (a == b) = (b == a) := by
  change a.same b = b.same a
  cases a with
  | nothing => cases b <;> rfl
  | boolean v =>
      cases b with
      | boolean w => exact BEq.comm
      | _ => rfl
  | number x =>
      cases b with
      | number y => simp only [same, Binary64.abs_sub_comm x y]
      | _ => rfl
  | symbol n =>
      cases b with
      | symbol m => exact BEq.comm
      | _ => rfl
  | point p =>
      cases b with
      | point q => exact p.beq_comm q
      | _ => rfl
  | line k =>
      cases b with
      | line l => simp only [same, Line.beq_eq, k.first.beq_comm, k.second.beq_comm]
      | _ => rfl
  | arc c =>
      cases b with
      | arc d =>
          simp only [same, Arc.beq_eq, c.center.beq_comm, c.start.beq_comm,
            BEq.comm (a := c.span)]
      | _ => rfl

/-- The coordinates of a figure, and the span of an arc. -/
def coordinates : Atom → List Float
  | .point p => [p.x, p.y]
  | .line l => [l.first.x, l.first.y, l.second.x, l.second.y]
  | .arc a => [a.center.x, a.center.y, a.start.x, a.start.y, a.span]
  | .nothing | .boolean _ | .number _ | .symbol _ => []

/-- Whether an atom is neither an infinite number nor not a number, nor has coordinates that
are not numbers. -/
structure Regular (a : Atom) : Prop where
  number : ∀ x, a = .number x → x.isNaN = false ∧ x.isInf = false
  coordinates : ∀ x ∈ a.coordinates, x.isNaN = false

/-- A finite number is closer to itself than the tolerance. The distance of another one to
itself is not a number. -/
lemma number_beq_self_iff (x : Float) :
    (Atom.number x == .number x) = true ↔ x.isFinite = true := by
  change decide ((x - x).abs < tolerance) = true ↔ _
  cases h : x.isFinite with
  | true =>
      rw [Binary64.sub_self_of_isFinite h]
      decide
  | false =>
      rw [Binary64.sub_self_of_not_isFinite h]
      decide

lemma regular_number_iff {x : Float} : (Atom.number x).Regular ↔ x.isFinite = true := by
  rw [Binary64.isFinite_iff_not]
  refine ⟨fun h => h.number x rfl, fun h => ⟨?_, by simp [Atom.coordinates]⟩⟩
  intro y hy
  rwa [← Atom.number.inj hy]

/-- Atoms other than numbers are compared exactly. -/
lemma beq_self_eq_all {a : Atom} (h : a.kind ≠ .number) :
    (a == a) = a.coordinates.all fun x => x == x := by
  change a.same a = _
  cases a with
  | number x => exact absurd rfl h
  | nothing => rfl
  | boolean v => exact beq_self_eq_true v
  | symbol n => exact beq_self_eq_true n
  | point p => simp [same, coordinates, Point.beq_eq]
  | line l => simp [same, coordinates, Line.beq_eq, Point.beq_eq, Bool.and_assoc]
  | arc c => simp [same, coordinates, Arc.beq_eq, Point.beq_eq, Bool.and_assoc]

/-- **The regular atoms are those that count as the same as themselves.** -/
lemma beq_self_iff {a : Atom} : (a == a) = true ↔ a.Regular := by
  by_cases h : a.kind = .number
  · obtain ⟨x, rfl⟩ : ∃ x, a = .number x := Content.lawful_number.kind_eq_iff.1 h
    rw [number_beq_self_iff, regular_number_iff]
  · have hnumber : ∀ x, a = .number x → x.isNaN = false ∧ x.isInf = false := by
      rintro x rfl
      exact absurd rfl h
    rw [beq_self_eq_all h, List.all_eq_true]
    simp only [Float.beq_self_iff, ne_eq]
    constructor
    · intro hx
      exact ⟨hnumber, by simpa using hx⟩
    · intro ha
      simpa using ha.coordinates

end Atom

/-! ### Expressions -/

namespace Expr

lemma beq_node (a b : Atom) (es fs : List Expr) :
    (node a es == node b fs) = (a == b && sameEach es fs) := by
  change same _ _ = _
  rw [same]

/-- Sameness does not depend on the order. -/
lemma beq_comm (e f : Expr) : (e == f) = (f == e) := by
  induction e using Expr.ind generalizing f with
  | step a es ih =>
      obtain ⟨b, fs⟩ := f
      have heach : sameEach es fs = sameEach fs es := by
        clear a b
        induction es generalizing fs with
        | nil => cases fs <;> rfl
        | cons e es ihs =>
            cases fs with
            | nil => rfl
            | cons f fs =>
                rw [sameEach, sameEach, ihs (fun e he => ih e (by simp [he])) fs]
                congr 1
                exact ih e (by simp) f
      rw [beq_node, beq_node, Atom.beq_comm, heach]

lemma sameEach_self_iff {es : List Expr} :
    sameEach es es = true ↔ ∀ e ∈ es, (e == e) = true := by
  induction es with
  | nil => simp [sameEach]
  | cons e es ih =>
      rw [sameEach, Bool.and_eq_true, ih, List.forall_mem_cons]
      rfl

/-- An expression counts as the same as itself if its heads do. -/
lemma beq_self_iff {e : Expr} : (e == e) = true ↔ ∀ n ∈ e.nodes, n.head.Regular := by
  induction e using Expr.ind with
  | step a es ih =>
      rw [beq_node, Bool.and_eq_true, Atom.beq_self_iff, sameEach_self_iff]
      constructor
      · rintro ⟨ha, hes⟩ n hn
        rcases mem_nodes_node.1 hn with rfl | ⟨e, he, hne⟩
        · exact ha
        · exact (ih e he).1 (hes e he) n hne
      · intro h
        exact ⟨h _ (mem_nodes_self _),
          fun e he => (ih e he).2 fun n hn => h n (mem_nodes_of_operand he hn)⟩

end Expr

/-! ### Environments -/

/-- Sameness does not depend on the order. -/
lemma Meaning.beq_comm (m n : Meaning) : (m == n) = (n == m) := by
  change m.same n = n.same m
  cases m with
  | keyword f =>
      cases n with
      | keyword g => exact BEq.comm
      | _ => rfl
  | procedure p =>
      cases n with
      | procedure q => exact BEq.comm
      | _ => rfl
  | bound e =>
      cases n with
      | bound f => exact e.beq_comm f
      | _ => rfl

namespace Environment

/-- Sameness does not depend on the order. -/
lemma beq_comm (E F : Environment) : (E == F) = (F == E) := by
  rw [Bool.eq_iff_iff, beq_iff, beq_iff]
  refine forall_congr' fun name => ?_
  have hcomm : (E.meaning? name == F.meaning? name) = (F.meaning? name == E.meaning? name) := by
    cases E.meaning? name <;> cases F.meaning? name
    · rfl
    · rfl
    · rfl
    · exact Meaning.beq_comm _ _
  rw [hcomm]

/-- An environment counts as the same as itself if all that is bound does. -/
lemma beq_self_iff {E : Environment} :
    (E == E) = true ↔ ∀ name v, E.meaning? name = some (.bound v) → (v == v) = true := by
  rw [beq_iff]
  refine forall_congr' fun name => ?_
  cases hm : E.meaning? name with
  | none => simp
  | some m =>
      cases m with
      | keyword form => exact iff_of_true (beq_self_eq_true form) (by simp)
      | procedure p => exact iff_of_true (beq_self_eq_true p) (by simp)
      | bound w =>
          refine ⟨fun h v hv => ?_, fun h => h w rfl⟩
          cases hv
          exact h

/-- Binds names one after another. -/
def defineAll (E : Environment) (definitions : List (String × Expr)) :
    Except EvalError Environment :=
  definitions.foldlM (fun F d => F.define d.1 d.2) E

/-- What names stand for after one definition. -/
lemma meaning?_extended_eq_some_iff {E : Environment} {name : String} (h : E.meaning? name = none)
    {v : Expr} {n : String} {m : Meaning} :
    (E.extended name v h).meaning? n = some m
      ↔ E.meaning? n = some m ∨ n = name ∧ m = .bound v := by
  by_cases hn : n = name
  · subst hn
    rw [meaning?_extended_self, h]
    simp [eq_comm]
  · rw [meaning?_extended_of_ne hn]
    simp [hn]

/-- **What names stand for after definitions** of different names that were free: what they
are defined to be, or what they stood for before. -/
lemma exists_defineAll {E : Environment} {ds : List (String × Expr)}
    (hnames : (ds.map Prod.fst).Nodup) (hfree : ∀ d ∈ ds, E.meaning? d.1 = none) :
    ∃ F, E.defineAll ds = .ok F ∧ ∀ name m, F.meaning? name = some m
      ↔ E.meaning? name = some m ∨ ∃ v, (name, v) ∈ ds ∧ m = .bound v := by
  induction ds generalizing E with
  | nil => exact ⟨E, rfl, by simp⟩
  | cons d ds ih =>
      obtain ⟨name, v⟩ := d
      rw [List.map_cons, List.nodup_cons] at hnames
      have hname := hfree (name, v) (by simp)
      obtain ⟨F, hF, hmeaning⟩ := @ih (E.extended name v hname) hnames.2 fun d hd => by
        have hmem : d.1 ∈ ds.map Prod.fst := List.mem_map_of_mem hd
        have hne : d.1 ≠ name := fun h => hnames.1 (h ▸ hmem)
        rw [meaning?_extended_of_ne hne, hfree d (List.mem_cons_of_mem _ hd)]
      refine ⟨F, ?_, fun n m => ?_⟩
      · rw [defineAll, List.foldlM_cons, define_of_none hname]
        exact hF
      · rw [hmeaning, meaning?_extended_eq_some_iff hname, or_assoc]
        refine or_congr_right ⟨?_, ?_⟩
        · rintro (⟨rfl, rfl⟩ | ⟨w, hw, rfl⟩)
          · exact ⟨v, by simp, rfl⟩
          · exact ⟨w, List.mem_cons_of_mem _ hw, rfl⟩
        · rintro ⟨w, hw, rfl⟩
          rcases List.mem_cons.1 hw with hw | hw
          · cases hw
            exact .inl ⟨rfl, rfl⟩
          · exact .inr ⟨w, hw, rfl⟩

/-- The order of such definitions does not matter. -/
lemma defineAll_perm {E : Environment} {ds ds' : List (String × Expr)} (hperm : ds.Perm ds')
    (hnames : (ds.map Prod.fst).Nodup) (hfree : ∀ d ∈ ds, E.meaning? d.1 = none) :
    ∃ F G, E.defineAll ds = .ok F ∧ E.defineAll ds' = .ok G
      ∧ ∀ name, F.meaning? name = G.meaning? name := by
  obtain ⟨F, hF, hmeaning⟩ := exists_defineAll hnames hfree
  obtain ⟨G, hG, hmeaning'⟩ := exists_defineAll ((hperm.map Prod.fst).nodup hnames)
    fun d hd => hfree d (hperm.mem_iff.2 hd)
  refine ⟨F, G, hF, hG, fun name => Option.ext fun m => ?_⟩
  simp only [hmeaning, hmeaning', hperm.mem_iff]

/-- Environments in which names stand for the same things are the same as each of them is as
itself. -/
lemma beq_eq_of_meaning?_eq {E F : Environment} (h : ∀ name, E.meaning? name = F.meaning? name) :
    (E == F) = (E == E) := by
  rw [Bool.eq_iff_iff, beq_iff, beq_iff]
  simp only [h]

end Environment

/-- **The laws of sameness.** Expressions and environments are compared symmetrically. An
expression counts as the same as itself if no node is headed by a number that is infinite or
not a number, nor by a figure with a coordinate or a span that is not a number; an environment
if all that is bound in it does. If free names are defined in two orders, all names stand for
exactly the same things afterwards; hence both environments are the same if one of them counts
as the same as itself. -/
theorem sameness_laws :
    (∀ e f : Expr, (e == f) = true ↔ (f == e) = true)
    ∧ (∀ e : Expr, (e == e) = true ↔ ∀ n ∈ e.nodes, n.head.Regular)
    ∧ (∀ E F : Environment, (E == F) = true ↔ (F == E) = true)
    ∧ (∀ E : Environment, (E == E) = true
        ↔ ∀ name v, E.meaning? name = some (.bound v) → (v == v) = true)
    ∧ ∀ (E : Environment) (ds ds' : List (String × Expr)), ds.Perm ds' →
        (ds.map Prod.fst).Nodup → (∀ d ∈ ds, E.meaning? d.1 = none) →
        ∃ F G, E.defineAll ds = .ok F ∧ E.defineAll ds' = .ok G
          ∧ (∀ name, F.meaning? name = G.meaning? name)
          ∧ ((F == F) = true ∨ (G == G) = true → (F == G) = true) := by
  refine ⟨fun e f => by rw [e.beq_comm], fun e => Expr.beq_self_iff,
    fun E F => by rw [E.beq_comm], fun E => Environment.beq_self_iff,
    fun E ds ds' hperm hnames hfree => ?_⟩
  obtain ⟨F, G, hF, hG, hmeaning⟩ := Environment.defineAll_perm hperm hnames hfree
  refine ⟨F, G, hF, hG, hmeaning, ?_⟩
  rintro (hself | hself)
  · rwa [Environment.beq_eq_of_meaning?_eq hmeaning]
  · rw [Environment.beq_comm, Environment.beq_eq_of_meaning?_eq fun name => (hmeaning name).symm]
    exact hself

/-- An infinite number does not count as the same as itself, but a point with an infinite
coordinate does, so that it can be bound before or after another name. -/
theorem sameness_laws_infinite :
    (Expr.leaf (.number Float.inf) == Expr.leaf (.number Float.inf)) = false
    ∧ ∃ F G, Environment.standard.defineAll
        [("p", .leaf (.point ⟨Float.inf, -0⟩)), ("x", .leaf (.number 1))] = .ok F
      ∧ Environment.standard.defineAll
        [("x", .leaf (.number 1)), ("p", .leaf (.point ⟨Float.inf, -0⟩))] = .ok G
      ∧ (F == G) = true := by
  obtain ⟨-, hself, -, -, horder⟩ := sameness_laws
  have hfree : ∀ d ∈ [("p", Expr.leaf (.point ⟨Float.inf, -0⟩)), ("x", .leaf (.number 1))],
      Environment.standard.meaning? d.1 = none := by
    intro d hd
    simp only [List.mem_cons, List.not_mem_nil, or_false] at hd
    rcases hd with rfl | rfl <;> rfl
  obtain ⟨F, G, hF, hG, -, hsame⟩ := horder .standard _ _ (.swap _ _ _) (by decide) hfree
  refine ⟨?_, F, G, hF, hG, hsame (.inl ?_)⟩
  · rw [Bool.eq_false_iff, ne_eq, hself]
    intro h
    have hinf := ((h _ (Expr.mem_nodes_self _)).number _ rfl).2
    exact absurd hinf (by decide)
  · cases hF
    rfl

end SketchLisp

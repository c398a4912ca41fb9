import Mathlib.Data.List.Perm.Subperm
import SketchLisp.Proofs.Forms
import SketchLisp.Proofs.LanguageNames
import SketchLisp.Proofs.Locality

/-!
What a program can do at most.

A program binds names where it has definitions, and queues atoms where it draws. Each node
is evaluated at most once, whichever way the evaluation goes, so every effect of a run has
a node of its own that allows it.

* `Licence`: what an effect needs, and `Expr.licences` for what the nodes of an expression
  allow;
* `Evaluation.Licensed`: computations whose effects are covered by some licences, each used
  at most once;
* `Expr.eval_licensed`: evaluating an expression is covered by its own licences;
* `Evaluation.Within.run_definitions`: the environment that a run leaves is made by its
  effects;
* `session_run_footprint`: what this means for the names and the queue of a session.
-/

namespace SketchLisp

/-- What it takes to have an effect. -/
inductive Licence where
  | bind (name : String)
  | queue
deriving DecidableEq

/-- The licence that an effect needs. -/
def Effect.licence : Effect → Licence
  | bound name _ => .bind name
  | queued _ => .queue

namespace Expr

/-- The name that a node defines: the node is headed by `define`, and of its two operands
the first is a bare name that is neither reserved nor a special character. -/
def definedName? (n : Expr) : Option String :=
  if n.head = .symbol "define" then
    match n.operands with
    | [node (.symbol name) [], _] =>
      if Vocabulary.isReserved name || Vocabulary.isSpecialCharacter name then none else some name
    | _ => none
  else none

/-- The operands of a node that is headed by `draw`. -/
def drawnOperands (n : Expr) : List Expr := if n.head = .symbol "draw" then n.operands else []

/-- The names that an expression defines, one for each node that is a definition. -/
def definedNames (e : Expr) : List String := e.nodes.filterMap definedName?

/-- All operands that an expression draws. -/
def drawn (e : Expr) : List Expr := e.nodes.flatMap drawnOperands

/-- What a node allows by itself. -/
def ownLicences (n : Expr) : List Licence :=
  (n.definedName?.map .bind).toList ++ n.drawnOperands.map fun _ => .queue

/-- What the nodes of an expression allow. -/
def licences (e : Expr) : List Licence := e.nodes.flatMap ownLicences

lemma definedName?_eq_some_iff {n : Expr} {name : String} :
    n.definedName? = some name ↔ (∃ d, n = node (.symbol "define") [leaf (.symbol name), d])
      ∧ Vocabulary.isReserved name = false ∧ Vocabulary.isSpecialCharacter name = false := by
  constructor
  · intro h
    obtain ⟨a, es⟩ := n
    rw [definedName?] at h
    split_ifs at h with hhead
    split at h
    · next target d hes =>
        split_ifs at h with hlanguage
        obtain rfl := Option.some.inj h
        obtain rfl : a = .symbol "define" := hhead
        obtain rfl : es = [leaf (.symbol target), d] := hes
        rw [Bool.not_eq_true, Bool.or_eq_false_iff] at hlanguage
        exact ⟨⟨d, rfl⟩, hlanguage⟩
    · cases h
  · rintro ⟨⟨d, rfl⟩, hreserved, hspecial⟩
    simp [definedName?, leaf, hreserved, hspecial]

lemma ownLicences_define {name : String} (hreserved : Vocabulary.isReserved name = false)
    (hspecial : Vocabulary.isSpecialCharacter name = false) (d : Expr) :
    (node (.symbol "define") [leaf (.symbol name), d]).ownLicences = [.bind name] := by
  rw [ownLicences, definedName?_eq_some_iff.2 ⟨⟨d, rfl⟩, hreserved, hspecial⟩]
  rfl

lemma ownLicences_draw (es : List Expr) :
    (node (.symbol "draw") es).ownLicences = es.map fun _ => .queue := rfl

lemma licences_node (a : Atom) (es : List Expr) :
    (node a es).licences = (node a es).ownLicences ++ es.flatMap licences := by
  rw [licences, nodes, List.flatMap_cons, nodesEach_eq_flatMap, List.flatMap_assoc]
  rfl

end Expr

namespace Evaluation

variable {α β : Type} {ls ms : List Licence}

/-- Computations whose effects are covered by some licences, each used at most once. -/
def Licensed (ls : List Licence) (x : Evaluation α) : Prop :=
  ∀ E, ((x.run E).effects.map Effect.licence).Subperm ls

lemma licensed_pure (a : α) : Licensed ls (pure a) := fun _ => List.nil_subperm

lemma licensed_fail (r : EvalError) : Licensed ls (fail r : Evaluation α) :=
  fun _ => List.nil_subperm

lemma licensed_ofExcept (result : Except EvalError α) : Licensed ls (ofExcept result) :=
  fun _ => List.nil_subperm

lemma licensed_meaning? (name : String) : Licensed ls (meaning? name) :=
  fun _ => List.nil_subperm

lemma licensed_queue (a : Atom) : Licensed [.queue] (queue a) := fun _ => .refl _

lemma licensed_define (name : String) (v : Expr) : Licensed [.bind name] (define name v) := by
  intro E
  cases hfree : E.meaning? name with
  | none =>
      rw [run_define_of_none hfree]
      exact .refl _
  | some m =>
      rw [run_define_of_isSome (by simp [hfree])]
      exact List.nil_subperm

lemma Licensed.mono {x : Evaluation α} (h : Licensed ls x) (hle : ls.Subperm ms) : Licensed ms x :=
  fun E => (h E).trans hle

lemma Licensed.bind {x : Evaluation α} {f : α → Evaluation β} (hx : Licensed ls x)
    (hf : ∀ a, Licensed ms (f a)) : Licensed (ls ++ ms) (x >>= f) := by
  intro E
  rw [run_bind]
  cases hresult : (x.run E).result with
  | error r =>
      rw [andThen_of_error hresult]
      exact (hx E).trans (List.sublist_append_left ls ms).subperm
  | ok a =>
      rw [andThen_of_ok hresult, List.map_append]
      exact (hx E).append (hf a _)

/-- Nothing more is needed for what does nothing by itself. -/
lemma Licensed.bind_nil {x : Evaluation α} {f : α → Evaluation β} (hx : Licensed ls x)
    (hf : ∀ a, Licensed [] (f a)) : Licensed ls (x >>= f) := by
  have h := hx.bind hf
  rwa [List.append_nil] at h

lemma licensed_each {ι : Type} {is : List ι} {x : ι → Evaluation α} {ls : ι → List Licence}
    (h : ∀ i ∈ is, Licensed (ls i) (x i)) : Licensed (is.flatMap ls) (each (is.map x)) := by
  induction is with
  | nil => exact licensed_pure []
  | cons i is ih =>
      rw [List.map_cons, each_cons, List.flatMap_cons]
      refine (h i (by simp)).bind fun a => ?_
      exact (ih fun j hj => h j (by simp [hj])).bind_nil fun _ => licensed_pure _

lemma licensed_branch {x y : Evaluation Expr} (hx : Licensed ls x) (hy : Licensed ms y)
    (condition : Atom) : Licensed (ls ++ ms) (branch condition x y) := by
  rw [branch.eq_def]
  split
  · exact hx.mono (List.sublist_append_left ls ms).subperm
  · exact hy.mono (List.sublist_append_right ls ms).subperm
  · exact licensed_fail _

/-- Besides what its operand needs, a definition needs a licence for its name. -/
lemma licensed_defineName {name : String} (hreserved : Vocabulary.isReserved name = false)
    (hspecial : Vocabulary.isSpecialCharacter name = false) {x : Evaluation Expr}
    (hx : Licensed ls x) : Licensed (ls ++ [.bind name]) (defineName name x) := by
  rw [defineName_eq hreserved hspecial]
  have hlookup : Licensed [] (meaning? name) := licensed_meaning? name
  refine hlookup.bind fun m => ?_
  split_ifs
  · exact licensed_fail _
  · exact hx.bind fun v => (licensed_define name v).bind_nil fun _ => licensed_pure v

lemma licensed_defineName_of_language {name : String}
    (h : Vocabulary.isReserved name = true ∨ Vocabulary.isSpecialCharacter name = true)
    (x : Evaluation Expr) : Licensed ls (defineName name x) := by
  rw [defineName]
  split_ifs
  · exact licensed_fail _
  · exact licensed_fail _
  · simp_all

end Evaluation

open Evaluation

namespace SpecialForm

variable {es : List Expr}

lemma define_licensed (t : Expr) {e : Expr} (he : e.eval.Licensed e.licences) :
    (define.perform [.ofExpr t, .ofExpr e]).Licensed
      ((Expr.node (.symbol define.name) [t, e]).ownLicences ++ (t.licences ++ e.licences)) := by
  by_cases ht : ∃ name, t = .leaf (.symbol name)
  · obtain ⟨name, rfl⟩ := ht
    change (defineName name e.eval).Licensed _
    by_cases hlanguage : Vocabulary.isReserved name = true
        ∨ Vocabulary.isSpecialCharacter name = true
    · exact licensed_defineName_of_language hlanguage _
    · rw [not_or, Bool.not_eq_true, Bool.not_eq_true] at hlanguage
      refine (licensed_defineName hlanguage.1 hlanguage.2 he).mono ?_
      rw [SpecialForm.name, Expr.ownLicences_define hlanguage.1 hlanguage.2]
      refine List.perm_append_comm.subperm.trans ?_
      exact ((List.sublist_append_right _ _).append_left _).subperm
  · rw [perform_define_of_ne fun name hname => ht ⟨name, hname⟩]
    exact licensed_fail _

lemma draw_licensed {e : Expr} (he : e.eval.Licensed e.licences) :
    (Evaluation.draw e).Licensed (.queue :: e.licences) :=
  (he.bind fun v => licensed_queue v.head).mono (List.perm_append_singleton _ _).subperm

/-- A form needs what its operands need, and what its node allows by itself. -/
lemma perform_licensed (form : SpecialForm) (h : ∀ e ∈ es, e.eval.Licensed e.licences) :
    (form.perform (es.map .ofExpr)).Licensed (Expr.node (.symbol form.name) es).licences := by
  rw [Expr.licences_node]
  cases hcount : form.arity.accepts es.length with
  | false =>
      rw [perform_of_not_accepts (by simpa using hcount)]
      exact licensed_fail _
  | true =>
      cases form with
      | define =>
          obtain ⟨t, e, rfl⟩ := List.length_eq_two.1 (eq_of_beq hcount)
          have hdefine := define_licensed t (h e (by simp))
          simpa using hdefine
      | conditional =>
          obtain ⟨c, t, f, rfl⟩ := List.length_eq_three.1 (eq_of_beq hcount)
          have hbranch (v : Expr) := licensed_branch (h t (by simp)) (h f (by simp)) v.head
          refine ((h c (by simp)).bind hbranch).mono ?_
          simpa using (List.sublist_append_right _ _).subperm
      | sequence =>
          rw [perform_sequence (List.ne_nil_of_length_pos (of_decide_eq_true hcount))]
          refine ((licensed_each h).bind_nil fun _ => licensed_pure _).mono ?_
          exact (List.sublist_append_right _ _).subperm
      | draw =>
          rw [perform_draw (List.ne_nil_of_length_pos (of_decide_eq_true hcount))]
          have hdraw := licensed_each fun f hf => draw_licensed (h f hf)
          refine (hdraw.bind_nil fun _ => licensed_pure _).mono ?_
          rw [SpecialForm.name, Expr.ownLicences_draw]
          exact (List.map_append_flatMap_perm _ _ _).symm.subperm

end SpecialForm

/-- **Each effect has a node of its own** that allows it, whether or not the evaluation
succeeds. -/
theorem Expr.eval_licensed (e : Expr) : e.eval.Licensed e.licences := by
  induction e using Expr.ind with
  | step a es ih =>
      cases a with
      | symbol name =>
          have hoperands : (each (es.map eval)).Licensed (node (.symbol name) es).licences := by
            rw [licences_node]
            exact (licensed_each ih).mono (List.sublist_append_right _ _).subperm
          rcases Environment.name_cases name with ⟨form, rfl⟩ | ⟨p, rfl⟩ | hvariable
          · rw [eval_form]
            exact form.perform_licensed ih
          · rw [eval_procedure]
            exact hoperands.bind_nil fun _ => licensed_ofExcept _
          · intro E
            cases hmeaning : E.meaning? name with
            | none =>
                rw [run_eval_of_free hmeaning]
                split_ifs
                · exact licensed_fail _ E
                · exact hoperands.bind_nil (fun _ => licensed_fail _) E
            | some m =>
                obtain ⟨v, rfl⟩ := hvariable E m hmeaning
                rw [run_eval_of_bound hmeaning]
                exact List.nil_subperm
      | nothing | boolean | number | point | line | arc =>
          rw [eval_of_head_ne_symbol (by simp [Atom.kind])]
          exact licensed_pure _

/-! ### Environments and queues -/

/-- The entry that an effect makes. -/
def Effect.entry? : Effect → Option (String × Meaning)
  | bound name v => some (name, .bound v)
  | queued _ => none

/-- **The environment is made by the effects**: a run adds the entries of its effects, the
latest first. -/
lemma Evaluation.Within.run_entries {names : String → Prop} {α : Type} {x : Evaluation α}
    (hx : Within names x) (E : Environment) : (x.run E).environment.store.entries
      = ((x.run E).effects.filterMap Effect.entry?).reverse ++ E.store.entries := by
  induction hx generalizing E with
  | pure | ofExcept | meaning? | queue => rfl
  | @define name _ v =>
      cases hfree : E.meaning? name with
      | none =>
          rw [run_define_of_none hfree]
          rfl
      | some m =>
          rw [run_define_of_isSome (by simp [hfree])]
          rfl
  | @bind _ _ x f hx hf ihx ihf =>
      rw [run_bind]
      cases hresult : (x.run E).result with
      | error r =>
          rw [andThen_of_error hresult]
          exact ihx E
      | ok a =>
          rw [andThen_of_ok hresult]
          simp only [ihf, ihx, List.filterMap_append, List.reverse_append, List.append_assoc]

namespace Expr

variable {e : Expr} {E : Environment} {name : String}

/-- A name that a run has bound is defined by a node. -/
lemma mem_definedNames_of_entry {d : String × Meaning}
    (h : d ∈ (e.eval.run E).effects.filterMap Effect.entry?) :
    d.1 ∈ e.definedNames := by
  obtain ⟨effect, heffect, hd⟩ := List.mem_filterMap.1 h
  have hlicence : effect.licence ∈ e.licences :=
    (e.eval_licensed E).subset (List.mem_map_of_mem heffect)
  cases effect with
  | queued a => cases hd
  | bound name v =>
      obtain rfl := Option.some.inj hd
      obtain ⟨n, hn, hown⟩ := List.mem_flatMap.1 hlicence
      refine List.mem_filterMap.2 ⟨n, hn, ?_⟩
      simpa [ownLicences, Effect.licence] using hown

/-- So is a name that stands for something only after a run. -/
lemma mem_definedNames_of_new (hE : ¬ E.contains name)
    (hF : (e.eval.run E).environment.contains name) : name ∈ e.definedNames := by
  have hmem : name ∈ (e.eval.run E).environment.store.names := Store.mem_names_iff.2 hF
  rw [Store.names, e.eval_within_mentions.run_entries, List.map_append] at hmem
  rcases List.mem_append.1 hmem with hnew | hold
  · obtain ⟨d, hd, rfl⟩ := List.mem_map.1 hnew
    exact mem_definedNames_of_entry (List.mem_reverse.1 hd)
  · exact absurd (Store.mem_names_iff.1 hold) hE

/-- There are not more such names than definitions. -/
lemma exists_new_names (e : Expr) (E : Environment) : ∃ names : List String, names.Nodup
    ∧ (∀ name, name ∈ names ↔ ¬ E.contains name ∧ (e.eval.run E).environment.contains name)
    ∧ names.length ≤ e.definedNames.length := by
  refine ⟨e.definedNames.dedup.filter fun name =>
    ¬ E.contains name ∧ (e.eval.run E).environment.contains name,
    e.definedNames.nodup_dedup.filter _, fun name => ?_, ?_⟩
  · rw [List.mem_filter, List.mem_dedup, decide_eq_true_iff]
    exact and_iff_right_of_imp fun h => mem_definedNames_of_new h.1 h.2
  · exact (List.filter_sublist.trans (List.dedup_sublist _)).length_le

/-- A name that is defined in a program is the first operand of a definition. -/
lemma defines_of_mem_definedNames (h : name ∈ e.definedNames) :
    e.Defines name ∧ Vocabulary.isReserved name = false
      ∧ Vocabulary.isSpecialCharacter name = false := by
  obtain ⟨n, hn, hname⟩ := List.mem_filterMap.1 h
  obtain ⟨⟨d, rfl⟩, hlanguage⟩ := definedName?_eq_some_iff.1 hname
  exact ⟨⟨d, hn⟩, hlanguage⟩

/-- Without a node headed by `define` nothing is bound. -/
lemma run_environment_of_not_mentions (h : ¬ e.Mentions "define") (E : Environment) :
    (e.eval.run E).environment = E := by
  have hnone : (e.eval.run E).effects.filterMap Effect.entry? = [] := by
    refine List.eq_nil_iff_forall_not_mem.2 fun d hd => h ?_
    obtain ⟨⟨v, hn⟩, -⟩ := defines_of_mem_definedNames (mem_definedNames_of_entry hd)
    exact ⟨_, hn, rfl⟩
  have hentries := e.eval_within_mentions.run_entries E
  rw [hnone] at hentries
  exact Environment.ext (Store.ext hentries)

lemma count_queue_ownLicences (n : Expr) : n.ownLicences.count .queue = n.drawnOperands.length := by
  rw [ownLicences, List.count_append]
  cases n.definedName? <;> simp

lemma count_queue_licences (e : Expr) : e.licences.count .queue = e.drawn.length := by
  rw [licences, List.count_flatMap, drawn, List.length_flatMap]
  simp only [Function.comp_def, count_queue_ownLicences]

/-- Not more atoms are queued than there are operands to draw. -/
lemma length_queued_le (e : Expr) (E : Environment) :
    (e.eval.run E).queued.length ≤ e.drawn.length := by
  have hcount : (e.eval.run E).queued.length
      = ((e.eval.run E).effects.map Effect.licence).count .queue := by
    rw [Outcome.queued, List.length_filterMap_eq_countP, List.count, List.countP_map]
    refine List.countP_congr fun effect _ => ?_
    cases effect <;> simp [Effect.queued?, Effect.licence]
  rw [hcount, ← count_queue_licences]
  exact (e.eval_licensed E).count_le .queue

lemma queued_of_not_mentions (h : ¬ e.Mentions "draw") (E : Environment) :
    (e.eval.run E).queued = [] := by
  have hdrawn : e.drawn = [] := by
    refine List.flatMap_eq_nil_iff.2 fun n hn => if_neg fun hhead => h ⟨n, hn, hhead⟩
  have hlength := e.length_queued_le E
  rw [hdrawn] at hlength
  exact List.eq_nil_of_length_eq_zero (Nat.le_zero.1 hlength)

end Expr

/-! ### Sessions -/

/-- **What a program can do at most**, whether or not it succeeds: a name that it binds is
defined by one of its nodes and is neither reserved nor a special character; it binds no
more names than it has such definitions, and adds no more atoms to the queue than it has
operands to draw. Without a node headed by `define` it binds nothing, and without one
headed by `draw` it adds nothing. -/
theorem session_run_footprint {s : Session} {e : Expr} (hs : s.program = some e) :
    (∀ name, ¬ s.environment.contains name → s.run.2.environment.contains name →
      e.Defines name ∧ Vocabulary.isReserved name = false
        ∧ Vocabulary.isSpecialCharacter name = false)
    ∧ (∃ names : List String, names.Nodup
      ∧ (∀ name, name ∈ names ↔
        ¬ s.environment.contains name ∧ s.run.2.environment.contains name)
      ∧ names.length ≤ e.definedNames.length)
    ∧ (∃ d, s.run.2.graphics = s.graphics ++ d ∧ d.length ≤ e.drawn.length)
    ∧ (¬ e.Mentions "define" → s.run.2.environment = s.environment)
    ∧ (¬ e.Mentions "draw" → s.run.2.graphics = s.graphics) := by
  rw [Session.run_of_program hs]
  refine ⟨fun name hE hF => ?_, e.exists_new_names _, ⟨_, rfl, e.length_queued_le _⟩,
    fun hdefine => ?_, fun hdraw => ?_⟩
  · exact Expr.defines_of_mem_definedNames (Expr.mem_definedNames_of_new hE hF)
  · exact Expr.run_environment_of_not_mentions hdefine _
  · simp only [Expr.queued_of_not_mentions hdraw, List.append_nil]

/-- The first program has two definitions and two operands to draw, but binds one name and
draws once before it fails. The second binds nothing. -/
theorem session_run_footprint_branches : ∃ e f : Expr,
    Expr.parse "(begin (if True (draw True) (draw False)) (define x True) (define x False))" = .ok e
    ∧ Expr.parse "(draw True y)" = .ok f
    ∧ (Session.run ⟨.standard, some e, []⟩).1.result = .error (.redefinition "x")
    ∧ (∃ names : List String, names.length ≤ 2 ∧ ∀ name, name ∈ names ↔
        ¬ Environment.standard.contains name
        ∧ (Session.run ⟨.standard, some e, []⟩).2.environment.contains name)
    ∧ (∃ d, (Session.run ⟨.standard, some e, []⟩).2.graphics = [] ++ d ∧ d.length ≤ 2)
    ∧ ¬ f.Mentions "define"
    ∧ (Session.run ⟨.standard, some f, []⟩).2.environment = .standard := by
  let e : Expr := .node (.symbol "begin")
    [.node (.symbol "if") [.leaf (.boolean true), .node (.symbol "draw") [.leaf (.boolean true)],
        .node (.symbol "draw") [.leaf (.boolean false)]],
      .node (.symbol "define") [.leaf (.symbol "x"), .leaf (.boolean true)],
      .node (.symbol "define") [.leaf (.symbol "x"), .leaf (.boolean false)]]
  let f : Expr := .node (.symbol "draw") [.leaf (.boolean true), .leaf (.symbol "y")]
  obtain ⟨-, ⟨names, -, hnames, hlength⟩, hqueue, -⟩ :=
    session_run_footprint (s := ⟨.standard, some e, []⟩) rfl
  have hnone : ¬ f.Mentions "define" := by decide
  have hsame := (session_run_footprint (s := ⟨.standard, some f, []⟩) rfl).2.2.2.1 hnone
  exact ⟨e, f, Expr.parse_of_advance rfl, Expr.parse_of_advance rfl, rfl, ⟨names, hlength, hnames⟩,
    hqueue, hnone, hsame⟩

end SketchLisp

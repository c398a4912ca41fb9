import Mathlib.Tactic.Common
import SketchLisp.Eval

/-!
The names of the language in an environment.

The names of the language are written down twice: in the lists that say which names are
reserved, and with the forms, procedures and `pi` that fill the store at the start. Both
have the same names, and each only once. Since a definition never replaces an entry,
these names stand for the same in every environment, and all other names can only be
bound.

* `Store.Native`: what each name of the language stands for, and
  `Store.meaning?_standard_iff`: the store at the start follows it;
* `Store.names_standard_perm`, `Store.isReserved_iff`: the reserved names are those in the
  store at the start;
* `Store.Derived.kept`, `Store.Derived.native_or_bound`: what definitions leave as it is;
* `Environment.meaning?_eq_keyword_iff`, `Environment.meaning?_eq_procedure_iff`: the names
  of forms and procedures in an environment;
* `Environment.beq_iff`: environments are the same if all names, also those of the
  language, stand for the same in both;
* `Expr.evalNamed_eq`: a procedure looked up after its operands is the one that was there
  before.
-/

namespace SketchLisp

/-! ### Stores -/

namespace Store

/-- What each name of the language stands for. -/
inductive Native : String → Meaning → Prop
  | keyword (form : SpecialForm) : Native form.name (.keyword form)
  | procedure (p : Procedure) : Native p.name (.procedure p)
  | pi : Native Vocabulary.pi (.bound (.leaf (.number Number.pi)))

/-- What a name of the language stands for counts as the same as itself. -/
lemma Native.beq_self {name : String} {m : Meaning} (h : Native name m) : (m == m) = true := by
  cases h with
  | keyword form => exact beq_self_eq_true form
  | procedure p => exact beq_self_eq_true p
  | pi => rfl

lemma mem_names_iff {s : Store} {name : String} : name ∈ s.names ↔ s.contains name := by
  simp [names, contains, meaning?, List.lookup_isSome_iff]

/-- The entries at the start: `pi`, the procedures and the forms. -/
lemma entries_standard : standard.entries
    = (Vocabulary.pi, .bound (.leaf (.number Number.pi)))
      :: (Procedure.all.map fun p => (p.name, .procedure p)).reverse
      ++ (SpecialForm.all.map fun form => (form.name, .keyword form)).reverse := rfl

lemma native_of_mem_entries {name : String} {m : Meaning} (h : (name, m) ∈ standard.entries) :
    Native name m := by
  rw [entries_standard] at h
  simp only [List.mem_cons, List.mem_append, List.mem_reverse, List.mem_map, Prod.mk.injEq] at h
  rcases h with (⟨rfl, rfl⟩ | ⟨p, -, rfl, rfl⟩) | ⟨form, -, rfl, rfl⟩
  · exact .pi
  · exact .procedure p
  · exact .keyword form

/-- At the start each name of the language is found for what it is. -/
lemma meaning?_standard_iff {name : String} {m : Meaning} :
    standard.meaning? name = some m ↔ Native name m := by
  constructor
  · intro h
    obtain ⟨before, after, hentries, -⟩ := List.lookup_eq_some_iff.1 h
    exact native_of_mem_entries (by simp [hentries])
  · intro h
    cases h with
    | keyword form => cases form <;> rfl
    | procedure p => cases p <;> rfl
    | pi => rfl

/-- **The lists of reserved names agree with the store at the start**: both have the same
names, none of them twice. -/
lemma names_standard_perm : standard.names.Perm
    (Vocabulary.keywords ++ Vocabulary.arithmeticOperators ++ Vocabulary.procedureNames
      ++ [Vocabulary.pi]) := by
  decide

lemma isReserved_iff {name : String} :
    Vocabulary.isReserved name = true ↔ ∃ m, standard.meaning? name = some m := by
  rw [← Option.isSome_iff_exists, ← contains, ← mem_names_iff, names_standard_perm.mem_iff,
    Vocabulary.isReserved_iff_mem]

lemma isReserved_of_native {name : String} {m : Meaning} (h : Native name m) :
    Vocabulary.isReserved name = true :=
  isReserved_iff.2 ⟨m, meaning?_standard_iff.2 h⟩

namespace Derived

variable {s : Store} {name : String} {m : Meaning}

/-- **Definitions leave the names of the language as they are.** -/
lemma kept (hs : s.Derived) (h : Store.standard.meaning? name = some m) :
    s.meaning? name = some m := by
  induction hs with
  | standard => exact h
  | @define s t n value hs hdefine ih =>
      obtain ⟨hfree, rfl⟩ := define_eq_ok_iff.1 hdefine
      have hne : name ≠ n := by
        rintro rfl
        rw [hfree] at ih
        cases ih
      rw [meaning?_insert_of_ne hne, ih]

/-- All names that are added are bound. -/
lemma native_or_bound (hs : s.Derived) (h : s.meaning? name = some m) :
    Native name m ∨ ∃ v, m = .bound v := by
  induction hs with
  | standard => exact .inl (meaning?_standard_iff.1 h)
  | @define s t n value hs hdefine ih =>
      obtain ⟨-, rfl⟩ := define_eq_ok_iff.1 hdefine
      by_cases hname : name = n
      · rw [hname, meaning?_insert_self] at h
        exact .inr ⟨value, (Option.some.inj h).symm⟩
      · exact ih (meaning?_insert_of_ne hname s _ ▸ h)

end Derived

/-- **The same stores** are those in which every name stands for the same. -/
lemma beq_iff {s t : Store} :
    (s == t) = true ↔ ∀ name, (s.meaning? name == t.meaning? name) = true := by
  change s.same t = true ↔ _
  rw [same, List.all_eq_true]
  refine ⟨fun h name => ?_, fun h name _ => h name⟩
  by_cases hmem : name ∈ s.names ++ t.names
  · exact h name hmem
  -- a name that is in neither store is free in both
  · rw [List.mem_append, not_or, mem_names_iff, mem_names_iff, contains, contains] at hmem
    simp only [Option.not_isSome_iff_eq_none] at hmem
    rw [hmem.1, hmem.2]
    rfl

end Store

/-! ### Environments -/

namespace Environment

open Store

variable {E : Environment} {name : String} {m : Meaning}

lemma meaning?_of_native (h : Native name m) (E : Environment) : E.meaning? name = some m :=
  E.derived.kept (meaning?_standard_iff.2 h)

/-- A name of the language is what it stands for; other names are bound. -/
lemma native_or_bound (h : E.meaning? name = some m) : Native name m ∨ ∃ v, m = .bound v :=
  E.derived.native_or_bound h

/-- A name stands for something that cannot be bound only if it does so in the language. -/
lemma meaning?_eq_some_iff_native (hm : ∀ v, m ≠ .bound v) :
    E.meaning? name = some m ↔ Native name m := by
  constructor
  · intro h
    rcases native_or_bound h with hnative | ⟨v, hv⟩
    · exact hnative
    · exact absurd hv (hm v)
  · exact fun h => meaning?_of_native h E

lemma meaning?_eq_keyword_iff {form : SpecialForm} :
    E.meaning? name = some (.keyword form) ↔ name = form.name := by
  rw [meaning?_eq_some_iff_native (by simp)]
  exact ⟨by rintro ⟨⟩; rfl, by rintro rfl; exact .keyword form⟩

lemma meaning?_eq_procedure_iff {p : Procedure} :
    E.meaning? name = some (.procedure p) ↔ name = p.name := by
  rw [meaning?_eq_some_iff_native (by simp)]
  exact ⟨by rintro ⟨⟩; rfl, by rintro rfl; exact .procedure p⟩

/-- A free name is not reserved. -/
lemma isReserved_of_meaning?_eq_none (h : E.meaning? name = none) :
    Vocabulary.isReserved name = false := by
  rw [← Bool.not_eq_true, isReserved_iff]
  rintro ⟨m, hm⟩
  rw [meaning?_of_native (meaning?_standard_iff.1 hm)] at h
  cases h

/-- **The same environments** are those in which every name stands for the same. -/
lemma beq_iff {F : Environment} :
    (E == F) = true ↔ ∀ name, (E.meaning? name == F.meaning? name) = true :=
  Store.beq_iff

/-! ### One more name -/

/-- The environment in which a free name is bound. -/
def extended (E : Environment) (name : String) (value : Expr) (h : E.meaning? name = none) :
    Environment :=
  ⟨E.store.insert name (.bound value), E.derived.define (define_eq_ok_iff.2 ⟨h, rfl⟩)⟩

@[simp] lemma meaning?_extended_self (h : E.meaning? name = none) (value : Expr) :
    (E.extended name value h).meaning? name = some (.bound value) :=
  E.store.meaning?_insert_self name _

/-- Binding a name does not change the others. -/
lemma meaning?_extended_of_ne {n : String} (hne : n ≠ name) (h : E.meaning? name = none)
    (value : Expr) : (E.extended name value h).meaning? n = E.meaning? n :=
  meaning?_insert_of_ne hne E.store _

lemma define_of_none (h : E.meaning? name = none) (value : Expr) :
    E.define name value = .ok (E.extended name value h) := by
  rw [define]
  split
  · next t ht => simp only [extended, (define_eq_ok_iff.1 ht).2]
  · next e he => rw [define_eq_ok_iff.2 ⟨h, rfl⟩] at he; cases he

lemma define_of_isSome (h : (E.meaning? name).isSome) (value : Expr) :
    E.define name value = .error (.redefinition name) := by
  have herror : E.store.define name value = .error (.redefinition name) := by
    rw [Store.define]
    exact if_pos h
  rw [define]
  split
  · next t ht => rw [herror] at ht; cases ht
  · next e he => rw [herror] at he; exact congrArg _ (Except.error.inj he).symm

end Environment

/-! ### Lookups during evaluation -/

namespace Evaluation

/-- A procedure of the language is always found. -/
lemma procedure_name (p : Procedure) : procedure p.name = pure p := by
  ext E
  rw [run_procedure, Environment.procedure, Environment.meaning?_eq_procedure_iff.2 rfl, run_pure]

/-- Under other names there is never a procedure. -/
lemma procedure_of_ne {name : String} (h : ∀ p : Procedure, name ≠ p.name) :
    procedure name = fail (.unboundName name) := by
  ext E
  rw [run_procedure, Environment.procedure, run_fail]
  split
  · next p hp => exact absurd (Environment.meaning?_eq_procedure_iff.1 hp) (h p)
  · rfl

end Evaluation

namespace Expr

open Evaluation

/-- **The two lookups agree**: what a name stands for before its operands are evaluated
decides which procedure is found afterwards. -/
lemma evalNamed_eq (name : String) (operands : List Operand) :
    evalNamed name operands = meaning? name >>= fun
      | some (.bound value) => pure value
      | some (.keyword form) => form.perform operands
      | some (.procedure p) =>
        each (operands.map (·.evaluate)) >>= fun values => ofExcept (p.apply (values.map head))
      | none =>
        if Vocabulary.isSpecialCharacter name then fail (.specialCharacter name)
        else each (operands.map (·.evaluate)) >>= fun _ => fail (.unboundName name) := by
  ext E
  rw [evalNamed, run_bind, run_bind, run_meaning?, andThen, andThen]
  cases hm : E.meaning? name with
  | none =>
      have hne : ∀ p : Procedure, name ≠ p.name := by
        rintro p rfl
        rw [Environment.meaning?_eq_procedure_iff.2 rfl] at hm
        cases hm
      simp only [procedure_of_ne hne]
      rfl
  | some m =>
      cases m with
      | bound v => rfl
      | keyword form => rfl
      | procedure p =>
          obtain rfl := Environment.meaning?_eq_procedure_iff.1 hm
          have hspecial : Vocabulary.isSpecialCharacter p.name = false := by cases p <;> rfl
          simp only [hspecial, Bool.false_eq_true, if_false, procedure_name, pure_bind]

end Expr

end SketchLisp

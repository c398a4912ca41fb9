import SketchLisp.Proofs.Contract
import SketchLisp.Proofs.History
import SketchLisp.Proofs.StandardNames

/-!
The names of the language never change.

A program defines a name only if it is free and neither reserved nor a special
character, and only names that the program mentions. So whatever happens in a session,
the entries of the language in the store stay as they are, and all other names are
ordinary words that some program has bound.

* `Definable`: names that programs can define;
* `Session.WellNamed`: the invariant of sessions, kept by every request
  (`Session.WellNamed.handle`);
* `Store.LanguageIntact`: what this means for the store of a session, also if it is compared
  with the store at the start;
* `session_language_intact`: it holds after all requests.
-/

namespace SketchLisp

/-- Whether a program can define a name: it is a word for itself, and neither belongs to
the language nor is a special character. -/
structure Definable (name : String) : Prop where
  word : Word.atom? name = some (.symbol name)
  notReserved : Vocabulary.isReserved name = false
  notSpecial : Vocabulary.isSpecialCharacter name = false

/-- Whether all names besides those of the language are such names. -/
def Environment.WellNamed (E : Environment) : Prop :=
  ∀ name m, E.meaning? name = some m → Vocabulary.isReserved name = false → Definable name

/-! ### Programs and sessions -/

/-- Only names that can be defined are. -/
def Contract.definable : Contract where
  environment := Environment.WellNamed
  value _ := True
  queued _ := True

lemma Contract.sound_definable :
    Contract.definable.Sound fun name => Word.atom? name = some (.symbol name) where
  define {E name v} hE hfree hspecial hname _ := by
    intro n m hm hreserved
    by_cases hn : n = name
    · exact hn ▸ ⟨hname, hn ▸ hreserved, hspecial⟩
    · rw [Environment.meaning?_extended_of_ne hn] at hm
      exact hE n m hm hreserved
  bound _ _ := trivial
  literal _ := trivial
  queue _ := trivial

namespace Session

/-- Whether the names of a session are in order: those that its programs have defined,
and those that the next one mentions. -/
structure WellNamed (s : Session) : Prop where
  environment : s.environment.WellNamed
  program : ∀ e, s.program = some e → ∀ name, e.Mentions name →
    Word.atom? name = some (.symbol name)

lemma wellNamed_fresh : fresh.WellNamed where
  environment name m hm hreserved := by
    rw [Store.isReserved_iff.2 ⟨m, hm⟩] at hreserved
    cases hreserved
  program := by simp [fresh]

/-- Running a program keeps the names in order. -/
lemma WellNamed.run {s : Session} (h : s.WellNamed) : s.run.2.environment.WellNamed := by
  cases hs : s.program with
  | none =>
      rw [Session.run, hs]
      exact h.environment
  | some e =>
      rw [run_of_program hs]
      exact (Contract.sound_definable.eval (h.program e hs) h.environment).environment

/-- Every request keeps the names in order. -/
lemma WellNamed.handle {s : Session} (h : s.WellNamed) (request : Request) :
    (s.handle request).WellNamed where
  environment := by
    rw [handle_environment]
    split
    · exact h.run
    · exact wellNamed_fresh.environment
    · exact h.environment
  program e he name hname := by
    rcases exists_parse_of_handle he with hheld | ⟨text, htext⟩
    · exact h.program e hheld name hname
    · exact Expr.atom?_of_parse htext hname

lemma wellNamed_after (requests : List Request) : (after requests).WellNamed :=
  after_induction wellNamed_fresh (fun _ request hs => hs.handle request) requests

end Session

/-! ### The store -/

namespace Store

/-- What it means for a store that no program can touch the names of the language. -/
structure LanguageIntact (s : Store) : Prop where
  /-- The reserved names are those that have the entry they had at the start. -/
  reserved : ∀ name, Vocabulary.isReserved name = true ↔
    ∃ m, standard.meaning? name = some m ∧ s.meaning? name = some m
  /-- This is their form, their procedure, or the number `pi`. -/
  native : ∀ name m, standard.meaning? name = some m → Native name m
  /-- No name has a second entry. -/
  once : s.names.Nodup
  /-- All other names are bound, and they are ordinary words. -/
  others : ∀ name m, s.meaning? name = some m → Vocabulary.isReserved name = false →
    (∃ v, m = .bound v) ∧ Vocabulary.isSpecialCharacter name = false
      ∧ Word.atom? name = some (.symbol name)
  /-- Without other names the store is the same as at the start, and only then. -/
  same : (s == standard) = true ↔ ∀ name, s.contains name → Vocabulary.isReserved name = true

namespace Derived

variable {s : Store}

/-- A definition never puts a name in that is there already. -/
lemma nodup_names (hs : s.Derived) : s.names.Nodup := by
  induction hs with
  | standard => decide
  | @define s t name value hs hdefine ih =>
      obtain ⟨hfree, rfl⟩ := define_eq_ok_iff.1 hdefine
      refine List.nodup_cons.2 ⟨?_, ih⟩
      rw [← names, mem_names_iff, contains, hfree]
      simp

/-- Names of the language keep a store the same as at the start. -/
lemma beq_standard_iff (hs : s.Derived) :
    (s == Store.standard) = true
      ↔ ∀ name, s.contains name → Vocabulary.isReserved name = true := by
  rw [beq_iff]
  refine forall_congr' fun name => ?_
  rw [contains, isReserved_iff]
  cases hm : Store.standard.meaning? name with
  | some m =>
      have hself := (meaning?_standard_iff.1 hm).beq_self
      simp [hs.kept hm, hself]
  | none => cases s.meaning? name <;> simp

end Derived

end Store

lemma Environment.WellNamed.languageIntact {E : Environment} (h : E.WellNamed) :
    E.store.LanguageIntact where
  reserved name := by
    rw [Store.isReserved_iff]
    exact exists_congr fun m => ⟨fun hm => ⟨hm, E.derived.kept hm⟩, And.left⟩
  native _ _ hm := Store.meaning?_standard_iff.1 hm
  once := E.derived.nodup_names
  others name m hm hreserved := by
    have hdefinable := h name m hm hreserved
    rcases E.derived.native_or_bound hm with hnative | hbound
    · rw [Store.isReserved_of_native hnative] at hreserved
      cases hreserved
    · exact ⟨hbound, hdefinable.notSpecial, hdefinable.word⟩
  same := E.derived.beq_standard_iff

/-- **The names of the language are immutable**: whatever a session is asked for, with
whatever texts, and whether or not it succeeds. -/
theorem session_language_intact (requests : List Session.Request) :
    (Session.after requests).environment.store.LanguageIntact :=
  (Session.wellNamed_after requests).environment.languageIntact

/-- A definition of a reserved name fails, and one of another name stays. -/
example :
    let define (name : String) (value : Atom) : Expr :=
      .node (.symbol "define") [.leaf (.symbol name), .leaf value]
    let program : Expr :=
      .node (.symbol "begin") [define "x" (.boolean true), define "pi" (.symbol "x")]
    (Session.run ⟨.standard, some program, []⟩).2.environment.store.names
      = "x" :: Store.standard.names := by decide +kernel

end SketchLisp

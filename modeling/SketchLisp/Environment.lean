import SketchLisp.EvalError
import SketchLisp.Vocabulary

/-!
Environments: what names stand for.

Names are kept in a store. It is filled with the names of the language, and a
program can add others, each of them once. The store itself does not know which
names belong to the language: that these keep their meaning is a matter of
`Store.define`, which refuses a name that is there already.

An environment is a store that came about in this way and in no other.

* `Store.standard`: the names of the language;
* `Store.meaning?`: what a name stands for;
* `Store.define`: adds a name;
* `Environment`: a store with the proof that it was made by these functions.
-/

namespace SketchLisp

/-- What a name stands for. -/
inductive Meaning where
  | keyword (form : SpecialForm)
  | procedure (p : Procedure)
  | bound (value : Expr)

/-- Whether two meanings count as the same. -/
def Meaning.same : Meaning → Meaning → Bool
  | keyword f, keyword g => f == g
  | procedure p, procedure q => p == q
  | bound e, bound f => e == f
  | _, _ => false

instance : BEq Meaning := ⟨Meaning.same⟩

/-- The number that the name `pi` stands for: the binary64 number nearest to `π`,
which is the angle of the point `(-1, 0)`. -/
def Number.pi : Float := 3.141592653589793

/-! ### Stores -/

/-- Names with what they stand for, the latest first. -/
@[ext] structure Store where
  entries : List (String × Meaning)

namespace Store

/-- Puts a name into a store. -/
def insert (s : Store) (name : String) (meaning : Meaning) : Store :=
  ⟨(name, meaning) :: s.entries⟩

/-- What a name stands for, if it stands for anything. -/
def meaning? (s : Store) (name : String) : Option Meaning := s.entries.lookup name

@[simp] theorem meaning?_insert_self (s : Store) (name : String) (m : Meaning) :
    (s.insert name m).meaning? name = some m := by
  simp [meaning?, insert]

/-- Putting in a name does not change what others stand for. -/
theorem meaning?_insert_of_ne {n name : String} (h : n ≠ name) (s : Store) (m : Meaning) :
    (s.insert name m).meaning? n = s.meaning? n := by
  rw [meaning?, insert, List.lookup_cons, beq_eq_false_iff_ne.2 h, meaning?]

/-- Whether a name stands for anything. -/
def contains (s : Store) (name : String) : Bool := (s.meaning? name).isSome

/-- The store that holds only the names of the language. -/
def standard : Store :=
  let empty : Store := ⟨[]⟩
  let forms := SpecialForm.all.foldl
    (fun (s : Store) form => s.insert form.name (.keyword form)) empty
  let procedures := Procedure.all.foldl
    (fun (s : Store) p => s.insert p.name (.procedure p)) forms
  procedures.insert Vocabulary.pi (.bound (.leaf (.number Number.pi)))

/-- Binds a name that stands for nothing yet. -/
def define (s : Store) (name : String) (value : Expr) : Except EvalError Store :=
  if s.contains name then .error (.redefinition name)
  else .ok (s.insert name (.bound value))

theorem define_eq_ok_iff {s t : Store} {name : String} {value : Expr} :
    s.define name value = .ok t ↔ s.meaning? name = none ∧ t = s.insert name (.bound value) := by
  rw [define, contains]
  cases s.meaning? name <;> simp [eq_comm]

/-- The stores that come about from the names of the language by definitions. -/
inductive Derived : Store → Prop
  | standard : Derived standard
  | define {s t : Store} {name : String} {value : Expr} (hs : Derived s)
      (h : s.define name value = .ok t) : Derived t

/-- The names in a store. -/
def names (s : Store) : List String := s.entries.map Prod.fst

/-- Whether two stores hold the same names for what counts as the same. -/
def same (a b : Store) : Bool :=
  (a.names ++ b.names).all fun name => a.meaning? name == b.meaning? name

instance : BEq Store := ⟨same⟩

end Store

/-! ### Environments -/

/-- A store that came about from the names of the language by definitions. -/
@[ext] structure Environment where
  store : Store
  derived : store.Derived

namespace Environment

/-- The environment that holds only the names of the language. -/
def standard : Environment := ⟨.standard, .standard⟩

instance : Inhabited Environment := ⟨standard⟩

/-- What a name stands for, if it stands for anything. -/
def meaning? (env : Environment) (name : String) : Option Meaning := env.store.meaning? name

/-- Whether a name stands for anything. -/
def contains (env : Environment) (name : String) : Bool := (env.meaning? name).isSome

/-- The expression that a name is bound to. -/
def value (env : Environment) (name : String) : Except EvalError Expr :=
  match env.meaning? name with
  | some (.bound e) => .ok e
  | _ => .error (.unboundName name)

/-- The procedure of a name. -/
def procedure (env : Environment) (name : String) : Except EvalError Procedure :=
  match env.meaning? name with
  | some (.procedure p) => .ok p
  | _ => .error (.unboundName name)

/-- The form of a name. -/
def specialForm? (env : Environment) (name : String) : Option SpecialForm :=
  match env.meaning? name with
  | some (.keyword form) => some form
  | _ => none

/-- Binds a name that stands for nothing yet. -/
def define (env : Environment) (name : String) (value : Expr) : Except EvalError Environment :=
  match h : env.store.define name value with
  | .ok store => .ok ⟨store, env.derived.define h⟩
  | .error e => .error e

instance : BEq Environment := ⟨fun a b => a.store == b.store⟩

end Environment

end SketchLisp

import Mathlib.Data.List.Basic
import SketchLisp.Procedure

/-!
What procedures do with right and with wrong operands.

Each procedure checks and reads its operands by itself. Seen from outside all of them keep
to one rule: they look at the number of operands first, then at their kinds from left to
right, and if both are right they have a value.

* `Procedure.signature`: which operands each procedure takes, and what it gives;
* `Signature.FirstMisfit`: the first operand of a wrong kind;
* `Signature.Follows`: results as the rule has them;
* `Signature.follows_checkArity`, `Signature.follows_readFrom`, `Signature.follows_readAt`: the
  checks that procedures are made of keep to the rule if what comes after them does;
* `Procedure.follows_unaryNumber`, `Procedure.follows_ofTwoNumbers`, `Procedure.follows_fold` and
  one lemma for each procedure of its own shape;
* `Procedure.apply_follows`: all procedures keep to the rule.
-/

namespace SketchLisp

/-! ### Signatures -/

/-- Which operands a procedure takes, and the kind of its values. -/
structure Signature where
  arity : Arity
  operand : Nat → Kind
  result : Kind

/-- The signatures of the procedures; places count from zero. -/
def Procedure.signature : Procedure → Signature
  | not => ⟨.exactly 1, fun _ => .boolean, .boolean⟩
  | and | or => ⟨.atLeast 2, fun _ => .boolean, .boolean⟩
  | less | lessEqual | greater | greaterEqual | equal => ⟨.exactly 2, fun _ => .number, .boolean⟩
  | add | multiply => ⟨.atLeast 2, fun _ => .number, .number⟩
  | subtract => ⟨.oneOf 1 2, fun _ => .number, .number⟩
  | divide | power | arctangent => ⟨.exactly 2, fun _ => .number, .number⟩
  | log10 | sine | cosine => ⟨.exactly 1, fun _ => .number, .number⟩
  | point => ⟨.exactly 2, fun _ => .number, .point⟩
  | line => ⟨.exactly 2, fun _ => .point, .line⟩
  | arc => ⟨.exactly 3, fun place => if place < 2 then .point else .number, .arc⟩

namespace Signature

/-- Whether each operand is of the kind that its place asks for. -/
def Fits (σ : Signature) (operands : List Atom) : Prop :=
  ∀ i a, operands[i]? = some a → a.kind = σ.operand i

/-- Whether an operand is of a wrong kind, and none before it is. -/
structure FirstMisfit (σ : Signature) (operands : List Atom) (i : Nat) (a : Atom) : Prop where
  operand : operands[i]? = some a
  wrong : a.kind ≠ σ.operand i
  before : ∀ k b, k < i → operands[k]? = some b → b.kind = σ.operand k

/-- Whether the operands before some place are of the kinds that their places ask for. -/
def FitsBelow (σ : Signature) (operands : List Atom) (n : Nat) : Prop :=
  ∀ i a, i < n → operands[i]? = some a → a.kind = σ.operand i

lemma fitsBelow_zero (σ : Signature) (operands : List Atom) : σ.FitsBelow operands 0 :=
  fun _ _ hi => absurd hi (by omega)

lemma FitsBelow.succ {σ : Signature} {operands : List Atom} {n : Nat} {a : Atom}
    (h : σ.FitsBelow operands n) (ha : operands[n]? = some a) (hkind : a.kind = σ.operand n) :
    σ.FitsBelow operands (n + 1) := by
  intro i b hi hb
  rcases Nat.lt_succ_iff_lt_or_eq.1 hi with hlt | rfl
  · exact h i b hlt hb
  · obtain rfl : a = b := by simpa [ha] using hb
    exact hkind

lemma FitsBelow.fits {σ : Signature} {operands : List Atom}
    (h : σ.FitsBelow operands operands.length) : σ.Fits operands :=
  fun i a ha => h i a (List.getElem?_eq_some_iff.1 ha).1 ha

lemma FirstMisfit.not_fits {σ : Signature} {operands : List Atom} {i : Nat} {a : Atom}
    (h : σ.FirstMisfit operands i a) : ¬ σ.Fits operands :=
  fun hfits => h.wrong (hfits i a h.operand)

/-- The results of the procedure `name` on given operands as the rule has them; `makes` says
which values there can be. -/
inductive Follows (σ : Signature) (name : String) (operands : List Atom) (makes : Atom → Prop) :
    Except EvalError Expr → Prop
  | count (h : σ.arity.accepts operands.length = false) :
      Follows σ name operands makes (.error (.wrongArgumentCount name σ.arity operands.length))
  | misfit (hcount : σ.arity.accepts operands.length = true) {i : Nat} {a : Atom}
      (h : σ.FirstMisfit operands i a) :
      Follows σ name operands makes (.error (.typeMismatch name (i + 1) (σ.operand i) a))
  | value (hcount : σ.arity.accepts operands.length = true) (hfits : σ.Fits operands) {a : Atom}
      (hkind : a.kind = σ.result) (h : makes a) : Follows σ name operands makes (.ok (.leaf a))

variable {σ : Signature} {name : String} {operands : List Atom} {makes : Atom → Prop}

lemma Follows.imp {makes' : Atom → Prop} {result : Except EvalError Expr}
    (h : σ.Follows name operands makes result) (himp : ∀ a, makes a → makes' a) :
    σ.Follows name operands makes' result := by
  cases h with
  | count h => exact .count h
  | misfit hcount h => exact .misfit hcount h
  | value hcount hfits hkind h => exact .value hcount hfits hkind (himp _ h)

/-- With a wrong number of operands nothing else matters. -/
lemma Follows.of_not_accepts {result : Except EvalError Expr}
    (h : σ.Follows name operands makes result)
    (hcount : σ.arity.accepts operands.length = false) :
    result = .error (.wrongArgumentCount name σ.arity operands.length) := by
  cases h with
  | count => rfl
  | misfit haccepts | value haccepts =>
      rw [hcount] at haccepts
      cases haccepts

/-- The first operand of a wrong kind is the one that is named. -/
lemma Follows.of_firstMisfit {result : Except EvalError Expr} {i : Nat} {a : Atom}
    (h : σ.Follows name operands makes result)
    (hcount : σ.arity.accepts operands.length = true) (hmisfit : σ.FirstMisfit operands i a) :
    result = .error (.typeMismatch name (i + 1) (σ.operand i) a) := by
  cases h with
  | count hnot =>
      rw [hcount] at hnot
      cases hnot
  | @misfit _ j b hfirst =>
      rcases Nat.lt_trichotomy i j with hlt | rfl | hlt
      · exact absurd (hfirst.before i a hlt hmisfit.operand) hmisfit.wrong
      · obtain rfl : b = a := Option.some.inj (hfirst.operand.symm.trans hmisfit.operand)
        rfl
      · exact absurd (hmisfit.before j b hlt hfirst.operand) hfirst.wrong
  | value _ hfits => exact absurd hfits hmisfit.not_fits

lemma Follows.of_not_fits {result : Except EvalError Expr}
    (h : σ.Follows name operands makes result)
    (hcount : σ.arity.accepts operands.length = true) (hfits : ¬ σ.Fits operands) :
    ∃ i a, σ.FirstMisfit operands i a
      ∧ result = .error (.typeMismatch name (i + 1) (σ.operand i) a) := by
  cases h with
  | count hnot =>
      rw [hcount] at hnot
      cases hnot
  | misfit _ hmisfit => exact ⟨_, _, hmisfit, rfl⟩
  | value _ h => exact absurd h hfits

lemma Follows.of_fits {result : Except EvalError Expr} (h : σ.Follows name operands makes result)
    (hcount : σ.arity.accepts operands.length = true) (hfits : σ.Fits operands) :
    ∃ a, result = .ok (.leaf a) ∧ a.kind = σ.result ∧ makes a := by
  cases h with
  | count hnot =>
      rw [hcount] at hnot
      cases hnot
  | misfit _ hmisfit => exact absurd hfits hmisfit.not_fits
  | value _ _ hkind ha => exact ⟨_, rfl, hkind, ha⟩

/-! ### Checks -/

/-- The number of operands is checked first. -/
lemma follows_checkArity
    {k : PLift (σ.arity.accepts operands.length = true) → Except EvalError Expr}
    (h : ∀ hcount, σ.Follows name operands makes (k ⟨hcount⟩)) :
    σ.Follows name operands makes (Procedure.checkArity name operands σ.arity >>= k) := by
  by_cases hcount : σ.arity.accepts operands.length = true
  · rw [Procedure.checkArity, dif_pos hcount]
    exact h hcount
  · rw [Procedure.checkArity, dif_neg hcount]
    exact .count (by simpa using hcount)

end Signature

namespace Content

variable {α : Type}

/-- Whether the atoms of a kind are those that are made of its values. -/
structure Lawful (c : Content α) : Prop where
  value?_eq_some_iff : ∀ {a x}, c.value? a = some x ↔ a = c.make x
  kind_eq_iff : ∀ {a}, a.kind = c.kind ↔ ∃ x, a = c.make x

lemma lawful_number : number.Lawful where
  value?_eq_some_iff := by rintro (_ | _ | _ | _ | _ | _ | _) x <;> simp [number]
  kind_eq_iff := by rintro (_ | _ | _ | _ | _ | _ | _) <;> simp [number, Atom.kind]

lemma lawful_boolean : boolean.Lawful where
  value?_eq_some_iff := by rintro (_ | _ | _ | _ | _ | _ | _) x <;> simp [boolean]
  kind_eq_iff := by rintro (_ | _ | _ | _ | _ | _ | _) <;> simp [boolean, Atom.kind]

lemma lawful_point : point.Lawful where
  value?_eq_some_iff := by rintro (_ | _ | _ | _ | _ | _ | _) x <;> simp [point]
  kind_eq_iff := by rintro (_ | _ | _ | _ | _ | _ | _) <;> simp [point, Atom.kind]

variable {c : Content α} (hc : c.Lawful)

include hc

lemma Lawful.read_make (name : String) (place : Nat) (x : α) :
    c.read name place (c.make x) = .ok x := by
  rw [read, hc.value?_eq_some_iff.2 rfl]

lemma Lawful.read_of_kind_ne {a : Atom} (h : a.kind ≠ c.kind) (name : String) (place : Nat) :
    c.read name place a = .error (.typeMismatch name (place + 1) c.kind a) := by
  rw [read]
  split
  · next x hx => exact absurd (hc.kind_eq_iff.2 ⟨x, hc.value?_eq_some_iff.1 hx⟩) h
  · rfl

/-- Operands of the right kind are read as the values that they are made of. -/
lemma Lawful.readFrom_map (name : String) (place : Nat) (xs : List α) :
    c.readFrom name place (xs.map c.make) = .ok ⟨xs, by simp⟩ := by
  induction xs generalizing place with
  | nil => rfl
  | cons x xs ih =>
      change c.readFrom name place (c.make x :: xs.map c.make) = _
      rw [readFrom, hc.read_make]
      change (c.readFrom name (place + 1) (xs.map c.make) >>= _) = _
      rw [ih]
      rfl

/-- Operands are all read, or the first of a wrong kind is found. -/
lemma Lawful.readFrom_cases (name : String) (place : Nat) (operands : List Atom) :
    (∃ xs : List α, operands = xs.map c.make)
    ∨ ∃ i a, operands[i]? = some a ∧ a.kind ≠ c.kind
      ∧ (∀ k b, k < i → operands[k]? = some b → b.kind = c.kind)
      ∧ c.readFrom name place operands
        = .error (.typeMismatch name (place + i + 1) c.kind a) := by
  induction operands generalizing place with
  | nil => exact .inl ⟨[], rfl⟩
  | cons b rest ih =>
      by_cases hb : b.kind = c.kind
      · obtain ⟨x, rfl⟩ := hc.kind_eq_iff.1 hb
        rcases ih (place + 1) with ⟨xs, rfl⟩ | ⟨i, a, ha, hkind, hbefore, hread⟩
        · exact .inl ⟨x :: xs, rfl⟩
        · refine .inr ⟨i + 1, a, by simpa using ha, hkind, fun k d hk hd => ?_, ?_⟩
          · cases k with
            | zero =>
                obtain rfl : c.make x = d := by simpa using hd
                exact hb
            | succ k => exact hbefore k d (by omega) (by simpa using hd)
          · rw [readFrom, hc.read_make]
            change (c.readFrom name (place + 1) rest >>= _) = _
            rw [hread, Nat.add_right_comm place 1 i]
            rfl
      · refine .inr ⟨0, b, rfl, hb, fun k _ hk => absurd hk (by omega), ?_⟩
        rw [readFrom, hc.read_of_kind_ne hb]
        rfl

end Content

namespace Signature

variable {σ : Signature} {name : String} {operands : List Atom} {makes : Atom → Prop} {α : Type}
  {c : Content α}

/-- All operands are read, if they are to be of one kind. -/
lemma follows_readFrom (hc : c.Lawful) (hσ : ∀ i, σ.operand i = c.kind)
    (hcount : σ.arity.accepts operands.length = true)
    {k : { values : List α // values.length = operands.length } → Except EvalError Expr}
    (h : ∀ values hvalues, operands = values.map c.make → σ.Fits operands →
      σ.Follows name operands makes (k ⟨values, hvalues⟩)) :
    σ.Follows name operands makes (c.readFrom name 0 operands >>= k) := by
  rcases hc.readFrom_cases name 0 operands with ⟨xs, rfl⟩ | ⟨i, a, ha, hkind, hbefore, hread⟩
  · rw [hc.readFrom_map]
    refine h xs (by simp) rfl fun i a ha => ?_
    rw [List.getElem?_map] at ha
    obtain ⟨x, -, rfl⟩ := Option.map_eq_some_iff.1 ha
    rw [hσ, hc.kind_eq_iff.2 ⟨x, rfl⟩]
  · rw [hread, Nat.zero_add, ← hσ i]
    exact .misfit hcount ⟨ha, by rwa [hσ], fun k b hk hb => by rw [hbefore k b hk hb, hσ]⟩

/-- One operand is read, after those before it have been found right. -/
lemma follows_readAt (hc : c.Lawful) {place : Fin operands.length}
    (hσ : σ.operand place = c.kind) (hcount : σ.arity.accepts operands.length = true)
    (hbefore : σ.FitsBelow operands place) {k : α → Except EvalError Expr}
    (h : ∀ x, operands[place.val]? = some (c.make x) → σ.FitsBelow operands (place + 1) →
      σ.Follows name operands makes (k x)) :
    σ.Follows name operands makes (c.readAt name operands place >>= k) := by
  have hget : operands[place.val]? = some (operands.get place) := by simp
  rw [Content.readAt]
  by_cases hkind : (operands.get place).kind = c.kind
  · obtain ⟨x, hx⟩ := hc.kind_eq_iff.1 hkind
    rw [hx, hc.read_make]
    exact h x (hx ▸ hget) (hbefore.succ hget (hkind.trans hσ.symm))
  · rw [hc.read_of_kind_ne hkind, ← hσ]
    exact .misfit hcount ⟨hget, by rwa [hσ], hbefore⟩

end Signature

/-! ### Procedures of one shape -/

namespace Procedure

open Signature

lemma follows_unaryNumber (name : String) (op : Float → Float) (operands : List Atom) :
    Follows ⟨.exactly 1, fun _ => .number, .number⟩ name operands
      (fun a => ∃ x, operands = [.number x] ∧ a = .number (op x))
      (unaryNumber name op operands) := by
  refine follows_checkArity fun hcount => ?_
  refine follows_readAt Content.lawful_number rfl hcount (fitsBelow_zero _ _)
    fun x hx hbelow => ?_
  obtain ⟨a, rfl⟩ := List.length_eq_one_iff.1 (Arity.eq_of_accepts hcount)
  obtain rfl := Option.some.inj hx
  exact .value hcount hbelow.fits rfl ⟨x, rfl, rfl⟩

lemma follows_ofTwoNumbers {α : Type} (make : α → Atom) {k : Kind} (hmake : ∀ v, (make v).kind = k)
    (name : String) (op : Float → Float → α) (operands : List Atom) :
    Follows ⟨.exactly 2, fun _ => .number, k⟩ name operands
      (fun a => ∃ x y, operands = [.number x, .number y] ∧ a = make (op x y))
      (ofTwoNumbers make name op operands) := by
  refine follows_checkArity fun hcount => ?_
  refine follows_readFrom Content.lawful_number (fun _ => rfl) hcount
    fun values hvalues hoperands hfits => ?_
  obtain ⟨x, y, rfl⟩ := List.length_eq_two.1 (hvalues.trans (Arity.eq_of_accepts hcount))
  exact .value hcount hfits (hmake _) ⟨x, y, hoperands, rfl⟩

lemma follows_fold {α : Type} {c : Content α} (hc : c.Lawful) (name : String) (start : α)
    (op : α → α → α) (operands : List Atom) :
    Follows ⟨.atLeast 2, fun _ => c.kind, c.kind⟩ name operands
      (fun a => ∃ values : List α, operands = values.map c.make
        ∧ a = c.make (values.foldl op start))
      (fold c name start op operands) := by
  refine follows_checkArity fun hcount => ?_
  refine follows_readFrom hc (fun _ => rfl) hcount fun values _ hoperands hfits => ?_
  exact .value hcount hfits (hc.kind_eq_iff.2 ⟨_, rfl⟩) ⟨values, hoperands, rfl⟩

/-! ### Procedures of their own shape -/

lemma follows_negation (operands : List Atom) :
    Follows ⟨.exactly 1, fun _ => .boolean, .boolean⟩ "not" operands
      (fun a => ∃ b, operands = [.boolean b] ∧ a = .boolean (!b)) (negation operands) := by
  refine follows_checkArity fun hcount => ?_
  refine follows_readFrom Content.lawful_boolean (fun _ => rfl) hcount
    fun values hvalues hoperands hfits => ?_
  obtain ⟨b, rfl⟩ := List.length_eq_one_iff.1 (hvalues.trans (Arity.eq_of_accepts hcount))
  exact .value hcount hfits rfl ⟨b, hoperands, rfl⟩

/-- The numbers are as many as the operands. So the count of the numbers never fails, since
that of the operands has failed before. -/
lemma follows_difference (operands : List Atom) :
    Follows ⟨.oneOf 1 2, fun _ => .number, .number⟩ "-" operands
      (fun a => (∃ x, operands = [.number x] ∧ a = .number (-x))
        ∨ ∃ x y, operands = [.number x, .number y] ∧ a = .number (x - y))
      (difference operands) := by
  refine follows_checkArity fun hcount => ?_
  refine follows_readFrom Content.lawful_number (fun _ => rfl) hcount
    fun values hvalues hoperands hfits => ?_
  have hlength : values.length = 1 ∨ values.length = 2 := by
    simpa [Arity.accepts, ← hvalues] using hcount
  rcases hlength with hone | htwo
  · obtain ⟨x, rfl⟩ := List.length_eq_one_iff.1 hone
    exact .value hcount hfits rfl (.inl ⟨x, hoperands, rfl⟩)
  · obtain ⟨x, y, rfl⟩ := List.length_eq_two.1 htwo
    exact .value hcount hfits rfl (.inr ⟨x, y, hoperands, rfl⟩)

lemma follows_makeLine (operands : List Atom) :
    Follows ⟨.exactly 2, fun _ => .point, .line⟩ "line" operands
      (fun a => ∃ p q, operands = [.point p, .point q] ∧ a = .line ⟨p, q⟩)
      (makeLine operands) := by
  refine follows_checkArity fun hcount => ?_
  refine follows_readAt Content.lawful_point rfl hcount (fitsBelow_zero _ _) fun p hp hbelow => ?_
  refine follows_readAt Content.lawful_point rfl hcount hbelow fun q hq hbelow => ?_
  obtain ⟨a, b, rfl⟩ := List.length_eq_two.1 (Arity.eq_of_accepts hcount)
  obtain rfl := Option.some.inj hp
  obtain rfl := Option.some.inj hq
  exact .value hcount hbelow.fits rfl ⟨p, q, rfl, rfl⟩

lemma follows_makeArc (operands : List Atom) :
    Follows ⟨.exactly 3, fun place => if place < 2 then .point else .number, .arc⟩ "arc" operands
      (fun a => ∃ c s x, operands = [.point c, .point s, .number x] ∧ a = .arc ⟨c, s, x⟩)
      (makeArc operands) := by
  refine follows_checkArity fun hcount => ?_
  refine follows_readAt Content.lawful_point rfl hcount (fitsBelow_zero _ _) fun c hc hbelow => ?_
  refine follows_readAt Content.lawful_point rfl hcount hbelow fun s hs hbelow => ?_
  refine follows_readAt Content.lawful_number rfl hcount hbelow fun x hx hbelow => ?_
  obtain ⟨a, b, d, rfl⟩ := List.length_eq_three.1 (Arity.eq_of_accepts hcount)
  obtain rfl := Option.some.inj hc
  obtain rfl := Option.some.inj hs
  obtain rfl := Option.some.inj hx
  exact .value hcount hbelow.fits rfl ⟨c, s, x, rfl, rfl⟩

/-! ### All procedures -/

/-- What a value is, besides being of the right kind: `and` is true of operands that are all
true, `or` if one of them is, and the parts of a figure are the operands in their order. -/
def Describes (operands : List Atom) (a : Atom) : Procedure → Prop
  | and => a = .boolean true ↔ ∀ b ∈ operands, b = .boolean true
  | or => a = .boolean true ↔ ∃ b ∈ operands, b = .boolean true
  | point => ∃ x y, operands = [.number x, .number y] ∧ a = .point ⟨x, y⟩
  | line => ∃ p q, operands = [.point p, .point q] ∧ a = .line ⟨p, q⟩
  | arc => ∃ c s x, operands = [.point c, .point s, .number x] ∧ a = .arc ⟨c, s, x⟩
  | _ => True

lemma foldl_and (start : Bool) (bs : List Bool) :
    bs.foldl Bool.and start = true ↔ start = true ∧ ∀ b ∈ bs, b = true := by
  induction bs generalizing start with
  | nil => simp
  | cons b bs ih =>
      rw [List.foldl_cons, ih]
      simp [and_assoc]

lemma foldl_or (start : Bool) (bs : List Bool) :
    bs.foldl Bool.or start = true ↔ start = true ∨ ∃ b ∈ bs, b = true := by
  induction bs generalizing start with
  | nil => simp
  | cons b bs ih =>
      rw [List.foldl_cons, ih]
      simp [or_assoc]

/-- **All procedures keep to the rule**, each with its own signature and under its own
name. -/
lemma apply_follows (p : Procedure) (operands : List Atom) :
    p.signature.Follows p.name operands (p.Describes operands) (p.apply operands) := by
  cases p with
  | not => exact (follows_negation operands).imp fun _ _ => trivial
  | and =>
      refine (follows_fold Content.lawful_boolean "and" true Bool.and operands).imp ?_
      rintro _ ⟨bs, rfl, rfl⟩
      simp only [Describes, Content.boolean, Atom.boolean.injEq, foldl_and, List.forall_mem_map,
        true_and]
  | or =>
      refine (follows_fold Content.lawful_boolean "or" false Bool.or operands).imp ?_
      rintro _ ⟨bs, rfl, rfl⟩
      simp [Describes, Content.boolean, foldl_or]
  | add | multiply =>
      exact (follows_fold Content.lawful_number _ _ _ operands).imp fun _ _ => trivial
  | subtract => exact (follows_difference operands).imp fun _ _ => trivial
  | log10 | sine | cosine => exact (follows_unaryNumber _ _ operands).imp fun _ _ => trivial
  | less | lessEqual | greater | greaterEqual | equal =>
      rw [apply, compare]
      exact (follows_ofTwoNumbers .boolean (fun _ => rfl) _ _ operands).imp fun _ _ => trivial
  | divide | power | arctangent =>
      rw [apply, binaryNumber]
      exact (follows_ofTwoNumbers .number (fun _ => rfl) _ _ operands).imp fun _ _ => trivial
  | point => exact follows_ofTwoNumbers .point (fun _ => rfl) _ _ operands
  | line => exact follows_makeLine operands
  | arc => exact follows_makeArc operands

/-- No procedure takes a name or gives one. -/
lemma signature_ne_symbol (p : Procedure) :
    (∀ i, p.signature.operand i ≠ .symbol) ∧ p.signature.result ≠ .symbol := by
  cases p with
  | arc =>
      refine ⟨fun i => ?_, by simp [signature]⟩
      dsimp only [signature]
      split_ifs <;> simp
  | _ => simp [signature]

/-- A procedure gives an atom that is not a name. -/
lemma exists_leaf_of_apply {p : Procedure} {operands : List Atom} {v : Expr}
    (hv : p.apply operands = .ok v) : ∃ a, v = .leaf a ∧ a.kind ≠ .symbol := by
  have hfollows := p.apply_follows operands
  rw [hv] at hfollows
  cases hfollows with
  | value _ _ hkind _ =>
      refine ⟨_, rfl, ?_⟩
      rw [hkind]
      exact p.signature_ne_symbol.2

end Procedure

end SketchLisp

import SketchLisp.Proofs.Grammar
import SketchLisp.Proofs.Nodes
import SketchLisp.Proofs.Words

/-!
The written form of an expression reads back.

The brackets and blanks between atoms keep their words apart, so the tokens of
the written form are a derivation of the expression whenever each atom is written
as a plain word that stands for it.

* `Expr.Spellable`: every head is written as a plain word that stands for it;
* `Expr.Spellable.readsBack`: the tokens of its written form derive it;
* `Expr.exists_spells`: the heads of an expression that was read come from plain
  words;
* `parse_text_of_parse`: writing an expression that was read, and reading it
  again, gives the same expression.
-/

namespace SketchLisp

/-! ### Tokens of the written form -/

/-- Whether every head is written as a plain word that stands for it. -/
def Expr.Spellable (e : Expr) : Prop := ∀ n ∈ e.nodes, Word.Spells n.head.text n.head

/-- Characters that start no comment. -/
def CommentFree (cs : List Char) : Prop := ∀ c ∈ cs, Token.role c ≠ .semicolon

lemma CommentFree.append {cs ds : List Char} (hcs : CommentFree cs) (hds : CommentFree ds) :
    CommentFree (cs ++ ds) := by
  intro c hc
  exact (List.mem_append.1 hc).elim (hcs c) (hds c)

lemma CommentFree.cons {c : Char} {cs : List Char} (hc : Token.role c ≠ .semicolon)
    (hcs : CommentFree cs) : CommentFree (c :: cs) := by
  intro d hd
  rcases List.mem_cons.1 hd with rfl | hd
  · exact hc
  · exact hcs d hd

lemma CommentFree.endsOutside {cs : List Char} (h : CommentFree cs) : Token.EndsOutside cs :=
  Token.endsOutside_of_role h

lemma CommentFree.of_plainWord {w : String} (h : Token.PlainWord w) : CommentFree w.toList := by
  intro c hc
  rw [h.2 c hc]
  simp

namespace Expr

/-- The written form has no comment, and its tokens derive the expression. -/
structure ReadsBack (e : Expr) : Prop where
  commentFree : CommentFree e.text.toList
  derives : Derives (Token.kinds e.text.toList) e

/-- Operands behind other characters add the tokens of their derivations. -/
lemma exists_kinds_textEach {es : List Expr} (h : ∀ e ∈ es, e.ReadsBack) :
    CommentFree (textEach es).toList ∧ ∃ ks, DerivesEach ks es ∧ ∀ cs, CommentFree cs →
      Token.kinds (cs ++ (textEach es).toList) = Token.kinds cs ++ ks := by
  induction es with
  | nil =>
      rw [textEach]
      exact ⟨by simp [CommentFree], [], .nil, fun cs _ => by simp⟩
  | cons e es ih =>
      obtain ⟨hfree, ks, hks, hkinds⟩ := ih fun f hf => h f (by simp [hf])
      have he := h e (by simp)
      have hblank : CommentFree (' ' :: e.text.toList) := .cons (by decide) he.commentFree
      have hchars : (textEach (e :: es)).toList
          = ' ' :: e.text.toList ++ (textEach es).toList := by
        simp [textEach]
      -- the first operand joins the characters in front of the others
      rw [hchars]
      refine ⟨hblank.append hfree, Token.kinds e.text.toList ++ ks, .cons he.derives hks, ?_⟩
      intro cs hcs
      rw [← List.append_assoc, hkinds _ (hcs.append hblank),
        Token.kinds_append_blank hcs.endsOutside, List.append_assoc]

/-- A group is written as its bracket, its head, its operands and its closing
bracket. -/
lemma toList_text_node (a : Atom) (e : Expr) (es : List Expr) :
    (text (node a (e :: es))).toList
      = ([] ++ '(' :: (a.text.toList ++ (textEach (e :: es)).toList)) ++ ')' :: [] := by
  simp [text]

/-- **The written form reads back** if every atom does. -/
lemma Spellable.readsBack (e : Expr) : e.Spellable → e.ReadsBack := by
  induction e using Expr.ind with
  | step a es ih =>
      intro h
      have ha : Word.Spells a.text a := h _ (mem_nodes_self _)
      have hword := Token.kinds_of_plainWord ha.plain
      have hfree := CommentFree.of_plainWord ha.plain
      cases es with
      -- a group without operands is written as its word, which derives the same expression
      | nil =>
          refine ⟨by simpa [text] using hfree, ?_⟩
          rw [text, hword]
          exact .word ha.atom
      | cons e es =>
          obtain ⟨hfrees, ks, hks, hkinds⟩ := exists_kinds_textEach fun f hf =>
            ih f hf fun n hn => h n (mem_nodes_of_operand hf hn)
          have hopen : CommentFree ([] ++ '(' :: (a.text.toList ++ (textEach (e :: es)).toList)) :=
            .cons (by decide) (hfree.append hfrees)
          have hnil : CommentFree [] := by simp [CommentFree]
          refine ⟨?_, ?_⟩
          · rw [toList_text_node]
            exact hopen.append (.cons (by decide) hnil)
          · rw [toList_text_node, Token.kinds_append_bracket hopen.endsOutside (k := .closing) rfl,
              Token.kinds_append_bracket hnil.endsOutside (k := .opening) rfl,
              hkinds _ hfree, hword]
            exact .group ha.atom hks

end Expr

/-! ### Expressions that were read -/

/-- Each of several derived expressions is derived by some of the tokens. -/
lemma DerivesEach.exists_of_mem {ks : List Token.Kind} {es : List Expr} (h : DerivesEach ks es)
    {e : Expr} (he : e ∈ es) : ∃ ls, Derives ls e ∧ ls ⊆ ks := by
  induction es generalizing ks with
  | nil => simp at he
  | cons f fs ih =>
      cases h with
      | @cons ls ms _ _ hf hfs =>
          rcases List.mem_cons.1 he with rfl | he
          · exact ⟨ls, hf, List.subset_append_left ls ms⟩
          · obtain ⟨ns, hns, hsub⟩ := ih hfs he
            exact ⟨ns, hns, List.subset_append_of_subset_right ls hsub⟩

/-- The heads of a derived expression come from the words of the derivation. -/
lemma Derives.exists_word (e : Expr) : ∀ {ks : List Token.Kind}, Derives ks e →
    ∀ n ∈ e.nodes, ∃ w, .word w ∈ ks ∧ Word.atom? w = some n.head := by
  induction e using Expr.ind with
  | step a es ih =>
      intro ks h n hn
      rcases Expr.mem_nodes_node.1 hn with rfl | ⟨e, he, hn⟩
      · cases h with
        | word ha => exact ⟨_, by simp, ha⟩
        | group ha hes => exact ⟨_, by simp, ha⟩
      · cases h with
        | word ha => simp at he
        | group ha hes =>
            obtain ⟨ls, hls, hsub⟩ := hes.exists_of_mem he
            obtain ⟨w, hw, hatom⟩ := ih e he hls n hn
            exact ⟨w, by simp [hsub hw], hatom⟩

namespace Expr

/-- The heads of an expression that was read come from plain words. -/
lemma exists_spells {text : String} {e : Expr} (h : parse text = .ok e) {n : Expr}
    (hn : n ∈ e.nodes) : ∃ w, Word.Spells w n.head := by
  obtain ⟨w, hw, hatom⟩ := (Reading.program_eq_ok_iff.1 h).exists_word e n hn
  obtain ⟨t, ht, hkind⟩ := List.mem_map.1 hw
  exact ⟨w, Token.plain_of_mem_scan ht w hkind, hatom⟩

end Expr

/-- **Writing and reading are inverse on programs**: if a text is read as an
expression without infinite numbers, the written form of that expression is read
as the same expression, with the same bits in every number. -/
theorem parse_text_of_parse {text : String} {e : Expr} (h : Expr.parse text = .ok e)
    (hfinite : ∀ n ∈ e.nodes, ∀ x, n.head = .number x → x.isFinite) :
    Expr.parse e.text = .ok e := by
  have hspell : e.Spellable := by
    intro n hn
    obtain ⟨w, hw⟩ := Expr.exists_spells h hn
    exact hw.text (hfinite n hn)
  apply Reading.program_eq_ok_iff.2
  rw [Token.map_kind_scan]
  exact (Expr.Spellable.readsBack e hspell).derives

/-- A call without operands loses its brackets, a boolean its spelling and a number
its digits behind the point, but zero keeps its sign. -/
theorem parse_text_group : ∃ e, Expr.parse "(f (draw) TRUE -0.0)" = .ok e
    ∧ e.text = "(f draw True -0)" ∧ Expr.parse e.text = .ok e := by
  have hparse : Expr.parse "(f (draw) TRUE -0.0)" = .ok (.node (.symbol "f")
      [.leaf (.symbol "draw"), .leaf (.boolean true),
        .leaf (.number (Binary64.ofMagnitude true 0))]) := Expr.parse_of_advance rfl
  refine ⟨_, hparse, by decide, parse_text_of_parse hparse ?_⟩
  intro n hn x hx
  have hx : x = Binary64.ofMagnitude true 0 := by
    simp only [Expr.nodes, Expr.nodesEach, Expr.leaf, List.mem_cons, List.append_nil,
      List.cons_append, List.nil_append, List.not_mem_nil, or_false] at hn
    rcases hn with rfl | rfl | rfl | rfl <;> cases hx
    rfl
  rw [hx]
  decide

end SketchLisp

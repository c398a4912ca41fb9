import Mathlib.Data.List.SplitBy
import SketchLisp.Proofs.Scanning

/-!
Scanning in three passes.

Scanning goes through a text once and has to remember where it stands. The same tokens
come out of passes that remember nothing: each comment is replaced by a blank, line
breaks are left out, and what remains is cut into brackets and the longest runs of other
characters between them and the blanks.

* `withoutComments`: the first pass, and `withoutBreaks` for the second;
* `cut`: the last pass;
* `Scan.pending`: the characters that scanning has taken and not yet given out, which
  stand before the rest of the text for the passes (`map_kind_scanFrom_eq_cut`);
* `scan_eq_cut`: scanning gives the same tokens as the passes.
-/

namespace SketchLisp.Token

/-! ### The passes -/

/-- A text with a blank for each comment: what stands between a semicolon and the next
line break, both of them included, or the end of the text. -/
def withoutComments : List Char → List Char
  | [] => []
  | c :: rest =>
    if c = ';' then ' ' :: withoutComments ((rest.dropWhile fun d => !isLineBreak d).drop 1)
    else c :: withoutComments rest
termination_by cs => cs.length
decreasing_by
  · have := (List.dropWhile_suffix (l := rest) fun d => !isLineBreak d).length_le
    simp only [List.length_drop, List.length_cons]
    omega
  · simp

/-- A text with its line breaks left out. -/
def withoutBreaks (cs : List Char) : List Char := cs.filter fun c => !isLineBreak c

/-- Whether a character stands between words or for itself. -/
def isSeparator (c : Char) : Bool := c == ' ' || c == '(' || c == ')'

/-- What a piece of a text stands for: nothing if it is a blank, a bracket, or a word. -/
def piece? : List Char → Option Kind
  | [' '] => none
  | ['('] => some .opening
  | [')'] => some .closing
  | run => some (.word (String.ofList run))

/-- A text cut into single separators and the longest runs of other characters. -/
def cut (cs : List Char) : List Kind :=
  (cs.splitBy fun c d => !isSeparator c && !isSeparator d).filterMap piece?

/-! ### Cutting -/

/-- A separator is a piece of its own. -/
lemma cut_cons_of_isSeparator {c : Char} (hc : isSeparator c) (cs : List Char) :
    cut (c :: cs) = (piece? [c]).toList ++ cut cs := by
  have hsplit := List.splitBy_append (r := fun c d => !isSeparator c && !isSeparator d)
    (l := [c]) (m := cs) (by simp [hc])
  rw [cut, ← List.singleton_append, hsplit, List.filterMap_append, cut,
    List.splitBy_of_isChain (by simp) (by simp)]
  rw [List.filterMap_cons]
  cases piece? [c] <;> rfl

lemma role_eq_letter {c : Char} (hbreak : ¬ isLineBreak c) (hsemicolon : c ≠ ';')
    (hsep : ¬ isSeparator c) : role c = .letter := by
  rw [role]
  simp_all [isSeparator]

lemma isSeparator_eq_false_of_role {c : Char} (h : role c = .letter) : isSeparator c = false := by
  rw [role] at h
  split_ifs at h
  simp_all [isSeparator]

/-- A run of letters is a word. -/
lemma piece?_of_plainWord {w : String} (h : PlainWord w) : piece? w.toList = some (.word w) := by
  obtain ⟨-, hletters⟩ := h
  rw [piece?.eq_def]
  split
  case h_4 => rw [String.ofList_toList]
  -- the other pieces hold no letter
  all_goals
    next hw =>
      rw [hw] at hletters
      exact absurd (hletters _ (List.mem_singleton_self _)) (by decide)

/-- A word is cut off where a separator or nothing follows it. -/
lemma cut_append_of_plainWord {w : String} (h : PlainWord w) {cs : List Char}
    (hcs : ∀ c ∈ cs.head?, isSeparator c) : cut (w.toList ++ cs) = .word w :: cut cs := by
  have hletter : ∀ c ∈ w.toList, isSeparator c = false := fun c hc =>
    isSeparator_eq_false_of_role (h.2 c hc)
  have hchain : w.toList.IsChain fun c d => (!isSeparator c && !isSeparator d) = true := by
    refine List.Pairwise.isChain (List.pairwise_of_forall_mem_list fun c hc d hd => ?_)
    simp [hletter c hc, hletter d hd]
  rw [cut, List.splitBy_append, List.splitBy_of_isChain h.1 hchain, List.filterMap_append,
    List.filterMap_cons, piece?_of_plainWord h]
  · rfl
  · intro c _ d hd
    simp [hcs d hd]

/-! ### Scanning and cutting -/

namespace Scan

/-- The characters of the word in progress. -/
def pending : Scan → List Char
  | word _ _ text => text.toList
  | gap | comment => []

lemma pending_push (state : Scan) (offset : Nat) (c : Char) :
    (state.push offset c).pending = state.pending ++ [c] := by
  cases state <;> simp [push, pending]

/-- A separator ends the word in progress and gives out the piece that it is. -/
lemma stepOutside_of_isSeparator {c : Char} (hc : isSeparator c) (state : Scan) (offset : Nat) :
    (state.stepOutside offset c).1.map kind = state.flush.map kind ++ (piece? [c]).toList
    ∧ (state.stepOutside offset c).2 = gap := by
  have hcases : c = ' ' ∨ c = '(' ∨ c = ')' := by simpa [isSeparator, or_assoc] using hc
  rcases hcases with rfl | rfl | rfl
  · exact ⟨(List.append_nil _).symm, rfl⟩
  · exact ⟨List.map_append, rfl⟩
  · exact ⟨List.map_append, rfl⟩

/-- Where a word ends, the word in progress is given out and cut off. -/
lemma Plain.cut_pending_append {state : Scan} (h : state.Plain) {cs : List Char}
    (hcs : ∀ c ∈ cs.head?, isSeparator c) :
    cut (state.pending ++ cs) = state.flush.map kind ++ cut cs := by
  cases state with
  | gap | comment => rfl
  | word start stop text => exact cut_append_of_plainWord h hcs

end Scan

/-- The rest of a comment is passed over together with the line break that ends it. -/
lemma map_kind_scanFrom_comment (offset : Nat) (cs : List Char) :
    (scanFrom .comment offset cs).map kind
      = kinds ((cs.dropWhile fun d => !isLineBreak d).drop 1) := by
  induction cs generalizing offset with
  | nil => rfl
  | cons c cs ih =>
      rw [scanFrom_cons]
      cases hc : isLineBreak c with
      | false => simpa [Scan.step, hc] using ih _
      | true => simp [Scan.step, hc, kinds, scanFrom_gap (offset + _)]

lemma withoutBreaks_cons (c : Char) (cs : List Char) : withoutBreaks (c :: cs)
    = if isLineBreak c then withoutBreaks cs else c :: withoutBreaks cs := by
  cases h : isLineBreak c <;> simp [withoutBreaks, h]

/-- One character outside of comments, for scanning and for the passes: what scanning
gives out is cut off, and what it keeps stays before the rest. -/
lemma Scan.Plain.step_cut {state : Scan} (h : state.Plain) (hstate : state ≠ .comment)
    {c : Char} (hc : c ≠ ';') (offset : Nat) (cs : List Char) :
    (state.step offset c).2 ≠ .comment
    ∧ cut (state.pending ++ withoutBreaks (c :: cs))
      = (state.step offset c).1.map kind
        ++ cut ((state.step offset c).2.pending ++ withoutBreaks cs) := by
  rw [Scan.step_of_ne_comment hstate, withoutBreaks_cons]
  by_cases hbreak : isLineBreak c
  · have hstep : state.stepOutside offset c = ([], state) := by
      rw [Scan.stepOutside, role, if_pos hbreak]
    rw [if_pos hbreak, hstep]
    exact ⟨hstate, rfl⟩
  rw [if_neg hbreak]
  by_cases hsep : isSeparator c
  · obtain ⟨hout, hnext⟩ := state.stepOutside_of_isSeparator hsep offset
    rw [hout, hnext, h.cut_pending_append (by simpa using hsep), cut_cons_of_isSeparator hsep,
      List.append_assoc]
    exact ⟨by simp, rfl⟩
  · have hrole : role c = .letter := role_eq_letter hbreak hc hsep
    have hstep : state.stepOutside offset c = ([], state.push offset c) := by
      rw [Scan.stepOutside, hrole]
    rw [hstep, Scan.pending_push, List.append_assoc]
    exact ⟨by cases state <;> simp [Scan.push], rfl⟩

/-- **The passes from the middle on**: what scanning still gives out is what the passes
give for the word in progress and the rest of the text. -/
lemma map_kind_scanFrom_eq_cut (cs : List Char) : ∀ state : Scan, state ≠ .comment →
    state.Plain → ∀ offset, (scanFrom state offset cs).map kind
      = cut (state.pending ++ withoutBreaks (withoutComments cs)) := by
  induction cs using withoutComments.induct with
  | case1 =>
      intro state _ hplain offset
      rw [scanFrom_nil, withoutComments, hplain.cut_pending_append (by simp [withoutBreaks])]
      exact (List.append_nil _).symm
  | case2 rest ih =>
      -- the comment gives way to a blank, behind which scanning starts anew
      intro state hstate hplain offset
      have hstep : state.step offset ';' = (state.flush, .comment) :=
        Scan.step_of_ne_comment hstate offset ';'
      rw [scanFrom_cons, hstep, List.map_append, map_kind_scanFrom_comment, kinds,
        ih .gap (by simp) trivial, withoutComments, if_pos rfl, withoutBreaks_cons,
        if_neg (by decide), hplain.cut_pending_append (by simp [isSeparator]),
        cut_cons_of_isSeparator (by decide)]
      rfl
  | case3 c rest hc ih =>
      intro state hstate hplain offset
      obtain ⟨hnext, hcut⟩ := hplain.step_cut hstate hc offset (withoutComments rest)
      rw [scanFrom_cons, List.map_append, ih _ hnext (hplain.step offset c).2, withoutComments,
        if_neg hc, hcut]

/-- **Scanning in passes**: the tokens of a text are those that remain when each comment
is replaced by a blank, line breaks are left out, and the rest is cut at blanks and
brackets. -/
theorem scan_eq_cut (text : String) :
    (scan text).map kind = cut (withoutBreaks (withoutComments text.toList)) := by
  rw [scan_eq_scanFrom]
  exact map_kind_scanFrom_eq_cut text.toList .gap (by simp) trivial 0

end SketchLisp.Token

import Mathlib.Data.List.Induction
import SketchLisp.Proofs.Scanning

/-!
Texts put together at a separator.

Blanks, brackets and whole comments keep the tokens before them apart from those behind
them, whatever stands on either side, unless the text before ends inside a comment.

* `EndsInComment`: a text that ends inside a comment, with `endsInComment_iff` for where
  scanning stands behind it;
* `scanFrom_append_comment`: texts before and behind a comment are scanned independently;
* `scan_append_separator`: the tokens of two texts around a blank, a bracket or a comment.
-/

namespace SketchLisp.Token

/-! ### The end of a text -/

/-- Whether a text ends inside a comment: behind one of its semicolons no line is broken. -/
def EndsInComment (cs : List Char) : Prop :=
  ∃ before body, cs = before ++ ';' :: body ∧ ∀ c ∈ body, isLineBreak c = false

lemma not_endsInComment_nil : ¬ EndsInComment [] := by
  rintro ⟨before, body, h, -⟩
  simp at h

/-- A character of a text with one more behind it is that one or one of the others. -/
lemma split_concat {cs before after : List Char} {c d : Char}
    (h : cs ++ [d] = before ++ c :: after) :
    (before = cs ∧ c = d ∧ after = [])
      ∨ ∃ rest, after = rest ++ [d] ∧ cs = before ++ c :: rest := by
  rcases List.eq_nil_or_concat after with rfl | ⟨rest, last, rfl⟩
  · obtain ⟨hcs, hd⟩ := List.append_inj' h rfl
    exact .inl ⟨hcs.symm, (List.singleton_inj.1 hd).symm, rfl⟩
  · have h' : cs ++ [d] = (before ++ c :: rest) ++ [last] := by simpa using h
    obtain ⟨hcs, hd⟩ := List.append_inj' h' rfl
    obtain rfl := List.singleton_inj.1 hd
    exact .inr ⟨rest, List.concat_eq_append, hcs⟩

/-- One more character starts a comment, or goes on with it unless it breaks the line. -/
lemma endsInComment_concat_iff {cs : List Char} {c : Char} :
    EndsInComment (cs ++ [c]) ↔ c = ';' ∨ EndsInComment cs ∧ isLineBreak c = false := by
  constructor
  · rintro ⟨before, body, h, hbody⟩
    rcases split_concat h with ⟨-, hc, -⟩ | ⟨rest, rfl, rfl⟩
    · exact .inl hc.symm
    · exact .inr ⟨⟨before, rest, rfl, fun d hd => hbody d (by simp [hd])⟩, hbody c (by simp)⟩
  · rintro (rfl | ⟨⟨before, body, rfl, hbody⟩, hc⟩)
    · exact ⟨cs, [], rfl, by simp⟩
    · refine ⟨before, body ++ [c], by simp, fun d hd => ?_⟩
      rcases List.mem_append.1 hd with hd | hd
      · exact hbody d hd
      · rwa [List.mem_singleton.1 hd]

/-- A line break ends a comment. -/
lemma not_endsInComment_concat {c : Char} (hc : isLineBreak c) (cs : List Char) :
    ¬ EndsInComment (cs ++ [c]) := by
  rw [endsInComment_concat_iff]
  rintro (rfl | ⟨-, hc'⟩)
  · exact absurd hc (by decide)
  · rw [hc] at hc'
    exact absurd hc' (by simp)

/-- Outside of comments, only a semicolon leads into one. -/
lemma not_endsInComment_append {cs : List Char} (h : ¬ EndsInComment cs) {ds : List Char}
    (hds : ∀ d ∈ ds, d ≠ ';') : ¬ EndsInComment (cs ++ ds) := by
  induction ds using List.reverseRecOn with
  | nil => rwa [List.append_nil]
  | append_singleton ds d ih =>
      rw [← List.append_assoc, endsInComment_concat_iff]
      rintro (hd | ⟨hin, -⟩)
      · exact hds d (by simp) hd
      · exact ih (fun d hd => hds d (by simp [hd])) hin

namespace Scan

/-- One character leaves scanning in a comment if it starts one or does not end it. -/
lemma step_eq_comment_iff {state : Scan} {offset : Nat} {c : Char} :
    (state.step offset c).2 = comment ↔ c = ';' ∨ state = comment ∧ isLineBreak c = false := by
  by_cases hstate : state = comment
  · subst hstate
    rw [step]
    cases hbreak : isLineBreak c with
    | false => simp
    | true =>
        have hne : c ≠ ';' := by
          rintro rfl
          exact absurd hbreak (by decide)
        simp [hne]
  · rw [step_of_ne_comment hstate, stepOutside, ← role_eq_semicolon_iff]
    cases role c with
    | lineBreak => simp [hstate]
    | blank => simp [hstate]
    | semicolon => simp
    | bracket kind => simp [hstate]
    | letter =>
        have hpush : state.push offset c ≠ comment := by cases state <;> simp [push]
        simp [hstate, hpush]

lemma run_concat (state : Scan) (offset : Nat) (cs : List Char) (c : Char) :
    (state.run offset (cs ++ [c])).2
      = ((state.run offset cs).2.step (offset + width cs) c).2 := by
  induction cs generalizing state offset with
  | nil => simp [run]
  | cons d cs ih => simp [run, ih, Nat.add_assoc]

end Scan

/-- **Where a text ends**: scanning stands in a comment behind the texts that end in one. -/
lemma endsInComment_iff {cs : List Char} :
    EndsInComment cs ↔ (Scan.run .gap 0 cs).2 = .comment := by
  induction cs using List.reverseRecOn with
  | nil => simp [not_endsInComment_nil, Scan.run]
  | append_singleton cs c ih =>
      rw [endsInComment_concat_iff, Scan.run_concat, Scan.step_eq_comment_iff, ih]

instance (cs : List Char) : Decidable (EndsInComment cs) :=
  decidable_of_iff _ endsInComment_iff.symm

lemma endsOutside_iff {cs : List Char} : EndsOutside cs ↔ ¬ EndsInComment cs := by
  rw [EndsOutside, endsInComment_iff]

/-! ### Comments as separators -/

/-- The body of a comment gives out nothing. -/
lemma scanFrom_comment_append {body : List Char} (h : ∀ c ∈ body, isLineBreak c = false)
    (offset : Nat) (ds : List Char) :
    scanFrom .comment offset (body ++ ds) = scanFrom .comment (offset + width body) ds := by
  induction body generalizing offset with
  | nil => rfl
  | cons c body ih =>
      have hc := h c (by simp)
      rw [List.cons_append, scanFrom_cons, Scan.step, hc]
      simpa [Nat.add_assoc] using ih (fun d hd => h d (by simp [hd])) (offset + c.utf8Size)

/-- Texts before and behind a comment are scanned independently. -/
lemma scanFrom_append_comment {cs : List Char} (h : EndsOutside cs) {body : List Char}
    (hbody : ∀ c ∈ body, isLineBreak c = false) {k : Char} (hk : isLineBreak k) (ds : List Char) :
    scanFrom .gap 0 (cs ++ ';' :: (body ++ k :: ds))
      = scanFrom .gap 0 cs
        ++ (scanFrom .gap 0 ds).map (shift (width (cs ++ ';' :: (body ++ [k])))) := by
  have hopen (offset : Nat) : (Scan.run .gap 0 cs).2.step offset ';'
      = ((Scan.run .gap 0 cs).2.flush, .comment) :=
    Scan.step_of_ne_comment h offset ';'
  have hclose (offset : Nat) : Scan.comment.step offset k = ([], .gap) := by
    rw [Scan.step, if_pos hk]
  rw [scanFrom_append, scanFrom_cons, hopen, scanFrom_comment_append hbody, scanFrom_cons, hclose,
    scanFrom_gap, scanFrom_eq_run .gap 0 cs]
  simp [Nat.add_assoc]

/-- **Texts around a separator**: unless the first of two texts ends in a comment, a blank, a
bracket or a comment between them keeps their tokens apart. The tokens of the second are
those that it has alone, further back by all that precedes them. -/
theorem scan_append_separator {a : String} (ha : ¬ EndsInComment a.toList) (b : String) :
    scan (a ++ " " ++ b) = scan a ++ (scan b).map (shift (a.utf8ByteSize + 1))
    ∧ scan (a ++ "(" ++ b) = scan a ++ ⟨.opening, a.utf8ByteSize, a.utf8ByteSize + 1⟩
      :: (scan b).map (shift (a.utf8ByteSize + 1))
    ∧ scan (a ++ ")" ++ b) = scan a ++ ⟨.closing, a.utf8ByteSize, a.utf8ByteSize + 1⟩
      :: (scan b).map (shift (a.utf8ByteSize + 1))
    ∧ ∀ m k : String, (∀ c ∈ m.toList, c ≠ '\n' ∧ c ≠ '\r') → k = "\n" ∨ k = "\r" →
      scan (a ++ ";" ++ m ++ k ++ b)
        = scan a ++ (scan b).map (shift (a ++ ";" ++ m ++ k).utf8ByteSize) := by
  have hout : EndsOutside a.toList := endsOutside_iff.2 ha
  have htext (c : Char) : (a ++ String.singleton c ++ b).toList = a.toList ++ c :: b.toList := by
    simp
  simp only [scan_eq_scanFrom]
  refine ⟨?_, ?_, ?_, ?_⟩
  · have hblank := scanFrom_append_blank hout b.toList
    rwa [width_toList, ← htext] at hblank
  · have hopening := scanFrom_append_bracket hout (c := '(') rfl b.toList
    rwa [width_toList, ← htext] at hopening
  · have hclosing := scanFrom_append_bracket hout (c := ')') rfl b.toList
    rwa [width_toList, ← htext] at hclosing
  · intro m k hm hk
    have hbody : ∀ c ∈ m.toList, isLineBreak c = false := by
      intro c hc
      simp [isLineBreak, hm c hc]
    obtain ⟨d, hd, rfl⟩ : ∃ d, isLineBreak d ∧ k = String.singleton d := by
      rcases hk with rfl | rfl
      · exact ⟨'\n', rfl, rfl⟩
      · exact ⟨'\r', rfl, rfl⟩
    have hcomment := scanFrom_append_comment hout hbody hd b.toList
    have hall : (a ++ ";" ++ m ++ String.singleton d ++ b).toList
        = a.toList ++ ';' :: (m.toList ++ d :: b.toList) := by simp
    have hbefore : (a ++ ";" ++ m ++ String.singleton d).toList
        = a.toList ++ ';' :: (m.toList ++ [d]) := by simp
    rwa [← hall, ← hbefore, width_toList] at hcomment

/-- Behind a comment that has ended, and with a word of several bytes still open, each
separator does its work. -/
theorem scan_append_separator_open_word :
    scan ("; x\n(é" ++ " " ++ "b") = [⟨.opening, 4, 5⟩, ⟨.word "é", 5, 7⟩, ⟨.word "b", 8, 9⟩]
    ∧ scan ("; x\n(é" ++ ";" ++ "c)" ++ "\r" ++ "b")
      = [⟨.opening, 4, 5⟩, ⟨.word "é", 5, 7⟩, ⟨.word "b", 11, 12⟩] := by
  have hout : ¬ EndsInComment "; x\n(é".toList := by decide
  have hbefore : scan "; x\n(é" = [⟨.opening, 4, 5⟩, ⟨.word "é", 5, 7⟩] := by
    rw [scan_eq_scanFrom]
    decide
  have hbehind : scan "b" = [⟨.word "b", 0, 1⟩] := by
    rw [scan_eq_scanFrom]
    decide
  obtain ⟨hblank, -, -, hcomment⟩ := scan_append_separator hout "b"
  rw [hblank, hcomment "c)" "\r" (by simp) (.inr rfl), hbefore, hbehind]
  exact ⟨rfl, rfl⟩

end SketchLisp.Token

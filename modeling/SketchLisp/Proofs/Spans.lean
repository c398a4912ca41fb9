import SketchLisp.Proofs.Passes
import SketchLisp.Proofs.Separators

/-!
Where tokens stand in a text.

Scanning gives each token the bytes that it takes. These spans follow each other, what stands
in a span is the token itself, and what stands in none is a blank, a line break or part of a
comment.

* `Kind.SpelledBy`: the characters that a token takes;
* `Layout`: tokens laid out in a text, with all that is between them;
* `Laid`: the invariant of scanning: the characters so far are laid out in the tokens so far,
  but for the word in progress. `Laid.step` keeps it over one character and `Laid.layout` over
  the rest of the text;
* `scan_spans`: the spans of the tokens of a text.
-/

namespace SketchLisp.Token

/-! ### The characters of a token -/

/-- A word as it stands in a text. Line breaks inside it are not part of it, and it neither
starts nor ends with one. -/
structure WordPiece (piece : List Char) (w : String) : Prop where
  no_separator : ∀ c ∈ piece, c ≠ ' ' ∧ c ≠ '(' ∧ c ≠ ')' ∧ c ≠ ';'
  starts : ∃ c rest, piece = c :: rest ∧ isLineBreak c = false
  ends : ∃ rest c, piece = rest ++ [c] ∧ isLineBreak c = false
  text : withoutBreaks piece = w.toList

/-- Whether a token takes these characters. -/
def Kind.SpelledBy : Kind → List Char → Prop
  | opening, piece => piece = ['(']
  | closing, piece => piece = [')']
  | word w, piece => WordPiece piece w

lemma Kind.SpelledBy.width_pos {k : Kind} {piece : List Char} (h : k.SpelledBy piece) :
    0 < width piece := by
  obtain ⟨c, rest, rfl⟩ : ∃ c rest, piece = c :: rest := by
    cases k with
    | opening => exact ⟨'(', [], h⟩
    | closing => exact ⟨')', [], h⟩
    | word w =>
        obtain ⟨c, rest, hpiece, -⟩ := h.starts
        exact ⟨c, rest, hpiece⟩
  have := c.utf8Size_pos
  rw [width_cons]
  omega

/-- A bracket stands for itself. -/
lemma spelledBy_of_role {c : Char} {k : Kind} (h : role c = .bracket k) : k.SpelledBy [c] := by
  rw [role] at h
  split_ifs at h with _ _ _ hopening hclosing
  · cases h
    rw [Kind.SpelledBy, beq_iff_eq.1 hopening]
  · cases h
    rw [Kind.SpelledBy, beq_iff_eq.1 hclosing]

namespace WordPiece

/-- A word starts with any letter. -/
lemma singleton {c : Char} (hc : role c = .letter) : WordPiece [c] (String.singleton c) := by
  obtain ⟨hn, hr, hblank, hopening, hclosing, hsemicolon⟩ := role_eq_letter_iff.1 hc
  have hbreak : isLineBreak c = false := by simp [isLineBreak, hn, hr]
  refine ⟨by simp_all, ⟨c, [], rfl, hbreak⟩, ⟨[], c, rfl, hbreak⟩, ?_⟩
  simp [withoutBreaks, hbreak]

/-- A word goes on with any letter, also behind line breaks. -/
lemma concat {piece : List Char} {w : String} (h : WordPiece piece w) {breaks : List Char}
    (hbreaks : ∀ b ∈ breaks, isLineBreak b) {c : Char} (hc : role c = .letter) :
    WordPiece (piece ++ breaks ++ [c]) (w.push c) := by
  obtain ⟨hn, hr, hblank, hopening, hclosing, hsemicolon⟩ := role_eq_letter_iff.1 hc
  have hbreak : isLineBreak c = false := by simp [isLineBreak, hn, hr]
  obtain ⟨first, rest, rfl, hfirst⟩ := h.starts
  refine ⟨fun d hd => ?_, ⟨first, rest ++ breaks ++ [c], by simp, hfirst⟩, ⟨_, c, rfl, hbreak⟩, ?_⟩
  · rw [List.mem_append, List.mem_append, List.mem_singleton] at hd
    rcases hd with (hd | hd) | rfl
    · exact h.no_separator d hd
    · have hd := hbreaks d hd
      refine ⟨?_, ?_, ?_, ?_⟩ <;> rintro rfl <;> exact absurd hd (by decide)
    · exact ⟨hblank, hopening, hclosing, hsemicolon⟩
  · have hnone : withoutBreaks breaks = [] := by
      rw [withoutBreaks, List.filter_eq_nil_iff]
      intro b hb
      simp [hbreaks b hb]
    have htext := h.text
    rw [withoutBreaks] at hnone htext
    rw [withoutBreaks, List.filter_append, List.filter_append, htext, hnone, String.toList_push]
    simp [hbreak]

end WordPiece

/-! ### Tokens laid out in a text -/

/-- A text with tokens laid out in it, from its start on: a character that belongs to no token
is a blank, a line break or part of a comment, and tokens stand outside of comments. -/
inductive Layout : List Char → List Token → Prop
  | nil : Layout [] []
  | pass {cs : List Char} {ts : List Token} (h : Layout cs ts) {c : Char}
      (hc : c = ' ' ∨ isLineBreak c ∨ EndsInComment (cs ++ [c])) : Layout (cs ++ [c]) ts
  | token {cs : List Char} {ts : List Token} (h : Layout cs ts) (hout : ¬ EndsInComment cs)
      {k : Kind} {piece : List Char} (hk : k.SpelledBy piece) :
      Layout (cs ++ piece) (ts ++ [⟨k, width cs, width cs + width piece⟩])

namespace Layout

/-- Line breaks are passed over. -/
lemma append_breaks {cs : List Char} {ts : List Token} (h : Layout cs ts) {breaks : List Char}
    (hbreaks : ∀ b ∈ breaks, isLineBreak b) : Layout (cs ++ breaks) ts := by
  induction breaks generalizing cs with
  | nil => rwa [List.append_nil]
  | cons b breaks ih =>
      rw [← List.singleton_append, ← List.append_assoc]
      exact ih (h.pass (.inr (.inl (hbreaks b (by simp))))) fun d hd => hbreaks d (by simp [hd])

/-- Each token stands where its span says. -/
lemma exists_piece {cs : List Char} {ts : List Token} (h : Layout cs ts) {t : Token} (ht : t ∈ ts) :
    ∃ before piece after, cs = before ++ piece ++ after ∧ t.start = width before
      ∧ t.stop = width before + width piece ∧ t.kind.SpelledBy piece ∧ ¬ EndsInComment before := by
  induction h with
  | nil => simp at ht
  | @pass cs ts h c hc ih =>
      obtain ⟨before, piece, after, rfl, hpiece⟩ := ih ht
      exact ⟨before, piece, after ++ [c], by simp, hpiece⟩
  | @token cs ts h hout k piece hk ih =>
      rcases List.mem_append.1 ht with ht | ht
      · obtain ⟨before, piece', after, rfl, hpiece⟩ := ih ht
        exact ⟨before, piece', after ++ piece, by simp, hpiece⟩
      · rw [List.mem_singleton] at ht
        subst ht
        exact ⟨cs, piece, [], by simp, rfl, rfl, hk, hout⟩

/-- No token takes bytes behind the end. -/
lemma stop_le {cs : List Char} {ts : List Token} (h : Layout cs ts) {t : Token} (ht : t ∈ ts) :
    t.stop ≤ width cs := by
  obtain ⟨before, piece, after, rfl, -, hstop, -, -⟩ := h.exists_piece ht
  simp only [width_append]
  omega

/-- The spans follow each other. -/
lemma pairwise {cs : List Char} {ts : List Token} (h : Layout cs ts) :
    ts.Pairwise fun t u => t.stop ≤ u.start := by
  induction h with
  | nil => exact .nil
  | pass h hc ih => exact ih
  | @token cs ts h hout k piece hk ih =>
      rw [List.pairwise_append]
      refine ⟨ih, List.pairwise_singleton _ _, fun t ht u hu => ?_⟩
      rw [List.mem_singleton.1 hu]
      exact h.stop_le ht

/-- A character outside of all spans has been passed over. -/
lemma passed {cs : List Char} {ts : List Token} (h : Layout cs ts) {before after : List Char}
    {c : Char} (hcs : cs = before ++ c :: after)
    (hout : ∀ t ∈ ts, width before < t.start ∨ t.stop ≤ width before) :
    c = ' ' ∨ isLineBreak c ∨ EndsInComment (before ++ [c]) := by
  induction h generalizing after with
  | nil => simp at hcs
  | @pass cs ts h d hd ih =>
      rcases split_concat hcs with ⟨rfl, rfl, -⟩ | ⟨rest, -, rfl⟩
      · exact hd
      · exact ih rfl hout
  | @token cs ts h _ k piece hk ih =>
      have hts : ∀ t ∈ ts, width before < t.start ∨ t.stop ≤ width before := fun t ht =>
        hout t (by simp [ht])
      have hspan := hout ⟨k, width cs, width cs + width piece⟩ (by simp)
      rcases List.append_eq_append_iff.1 hcs with ⟨inner, rfl, hpiece⟩ | ⟨inner, rfl, hinner⟩
      · -- the character would stand in the span of the last token
        have hc := c.utf8Size_pos
        simp only [hpiece, width_append, width_cons] at hspan
        omega
      · cases inner with
        | nil =>
            have hc := c.utf8Size_pos
            rw [List.nil_append] at hinner
            simp only [← hinner, List.append_nil, width_cons] at hspan
            omega
        | cons d rest =>
            obtain ⟨rfl, -⟩ := List.cons.inj hinner
            exact ih rfl hts

end Layout

/-! ### Scanning lays tokens out -/

/-- Where scanning stands when it has given out the tokens `ts`: the characters so far are laid
out in them, but for the word in progress and line breaks behind it. -/
inductive Laid (ts : List Token) : List Char → Scan → Prop
  | gap {cs : List Char} (h : Layout cs ts) (hout : ¬ EndsInComment cs) : Laid ts cs .gap
  | comment {cs : List Char} (h : Layout cs ts) (hin : EndsInComment cs) : Laid ts cs .comment
  | word {before : List Char} (h : Layout before ts) (hout : ¬ EndsInComment before)
      {piece : List Char} {w : String} (hpiece : WordPiece piece w)
      {breaks : List Char} (hbreaks : ∀ b ∈ breaks, isLineBreak b) :
      Laid ts (before ++ piece ++ breaks) (.word (width before) (width before + width piece) w)

namespace Laid

/-- Giving out the word in progress leaves nothing to lay out. -/
lemma flush {ts : List Token} {cs : List Char} {state : Scan} (h : Laid ts cs state) :
    Layout cs (ts ++ state.flush) := by
  cases h with
  | gap h _ => rwa [Scan.flush, List.append_nil]
  | comment h _ => rwa [Scan.flush, List.append_nil]
  | word h hout hpiece hbreaks =>
      exact (h.token hout (k := .word _) hpiece).append_breaks hbreaks

lemma not_endsInComment {ts : List Token} {cs : List Char} {state : Scan} (h : Laid ts cs state)
    (hstate : state ≠ .comment) : ¬ EndsInComment cs := by
  cases h with
  | gap _ hout => exact hout
  | comment => exact absurd rfl hstate
  | word _ hout hpiece hbreaks =>
      rw [List.append_assoc]
      refine not_endsInComment_append hout fun d hd => ?_
      rcases List.mem_append.1 hd with hd | hd
      · exact (hpiece.no_separator d hd).2.2.2
      · rintro rfl
        exact absurd (hbreaks _ hd) (by decide)

/-- A line break is passed over, or stands behind the word in progress. -/
lemma concat_lineBreak {ts : List Token} {cs : List Char} {state : Scan} (h : Laid ts cs state)
    (hstate : state ≠ .comment) {c : Char} (hc : isLineBreak c) : Laid ts (cs ++ [c]) state := by
  cases h with
  | gap h _ => exact .gap (h.pass (.inr (.inl hc))) (not_endsInComment_concat hc _)
  | comment => exact absurd rfl hstate
  | word h hout hpiece hbreaks =>
      rw [List.append_assoc]
      refine .word h hout hpiece fun b hb => ?_
      rcases List.mem_append.1 hb with hb | hb
      · exact hbreaks b hb
      · rwa [List.mem_singleton.1 hb]

/-- A letter starts a word or goes on with the one in progress. -/
lemma concat_letter {ts : List Token} {cs : List Char} {state : Scan} (h : Laid ts cs state)
    (hstate : state ≠ .comment) {c : Char} (hc : role c = .letter) :
    Laid ts (cs ++ [c]) (state.push (width cs) c) := by
  have hnone : ∀ b ∈ ([] : List Char), isLineBreak b := by simp
  cases h with
  | gap h hout => simpa [Scan.push] using Laid.word h hout (.singleton hc) hnone
  | comment => exact absurd rfl hstate
  | word h hout hpiece hbreaks =>
      simpa [Scan.push, Nat.add_assoc] using Laid.word h hout (hpiece.concat hbreaks hc) hnone

/-- **One character** is laid out with the tokens that it gives out. -/
lemma step {ts : List Token} {cs : List Char} {state : Scan} (h : Laid ts cs state) (c : Char) :
    Laid (ts ++ (state.step (width cs) c).1) (cs ++ [c]) (state.step (width cs) c).2 := by
  by_cases hstate : state = .comment
  · subst hstate
    cases h with
    | comment h hin =>
        rw [Scan.step, List.append_nil]
        cases hc : isLineBreak c with
        | true => exact .gap (h.pass (.inr (.inl hc))) (not_endsInComment_concat hc cs)
        | false =>
            have hin' := endsInComment_concat_iff.2 (.inr ⟨hin, hc⟩)
            exact .comment (h.pass (.inr (.inr hin'))) hin'
  · have hlayout := h.flush
    have hout := h.not_endsInComment hstate
    have hout' : c ≠ ';' → ¬ EndsInComment (cs ++ [c]) := fun hc =>
      not_endsInComment_append hout (by simpa using hc)
    rw [Scan.step_of_ne_comment hstate, Scan.stepOutside]
    cases hrole : role c with
    | lineBreak =>
        rw [List.append_nil]
        exact h.concat_lineBreak hstate (role_eq_lineBreak_iff.1 hrole)
    | blank =>
        obtain rfl := role_eq_blank_iff.1 hrole
        exact .gap (hlayout.pass (.inl rfl)) (hout' (by decide))
    | semicolon =>
        have hin : EndsInComment (cs ++ [c]) :=
          endsInComment_concat_iff.2 (.inl (role_eq_semicolon_iff.1 hrole))
        exact .comment (hlayout.pass (.inr (.inr hin))) hin
    | bracket k =>
        refine .gap ?_ (hout' ?_)
        · rw [← List.append_assoc]
          exact hlayout.token hout (spelledBy_of_role hrole)
        · rintro rfl
          exact absurd hrole (by simp [role, isLineBreak])
    | letter =>
        rw [List.append_nil]
        exact h.concat_letter hstate hrole

/-- **A whole run** lays the rest of the text out. -/
lemma layout {ts : List Token} {cs : List Char} {state : Scan} (h : Laid ts cs state)
    (ds : List Char) : Layout (cs ++ ds) (ts ++ scanFrom state (width cs) ds) := by
  induction ds generalizing ts cs state with
  | nil =>
      rw [List.append_nil, scanFrom_nil]
      exact h.flush
  | cons c ds ih =>
      have hrest := ih (h.step c)
      simpa [scanFrom_cons] using hrest

end Laid

/-- The tokens of a text are laid out in it. -/
lemma layout_scan (text : String) : Layout text.toList (scan text) := by
  rw [scan_eq_scanFrom]
  exact (Laid.gap .nil not_endsInComment_nil).layout text.toList

/-- **Spans are exact and lose nothing**: each token of a text stands in the bytes of its span,
which lie between characters and outside of comments. The spans are in order and do not
overlap, and a character outside of all of them is a blank, a line break or part of a comment. -/
theorem scan_spans (text : String) :
    (∀ t ∈ scan text, t.start < t.stop ∧ ∃ before piece after : String,
      text = before ++ piece ++ after ∧ before.utf8ByteSize = t.start
      ∧ (before ++ piece).utf8ByteSize = t.stop ∧ t.kind.SpelledBy piece.toList
      ∧ ¬ EndsInComment before.toList)
    ∧ (scan text).Pairwise (fun t u => t.stop ≤ u.start)
    ∧ ∀ (before after : String) (c : Char), text = before ++ String.singleton c ++ after →
      (∀ t ∈ scan text, before.utf8ByteSize < t.start ∨ t.stop ≤ before.utf8ByteSize) →
        c = ' ' ∨ c = '\n' ∨ c = '\r' ∨ EndsInComment (before.toList ++ [c]) := by
  have hlayout := layout_scan text
  refine ⟨fun t ht => ?_, hlayout.pairwise, fun before after c htext hout => ?_⟩
  · obtain ⟨before, piece, after, htext, hstart, hstop, hpiece, hcomment⟩ := hlayout.exists_piece ht
    have hpos := hpiece.width_pos
    refine ⟨by omega, .ofList before, .ofList piece, .ofList after, ?_, ?_, ?_, ?_, ?_⟩
    · rw [← String.ofList_append, ← String.ofList_append, ← htext, String.ofList_toList]
    · rw [utf8ByteSize_ofList, hstart]
    · rw [String.utf8ByteSize_append, utf8ByteSize_ofList, utf8ByteSize_ofList, hstop]
    · rwa [String.toList_ofList]
    · rwa [String.toList_ofList]
  · have hchars : text.toList = before.toList ++ c :: after.toList := by simp [htext]
    have hpassed := hlayout.passed hchars (by simpa using hout)
    simpa [isLineBreak, or_assoc] using hpassed

/-- A word with a line break inside takes the bytes of the break as well, and the bracket behind
the semicolon, which belongs to no token, is part of a comment. -/
theorem scan_spans_broken_word :
    scan "é\nb ;)\n(" = [⟨.word "éb", 0, 4⟩, ⟨.opening, 8, 9⟩]
    ∧ (∃ before piece after : String, "é\nb ;)\n(" = before ++ piece ++ after
      ∧ before.utf8ByteSize = 0 ∧ (before ++ piece).utf8ByteSize = 4
      ∧ (Kind.word "éb").SpelledBy piece.toList)
    ∧ EndsInComment ("é\nb ;".toList ++ [')']) := by
  have hscan : scan "é\nb ;)\n(" = [⟨.word "éb", 0, 4⟩, ⟨.opening, 8, 9⟩] := by
    rw [scan_eq_scanFrom]
    decide
  obtain ⟨hspan, -, hpassed⟩ := scan_spans "é\nb ;)\n("
  rw [hscan] at hspan hpassed
  obtain ⟨-, before, piece, after, htext, hstart, hstop, hpiece, -⟩ := hspan _ (.head _)
  refine ⟨hscan, ⟨before, piece, after, htext, hstart, hstop, hpiece⟩, ?_⟩
  have hbracket := hpassed "é\nb ;" "\n(" ')' (by decide) (by decide)
  simpa using hbracket

end SketchLisp.Token

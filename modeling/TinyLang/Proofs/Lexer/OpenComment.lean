import TinyLang.Proofs.Lexer.Ahead

/-!
# Comments that are not closed

A text ends in a comment that is not closed if it is a gap and behind it two slashes with no
line end after them (`Lexer.EndsInComment`). A source that cannot be read behind such a text
leaves a scanner inside the comment, and nothing else does (`Scanner.closes_nextToken`).
-/

namespace TinyLang

namespace Lexer

variable {text line : List Char} {c : Char}

/-- Whether a text is a gap and behind it a comment that is not closed. -/
def EndsInComment (text : List Char) : Prop :=
  ∃ gap line, text = gap ++ '/' :: '/' :: line ∧ '\n' ∉ line ∧ Gap ('/' :: '/' :: line) gap

theorem not_endsInComment_nil : ¬ EndsInComment [] := by
  rintro ⟨gap, line, h, -⟩
  cases gap <;> cases h

theorem endsInComment_cons_iff (hc : Text.isBlank c = true) :
    EndsInComment (c :: text) ↔ EndsInComment text := by
  constructor
  · rintro ⟨gap, line, h, hline, hgap⟩
    cases hgap with
    | nil =>
      cases h
      exact absurd hc (by decide)
    | blank _ hgap =>
      cases h
      exact ⟨_, line, rfl, hline, hgap⟩
    | comment =>
      cases h
      exact absurd hc (by decide)
  · rintro ⟨gap, line, rfl, hline, hgap⟩
    exact ⟨c :: gap, line, rfl, hline, .blank hc hgap⟩

/-- Blanks before it make no difference. -/
theorem endsInComment_dropWhile :
    EndsInComment (text.dropWhile Text.isBlank) ↔ EndsInComment text := by
  induction text with
  | nil => rfl
  | cons c text ih =>
    by_cases hc : Text.isBlank c = true
    · rw [List.dropWhile_cons_of_pos hc, ih, endsInComment_cons_iff hc]
    · rw [List.dropWhile_cons_of_neg hc]

/-- Behind two slashes the comment is not closed, or it is and another one behind it is not. -/
def CommentOpen (line : List Char) : Prop :=
  '\n' ∉ line ∨ EndsInComment (line.dropWhile (· != '\n'))

theorem commentOpen_cons_iff (hc : c ≠ '\n') : CommentOpen (c :: line) ↔ CommentOpen line := by
  rw [CommentOpen, CommentOpen, List.mem_cons,
    List.dropWhile_cons_of_pos (p := (· != '\n')) (by simpa using hc)]
  simp [hc.symm]

theorem endsInComment_slashes_iff :
    EndsInComment ('/' :: '/' :: line) ↔ CommentOpen line := by
  constructor
  · rintro ⟨gap, rest, h, hrest, hgap⟩
    cases hgap with
    | nil =>
      cases h
      exact .inl hrest
    | blank hc =>
      obtain rfl := List.head_eq_of_cons_eq h
      exact absurd hc (by decide)
    | @comment body gap hbody hhead hgap =>
      obtain rfl : line = body ++ (gap ++ '/' :: '/' :: rest) := by simpa using h
      refine .inr ⟨gap, rest, ?_, hrest, hgap⟩
      have hkeep : ∀ d ∈ body, (d != '\n') = true := fun d hd => by
        simpa using ne_of_mem_of_not_mem hd hbody
      rw [List.dropWhile_append_of_pos hkeep]
      cases htail : gap ++ '/' :: '/' :: rest with
      | nil => rfl
      | cons d tail =>
        obtain rfl := hhead d (by rw [htail, List.head?_cons])
        rw [List.dropWhile_cons_of_neg (by decide)]
  · rintro (h | ⟨gap, rest, hdrop, hrest, hgap⟩)
    · exact ⟨[], line, rfl, h, .nil⟩
    · have hsplit := List.takeWhile_append_dropWhile (p := (· != '\n')) (l := line)
      refine ⟨'/' :: '/' :: line.takeWhile (· != '\n') ++ gap, rest, ?_, hrest,
        hgap.append_comment hdrop⟩
      rw [List.append_assoc, ← hdrop, List.cons_append, List.cons_append, hsplit]

/-- A text that ends in a comment starts with two slashes, if not with a blank. -/
theorem EndsInComment.slashes (h : EndsInComment (c :: text)) (hc : Text.isBlank c = false) :
    ∃ line, c :: text = '/' :: '/' :: line := by
  obtain ⟨gap, line, h, -, hgap⟩ := h
  cases hgap with
  | nil => exact ⟨line, h⟩
  | blank hblank =>
    cases h
    rw [hblank] at hc
    cases hc
  | comment => exact ⟨_, h⟩

end Lexer

namespace Scanner

open Lexer

variable {s t : Scanner} {e : LexError}

/-- Whether what is ahead ends in a comment that is not closed. -/
def Unclosed (s : Scanner) : Prop :=
  if s.inComment then CommentOpen s.ahead else EndsInComment s.ahead

theorem not_endsInComment_of_skipBlanks_error (h : s.skipBlanks = .error e t) :
    ¬ EndsInComment s.ahead := by
  have hahead := ahead_skipBlanks s
  rw [h, Scanned.scanner_error, (ahead_of_skipBlanks_error h).1] at hahead
  rw [← endsInComment_dropWhile, ← hahead]
  exact not_endsInComment_nil

theorem ahead_ne_nil_of_skipBlanks_error (h : s.skipBlanks = .error e t) : s.ahead ≠ [] := by
  intro hnil
  have hcurrent : s.current = none := by rw [← head?_ahead, hnil, List.head?_nil]
  rw [skipBlanks_of_current hcurrent] at h
  cases h

/-- Behind the rest of a comment, what is ahead ends in one if and only if the whole does. -/
theorem unclosed_iff_of_leaveComment_ok (h : s.leaveComment = .ok () t) (hne : t.ahead ≠ []) :
    s.Unclosed ↔ EndsInComment t.ahead := by
  unfold leaveComment at h
  unfold Unclosed
  split at h
  · next hin =>
    have hahead := ahead_skipComment s
    rw [h, Scanned.scanner_ok] at hahead
    rw [if_pos hin, CommentOpen, ← hahead]
    refine or_iff_right fun hline => hne ?_
    rw [hahead, List.dropWhile_eq_nil_iff]
    exact fun d hd => by simpa using ne_of_mem_of_not_mem hd hline
  · next hin =>
    cases h
    rw [if_neg hin]

/-- A source that cannot be read in a comment leaves the scanner inside it, and the comment is
    not closed. -/
theorem unclosed_of_leaveComment_error (h : s.leaveComment = .error e t) :
    t.inComment = true ∧ s.Unclosed := by
  obtain ⟨hin, hs⟩ := skipComment_of_leaveComment_error h
  have hahead := ahead_skipComment s
  rw [hs, Scanned.scanner_error, (ahead_of_skipComment_error hs).1] at hahead
  rw [Unclosed, if_pos hin]
  refine ⟨(inComment_of_skipComment_error hs).trans hin, .inl fun hmem => ?_⟩
  simpa using List.dropWhile_eq_nil_iff.1 hahead.symm _ hmem

/-- A gap that cannot be read leaves the scanner inside a comment if and only if what was
    ahead ends in one. -/
theorem inComment_of_skipGap_error (h : s.skipGap = .error e t) :
    t.inComment = true ↔ s.Unclosed := by
  rw [skipGap_eq] at h
  rcases Scanned.andThen_eq_error h with h | ⟨_, u, hu, h⟩
  · obtain ⟨hin, hunclosed⟩ := unclosed_of_leaveComment_error h
    exact iff_of_true hin hunclosed
  · have hin := inComment_skipBlanks u
    rw [h, inComment_of_leaveComment_ok hu, Scanned.scanner_error] at hin
    rw [unclosed_iff_of_leaveComment_ok hu (ahead_ne_nil_of_skipBlanks_error h), hin]
    exact iff_of_false Bool.false_ne_true (not_endsInComment_of_skipBlanks_error h)

/-- What stands behind a gap is outside any comment, and starts with no blank. It ends in a
    comment if and only if the whole does. -/
theorem unclosed_of_skipGap_ok (h : s.skipGap = .ok () t) :
    t.inComment = false ∧ (∀ c, t.current = some c → Text.isBlank c = false) ∧
      (t.ahead ≠ [] → (s.Unclosed ↔ EndsInComment t.ahead)) := by
  rw [skipGap_eq] at h
  obtain ⟨_, u, hu, h⟩ := Scanned.andThen_eq_ok h
  have hahead := ahead_skipBlanks u
  have hin := inComment_skipBlanks u
  rw [h, Scanned.scanner_ok] at hahead hin
  refine ⟨hin.trans (inComment_of_leaveComment_ok hu), fun c hc => ?_, fun hne => ?_⟩
  · rw [← head?_ahead, hahead] at hc
    exact stops_dropWhile _ _ _ hc
  · have hune : u.ahead ≠ [] := by
      rintro hnil
      rw [hnil] at hahead
      exact hne hahead
    rw [unclosed_iff_of_leaveComment_ok hu hune, hahead, endsInComment_dropWhile]

/-- Whether scanning leaves the scanner inside a comment: never with a token, and with an error
    if and only if what was ahead ends in a comment and the source could not be read there. -/
def Closes (s : Scanner) : Scanned Token → Prop
  | .ok _ t => t.inComment = false
  | .error e t => (t.inComment = true ↔ s.Unclosed) ∧
      (t.inComment = true → ∃ cause, e.fault = .unreadable cause)

theorem closes_nextToken (s : Scanner) : Closes s s.nextToken := by
  fun_induction nextToken s with
  | case1 s e t hg =>
    exact ⟨inComment_of_skipGap_error hg, fun _ => unreadable_of_skipGap_error hg⟩
  | case2 s t hg hc => exact (unclosed_of_skipGap_ok hg).1
  | case3 s t hg c hc e u hl =>
    obtain ⟨hin, hblank, hiff⟩ := unclosed_of_skipGap_ok hg
    have hahead := ahead_of_current hc
    have htakes := takes_lexeme hc
    rw [hl] at htakes
    have hunclosed : (∀ v, t.ahead ≠ '/' :: '/' :: v) → ¬ s.Unclosed := fun hslashes h => by
      rw [hiff (by simp [hahead]), hahead] at h
      obtain ⟨v, hv⟩ := h.slashes (hblank c hc)
      exact hslashes v (hahead.trans hv)
    cases htakes with
    | fault hslashes hleaves =>
      have hu : u.inComment = false := hleaves.inComment.trans hin
      simp [Closes, hu, hunclosed hslashes]
    | illegal hslashes _ => simp [Closes, hin, hunclosed hslashes]
  | case4 s t hg c hc token u hl =>
    have htakes := takes_lexeme hc
    rw [hl] at htakes
    cases htakes with
    | token _ hleaves => exact hleaves.inComment.trans (unclosed_of_skipGap_ok hg).1
  | case5 s t hg c hc u hl ih =>
    -- a comment starts: what is ahead ends in a comment if and only if the line of this one
    -- is not closed, or something behind it ends in one
    have htakes := takes_lexeme hc
    rw [hl] at htakes
    cases htakes with
    | comment ht hu hin =>
      have hiff : u.Unclosed ↔ s.Unclosed := by
        rw [(unclosed_of_skipGap_ok hg).2.2 (by simp [ht]), ht, endsInComment_slashes_iff,
          Unclosed, if_pos hin, hu, commentOpen_cons_iff (by decide)]
      generalize u.nextToken = r at ih ⊢
      cases r with
      | ok token t => exact ih
      | error e t => exact ⟨ih.1.trans hiff, ih.2⟩

end Scanner

end TinyLang

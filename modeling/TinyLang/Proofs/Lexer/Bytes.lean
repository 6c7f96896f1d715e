import TinyLang.Proofs.Lexer.Failure
import TinyLang.Proofs.Source.LineReader

/-!
# Lexing bytes

Bytes that stand for a text have the tokens of that text, although they are read line by
line. Of other bytes the lines before the first one that is not UTF-8 have their tokens, or
their first error; else the fault is found at the first character of that line
(`lexBytes_line_by_line`).
-/

namespace TinyLang

/-- The fault in a line that is not UTF-8. -/
def LexError.notUtf8At (line : Nat) : LexError := ⟨⟨line, 1⟩, .unreadable .notUtf8⟩

namespace Text

variable {texts : List String}

theorem count_newline_join (h : ∀ text ∈ texts, IsLine text) :
    (String.join texts).toList.count '\n' = texts.length := by
  induction texts with
  | nil => rfl
  | cons text texts ih =>
    obtain ⟨⟨cs, hcs, hnot⟩, htexts⟩ := List.forall_mem_cons.1 h
    rw [String.join_cons, String.toList_append, List.count_append, ih htexts, hcs,
      List.count_append, List.count_eq_zero_of_not_mem hnot, List.length_cons]
    exact Nat.add_comm _ _

/-- Lines one after the other are no text, or they end with a line end. -/
theorem join_lines_cases (h : ∀ text ∈ texts, IsLine text) :
    (String.join texts).toList = [] ∨ ∃ cs, (String.join texts).toList = cs ++ ['\n'] := by
  rcases List.eq_nil_or_concat texts with rfl | ⟨before, text, rfl⟩
  · exact .inl rfl
  · rw [List.concat_eq_append] at *
    obtain ⟨cs, hcs, -⟩ := h text (by simp)
    refine .inr ⟨(String.join before).toList ++ cs, ?_⟩
    rw [String.join_append, String.join_cons, String.join_nil, String.append_empty,
      String.toList_append, hcs, List.append_assoc]

theorem lineEnds_join (h : ∀ text ∈ texts, IsLine text) :
    Lexer.LineEnds (String.join texts).toList := by
  intro c hc
  rcases join_lines_cases h with hnil | ⟨cs, hcs⟩
  · rw [hnil] at hc
    cases hc
  · rw [hcs, List.getLast?_concat] at hc
    exact (Option.some.inj hc).symm

/-- Behind lines comes the first character of the next one. -/
theorem behind_join (h : ∀ text ∈ texts, IsLine text) :
    Position.behind (String.join texts).toList = ⟨texts.length + 1, 1⟩ := by
  have hcolumn : (Position.behind (String.join texts).toList).column = 1 := by
    rcases join_lines_cases h with hnil | ⟨cs, hcs⟩
    · rw [hnil]
      rfl
    · rw [hcs, Position.behind_append_newline]
      rfl
  have hline : (Position.behind (String.join texts).toList).line = texts.length + 1 :=
    congrArg (· + 1) (count_newline_join h)
  rw [← hline, ← hcolumn]

end Text

/-- What bytes that are read line by line have for tokens, or for an error. -/
theorem lexBytes_line_by_line (bytes : List UInt8) :
    (∀ n, ((LineReader.ofBytes bytes).after n).next.1 =
      ((Source.ofBytes bytes).after n).next.1) ∧
    match Source.decode bytes with
    | .ok text =>
      (∀ n, ((LineReader.ofBytes bytes).after n).next.1 = .ok text.toList[n]?) ∧
        lexBytes bytes = lex text
    | .error _ =>
      ∃ (texts : List String) (more : List (Except ReadError String)),
        Source.byteLines bytes = texts.map .ok ++ .error .notUtf8 :: more ∧
        (LexError.notUtf8At (texts.length + 1)).code.text = "E0002" ∧
        lexBytes bytes =
          match lex (String.join texts) with
          | .error e => .error e
          | .ok _ => .error (.notUtf8At (texts.length + 1)) := by
  refine ⟨LineReader.next_after bytes, ?_⟩
  cases hdecode : Source.decode bytes with
  | ok text =>
    have hsource := Source.ofBytes_of_decode hdecode
    refine ⟨fun n => ?_, congrArg lexSource hsource⟩
    rw [LineReader.next_after, hsource]
    exact Source.next_after_ofChars text.toList n
  | error e =>
    obtain ⟨texts, more, hlines, htexts⟩ := Source.exists_byteLines_of_error hdecode
    refine ⟨texts, more, hlines, rfl, ?_⟩
    -- the source fails behind the lines that are UTF-8
    have hsource : Source.ofBytes bytes = (Source.ofText (String.join texts)).append
        ⟨.error .notUtf8 :: more.flatMap Source.lineReads, none⟩ := by
      rw [Source.ofBytes, hlines, List.flatMap_append, Source.flatMap_lineReads]
      rfl
    rw [lexBytes, hsource, lexSource_append rfl (Text.lineEnds_join htexts),
      Text.behind_join htexts]
    rfl

example : lexBytes [0x61, 0x0A, 0xFF, 0x0A] = .error (.notUtf8At 2) := by decide +kernel

end TinyLang

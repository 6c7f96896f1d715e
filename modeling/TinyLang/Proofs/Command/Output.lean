import TinyLang.Proofs.Lexer.Uniqueness
import TinyLang.Report

/-!
# The last line of the output

The output is lines, one for each event that is told of there, so it ends with the line of
the last such event (`Report.output_eq_join`). The lines about tokens, matches and errors
are told apart from the one that says that a source was accepted by their last character:
they end with a character of a word, a digit, a quote or a blank, and not with a full stop
(`Report.Event.Told`).
-/

namespace TinyLang

/-- Whether a text is lines of which the last one is `line`. -/
def Text.EndsWithLine (text line : String) : Prop :=
  ∃ before, text = before ++ line ++ "\n" ∧ (before = "" ∨ ∃ s, before = s ++ "\n")

namespace Text

variable {s t : String}

/-! ## Last characters -/

/-- Whether a text has a last character, which is no full stop. -/
def Unstopped (s : String) : Prop := ∃ c, s.toList.getLast? = some c ∧ c ≠ '.'

theorem Unstopped.append (h : Unstopped t) (s : String) : Unstopped (s ++ t) := by
  obtain ⟨c, hc, hne⟩ := h
  exact ⟨c, by rw [String.toList_append, List.getLast?_append, hc]; rfl, hne⟩

/-- A text is unstopped if it is not empty and has no full stop. -/
theorem unstopped_of_forall (hs : s.toList ≠ []) (h : ∀ c ∈ s.toList, c ≠ '.') : Unstopped s :=
  ⟨_, List.getLast?_eq_some_getLast hs, h _ (List.getLast_mem hs)⟩

theorem unstopped_numeral (n : Nat) : Unstopped (toString n) := by
  have hdigits : (toString n).toList = Nat.toDigits 10 n := Nat.toList_repr
  refine unstopped_of_forall ?_ ?_
  · rw [hdigits]
    exact Nat.toDigits_ne_nil
  · rw [hdigits]
    rintro c hc rfl
    exact absurd (Nat.isDigit_of_mem_toDigits (by decide) (by decide) hc) (by decide)

/-! ## Lines -/

/-- Lines that are put together are empty or end with a line end. -/
theorem join_lines (lines : List String) :
    String.join (lines.map (· ++ "\n")) = "" ∨
      ∃ before line, lines = before ++ [line] ∧
        String.join (lines.map (· ++ "\n")) =
          String.join (before.map (· ++ "\n")) ++ line ++ "\n" := by
  rcases List.eq_nil_or_concat lines with rfl | ⟨before, line, rfl⟩
  · exact .inl rfl
  · refine .inr ⟨before, line, List.concat_eq_append, ?_⟩
    simp [String.join_append, String.append_assoc]

/-- The last line is not `line` if none of the lines ends as that does. -/
theorem not_endsWithLine {lines : List String} {line : String}
    (h : ∀ l ∈ lines, ∀ before after : String, before ++ l ≠ after ++ line) :
    ¬ EndsWithLine (String.join (lines.map (· ++ "\n"))) line := by
  rintro ⟨after, heq, -⟩
  rcases join_lines lines with hempty | ⟨before, l, hlines, hjoin⟩
  · rw [hempty] at heq
    have := congrArg String.toList heq
    simp at this
  · rw [hjoin] at heq
    exact h l (by simp [hlines]) _ _ (String.append_left_inj _ |>.1 heq)

/-- A line that is put behind others is the last one. -/
theorem endsWithLine_append (lines : List String) (line : String) :
    EndsWithLine (String.join ((lines ++ [line]).map (· ++ "\n"))) line := by
  refine ⟨String.join (lines.map (· ++ "\n")), ?_, ?_⟩
  · simp [String.join_append, String.append_assoc]
  · rcases join_lines lines with hempty | ⟨before, l, -, hjoin⟩
    · exact .inl hempty
    · exact .inr ⟨_, hjoin⟩

end Text

/-! ## Lines about tokens, matches and errors -/

section Line

open Text

theorem Position.unstopped_render (p : Position) : Unstopped p.render :=
  (unstopped_numeral p.column).append _

theorem Token.unstopped_listing {t : Token}
    (h : ∀ c ∈ t.value.toList, Text.isInWord c = true) : Unstopped t.listing := by
  by_cases hempty : t.value = ""
  · have hblank : Unstopped ", Value: " := ⟨' ', by decide, by decide⟩
    change Unstopped (_ ++ ", Value: " ++ t.value)
    rw [hempty, String.append_empty]
    exact hblank.append _
  · refine (unstopped_of_forall ?_ ?_).append _
    · simpa using hempty
    · rintro c hc rfl
      cases h _ hc

theorem Match.unstopped_listing {m : Match} {rule : Rule} (h : m.rule = rule.name) :
    Unstopped m.listing := by
  have hname : Unstopped rule.name := by cases rule <;> exact ⟨_, rfl, by decide⟩
  rw [listing, h]
  exact hname.append _

theorem LexError.unstopped_message {e : LexError} {c : Char} (h : e.fault = .illegalCharacter c) :
    Unstopped e.message := by
  have hquote : Unstopped "'" := ⟨'\'', rfl, by decide⟩
  rw [message, h]
  exact (hquote.append _).append _

theorem SyntaxError.unstopped_message (e : SyntaxError) : Unstopped e.message :=
  e.found.position.unstopped_render.append _

end Line

namespace Report

open Text

/-- Whether an event is one that is told of before the verdict, or of a source that is
    rejected. -/
def Event.Told : Event → Prop
  | .token t => ∀ c ∈ t.value.toList, Text.isInWord c = true
  | .matched m => ∃ rule : Rule, m.rule = rule.name
  | .lexError e => ∃ c, e.fault = .illegalCharacter c
  | .syntaxError _ | .skipped .. => True
  | .line text => text = "Parsing failed."

/-- The lines of the events on the output stream. -/
def outputLines (style : Style) (events : List Event) : List String :=
  events.filterMap (Event.outputLine? style.format)

theorem output_eq_join (style : Style) (events : List Event) :
    output style events = String.join ((outputLines style events).map (· ++ "\n")) := by
  rw [output, outputLines, List.map_filterMap]

/-- No line that is told of a source ends as the one for a source that is accepted. -/
theorem append_ne_of_told {style : Style} {event : Event} {line before after : String}
    (h : event.Told) (hline : event.outputLine? style.format = some line) :
    before ++ line ≠ after ++ "Parsing successful." := by
  have hunstopped : Unstopped line → before ++ line ≠ after ++ "Parsing successful." := by
    rintro hl heq
    obtain ⟨c, hc, hne⟩ := hl.append before
    rw [heq, String.toList_append, List.getLast?_append] at hc
    exact hne (Option.some.inj hc).symm
  cases event with
  | token t =>
    obtain rfl := Option.some.inj hline
    exact hunstopped (Token.unstopped_listing h)
  | matched m =>
    obtain ⟨rule, hrule⟩ := h
    obtain rfl := Option.some.inj hline
    exact hunstopped (Match.unstopped_listing hrule)
  | lexError e =>
    obtain ⟨c, hc⟩ := h
    rw [Event.outputLine?, Option.ite_none_right_eq_some] at hline
    obtain rfl := Option.some.inj hline.2
    exact hunstopped (LexError.unstopped_message hc)
  | syntaxError e =>
    rw [Event.outputLine?, Option.ite_none_right_eq_some] at hline
    obtain rfl := Option.some.inj hline.2
    exact hunstopped e.unstopped_message
  | skipped => cases hline
  | line text =>
    obtain rfl : text = "Parsing failed." := h
    obtain rfl := Option.some.inj hline
    intro heq
    have := congrArg (fun s => s.toList.reverse) heq
    simp at this

theorem not_endsWithLine_output {style : Style} {events : List Event}
    (h : ∀ event ∈ events, event.Told) :
    ¬ EndsWithLine (output style events) "Parsing successful." := by
  rw [output_eq_join]
  refine not_endsWithLine fun line hline before after => ?_
  obtain ⟨event, hevent, houtput⟩ := List.mem_filterMap.1 hline
  exact append_ne_of_told (h event hevent) houtput

theorem endsWithLine_output (style : Style) (events : List Event) (text : String) :
    EndsWithLine (output style (events ++ [.line text])) text := by
  have hlines : outputLines style (events ++ [.line text]) =
      outputLines style events ++ [text] := by
    rw [outputLines, List.filterMap_append]
    rfl
  rw [output_eq_join, hlines]
  exact endsWithLine_append _ text

end Report

end TinyLang

import TinyLang.Proofs.Command.Events
import TinyLang.Proofs.Command.Output
import TinyLang.Proofs.Parser.Options

/-!
# Verdicts

A source is accepted if its text has tokens only and these are a program, however it is
checked (`report_accepts_iff`): neither going on after errors nor a limit for them
hides one, as a parser that goes on has errors where one that stops has one, and a lexer
that collects errors has one where one that stops has one. The output ends with the line
that says so in that case only.
-/

namespace TinyLang

/-- Whether a text is a program: it has tokens only, and these can be parsed. -/
def IsProgram (text : String) : Prop := ∃ ts, lex text = .ok ts ∧ ∃ s, parse ts = .ok s

namespace Command

open Report (Event)

/-! ## What is told -/

/-- What is told of the items of a text. -/
theorem told_itemEvents (mode : Lexer.Mode) (text : String) (quiet : Bool) :
    ∀ event ∈ itemEvents quiet (Lexer.ofSource mode (.ofText text)).items, event.Told := by
  intro event hevent
  obtain ⟨i, hi, rfl⟩ := exists_of_mem_itemEvents hevent
  cases i with
  | ok t => exact (Lexer.tokenStandsIn_of_mem_items hi).isInWord_of_mem_value
  | error e =>
    obtain ⟨_, c, _, -, -, rfl⟩ := Lexer.errorStandsIn_of_mem_items hi
    exact ⟨c, rfl⟩

/-- What is told of tokens that are no program. -/
theorem told_outcomeEvents (options : Options) (ts us : TokenList)
    (h : ¬ (parseWith options.parserOptions ts).isOk = true) :
    ∀ event ∈ outcomeEvents options us (parseWith options.parserOptions ts), event.Told := by
  intro event hevent
  rw [outcomeEvents, if_neg h] at hevent
  simp only [List.mem_append] at hevent
  rcases hevent with ((hevent | hevent) | hevent) | hevent
  · obtain ⟨m, hm, rfl⟩ := List.mem_map.1 hevent
    exact Parser.exists_rule_of_mem_trace _ ts m hm
  · split at hevent
    · obtain ⟨first, -, rfl⟩ := List.mem_map.1 hevent
      trivial
    · cases hevent
  · obtain ⟨e, -, rfl⟩ := List.mem_map.1 hevent
    trivial
  · split at hevent
    · rw [List.mem_singleton.1 hevent]
      rfl
    · cases hevent

/-! ## Checking and listing -/

/-- What is told of a text that is checked, and the verdict about it. -/
inductive Checked (text : String) : List Event × Verdict → Prop
  /-- A program is accepted, and that is told last. -/
  | accepted {events : List Event} : IsProgram text →
      Checked text (events ++ [.line "Parsing successful."], .accepted)
  /-- Any other text is rejected. -/
  | rejected {events : List Event} : ¬ IsProgram text → (∀ event ∈ events, event.Told) →
      Checked text (events, .rejected)

variable (options : Options) (text : String)

theorem checked_checkEvents : Checked text (checkEvents options text) := by
  have hitems := told_itemEvents options.lexerMode text options.quiet
  cases hlex : TinyLang.lex text with
  | error e =>
    rw [checkEvents_of_error hlex]
    refine .rejected ?_ hitems
    rintro ⟨ts, hts, -⟩
    rw [hlex] at hts
    cases hts
  | ok ts =>
    have hprogram : IsProgram text ↔ ∃ s, parse ts = .ok s := by
      simp [IsProgram, hlex]
    rw [Lexer.items_of_lex_eq_ok hlex] at hitems
    rw [checkEvents_of_ok hlex]
    by_cases hok : (parseWith options.parserOptions ts).isOk = true
    · rw [if_pos hok, outcomeEvents, if_pos hok, ← List.append_assoc]
      exact .accepted (hprogram.2 ((isOk_parseWith_iff _ ts).1 hok))
    · rw [if_neg hok]
      refine .rejected (fun h => hok ((isOk_parseWith_iff _ ts).2 (hprogram.1 h))) ?_
      exact List.forall_mem_append.2 ⟨hitems, told_outcomeEvents options ts ts hok⟩

theorem verdict_lexEvents :
    (lexEvents options text).2 = .accepted ↔ ∃ ts, TinyLang.lex text = .ok ts := by
  have hresult := Lexing.result_ofSource options.lexerMode (.ofText text)
  cases hlex : TinyLang.lex text with
  | error e =>
    have hlisted : (lexEvents options text).2 = .rejected :=
      if_pos (Lexing.hasErrors_of_result_eq_error (hresult.trans hlex))
    simp [hlisted]
  | ok ts =>
    have hnone := (Lexing.hasErrors_of_result_eq_ok (hresult.trans hlex)).1
    have hlisted : (lexEvents options text).2 = .accepted := if_neg (Bool.eq_false_iff.1 hnone)
    simp [hlisted]

end Command

/-- A source is accepted if it is a program, however it is checked and whatever the report
    looks like, and else rejected. The line that says so is the last one of the output in
    that case only. A source of which the tokens are listed is accepted if it has tokens
    only. (`Command.checkSource` and `Command.lexSource` are these reports in the style that
    the options ask for.) -/
theorem report_accepts_iff (options : Command.Options) (style : Report.Style)
    (source : SourceFile) :
    ((Command.report style source (Command.checkEvents options source.text)).result =
      .ok .accepted ↔ IsProgram source.text) ∧
    ((Command.report style source (Command.checkEvents options source.text)).result =
      .ok .rejected ↔ ¬ IsProgram source.text) ∧
    (Text.EndsWithLine
      (Command.report style source (Command.checkEvents options source.text)).output
      "Parsing successful." ↔ IsProgram source.text) ∧
    ((Command.report style source (Command.lexEvents options source.text)).result =
      .ok .accepted ↔ ∃ ts, lex source.text = .ok ts) := by
  have hlisted := Command.verdict_lexEvents options source.text
  have hchecked := Command.checked_checkEvents options source.text
  generalize Command.checkEvents options source.text = told at hchecked ⊢
  refine ⟨?_, ?_, ?_, ?_⟩
  · cases hchecked with
    | accepted h => exact iff_of_true rfl h
    | rejected h _ => exact iff_of_false nofun h
  · cases hchecked with
    | accepted h => exact iff_of_false nofun (not_not.2 h)
    | rejected h _ => exact iff_of_true rfl h
  · cases hchecked with
    | accepted h => exact iff_of_true (Report.endsWithLine_output style _ _) h
    | rejected h htold => exact iff_of_false (Report.not_endsWithLine_output htold) h
  · rw [← hlisted]
    exact ⟨fun h => Except.ok.inj h, fun h => congrArg Except.ok h⟩

end TinyLang

import TinyLang.Proofs.Command.Events
import TinyLang.Proofs.Parser.Header

/-!
# The warning about tokens before the program

The warning is about the tokens that are passed over before the first `program`. These are all
the tokens of a text if there is no program in it, so a text without a program is told two things:
that there is none, and that there were tokens before it (`diagnostics_skipped`). Where there is a
program, the warning is given if something comes before it, and no more is said about that.
-/

namespace TinyLang

theorem SyntaxError.code_ne_skippedTokens (e : SyntaxError) : e.code ≠ .skippedTokens := by
  rw [code]
  split <;> decide

/-- The diagnostics that warn about tokens before the program. -/
def Report.skippedWarnings (ds : List Diagnostic) : List Diagnostic :=
  ds.filter fun d => d.code == .skippedTokens

namespace Command

open Report (Event)

variable {style : Report.Style} {text : String} {ts : TokenList}

/-! ## What is said about tokens -/

/-- Nothing is said against tokens. -/
theorem diagnostics_itemEvents (quiet : Bool) (style : Report.Style) (ts : TokenList) :
    Report.diagnostics style (itemEvents quiet (ts.map .ok)) = [] := by
  refine List.filterMap_eq_nil_iff.2 fun event hevent => ?_
  obtain ⟨i, hi, rfl⟩ := exists_of_mem_itemEvents hevent
  obtain ⟨t, -, rfl⟩ := List.mem_map.1 hi
  rfl

/-- Nothing is said against matches. -/
theorem diagnostics_matched (style : Report.Style) (ms : List Match) :
    Report.diagnostics style (ms.map Event.matched) = [] := by
  refine List.filterMap_eq_nil_iff.2 fun event hevent => ?_
  obtain ⟨m, -, rfl⟩ := List.mem_map.1 hevent
  rfl

theorem diagnostics_syntaxErrors (hstyle : style.format = .rich) (es : List SyntaxError) :
    Report.diagnostics style (es.map Event.syntaxError) = es.map SyntaxError.diagnostic := by
  rw [Report.diagnostics, List.filterMap_map, ← List.filterMap_eq_map]
  exact List.filterMap_congr fun e _ => if_pos hstyle

/-- In the rich format a text without errors among its characters is told of the tokens that
    are passed over, and of the syntax errors. -/
theorem diagnostics_checkEvents (options : Options) (hstyle : style.format = .rich)
    (h : TinyLang.lex text = .ok ts) :
    Report.diagnostics style (checkEvents options text).1 =
      (if 0 < ts.input.idxOf .kwProgram then
        [Report.skippedWarning (ts.input.idxOf .kwProgram) (ts.tokenAt 0).position] else []) ++
      (parseWith options.parserOptions ts).errors.map SyntaxError.diagnostic := by
  have hsplit : ∀ xs ys, Report.diagnostics style (xs ++ ys) =
      Report.diagnostics style xs ++ Report.diagnostics style ys :=
    fun xs ys => List.filterMap_append
  have hverdict : ∀ o : Outcome, Report.diagnostics style
      (if o.isOk then [Event.line "Parsing successful."]
        else if options.recover then [Event.line "Parsing failed."] else []) = [] := by
    intro o
    split
    · rfl
    · split <;> rfl
  have hfirst : ts.head? = some (ts.tokenAt 0) := by
    cases ts with
    | nil => exact absurd (eof_mem_kinds_of_lex_eq_ok h) List.not_mem_nil
    | cons => rfl
  have hskipped : ∀ n, Report.diagnostics style (if 0 < n then
      ts.head?.toList.map fun first => Event.skipped n first.position else []) =
      if 0 < n then [Report.skippedWarning n (ts.tokenAt 0).position] else [] := by
    intro n
    rw [hfirst]
    split
    · exact congrArg (List.filterMap id [·]) (if_pos hstyle)
    · rfl
  rw [checkEvents_of_ok h, outcomeEvents, skipped_parseWith]
  simp only [hsplit, diagnostics_itemEvents, diagnostics_matched, hskipped,
    diagnostics_syntaxErrors hstyle, hverdict, List.nil_append, List.append_nil]

/-- The warning is about all tokens that are passed over. -/
theorem skippedWarnings_checkEvents (options : Options) (hstyle : style.format = .rich)
    (h : TinyLang.lex text = .ok ts) :
    Report.skippedWarnings (Report.diagnostics style (checkEvents options text).1) =
      if 0 < ts.input.idxOf .kwProgram then
        [Report.skippedWarning (ts.input.idxOf .kwProgram) (ts.tokenAt 0).position] else [] := by
  have herrors : ∀ es : List SyntaxError,
      Report.skippedWarnings (es.map SyntaxError.diagnostic) = [] := by
    refine fun es => List.filter_eq_nil_iff.2 fun d hd => ?_
    obtain ⟨e, -, rfl⟩ := List.mem_map.1 hd
    simpa [e.code_diagnostic] using e.code_ne_skippedTokens
  rw [diagnostics_checkEvents options hstyle h, Report.skippedWarnings, List.filter_append,
    ← Report.skippedWarnings, ← Report.skippedWarnings, herrors, List.append_nil]
  split <;> rfl

/-- That there is no program is said exactly where there is none. -/
theorem exists_missingProgram_checkEvents_iff (options : Options) (hstyle : style.format = .rich)
    (h : TinyLang.lex text = .ok ts) :
    (∃ d ∈ Report.diagnostics style (checkEvents options text).1, d.code = .missingProgram) ↔
      .kwProgram ∉ ts.input := by
  rw [diagnostics_checkEvents options hstyle h,
    ← exists_missingProgram_iff options.parserOptions ts]
  constructor
  · rintro ⟨d, hd, hcode⟩
    rcases List.mem_append.1 hd with hd | hd
    · split at hd
      · rw [List.mem_singleton.1 hd] at hcode
        cases hcode
      · cases hd
    · obtain ⟨e, he, rfl⟩ := List.mem_map.1 hd
      exact ⟨e, he, e.code_diagnostic.symm.trans hcode⟩
  · rintro ⟨e, he, hcode⟩
    exact ⟨e.diagnostic, List.mem_append_right _ (List.mem_map_of_mem he),
      e.code_diagnostic.trans hcode⟩

end Command

/-! ## The kinds of a text -/

/-- The tokens of a text are its input, and the end of the input behind that. -/
theorem kinds_of_lex_eq_ok {text : String} {ts : TokenList} (h : lex text = .ok ts) :
    ts.kinds = ts.input ++ [.eof] := by
  obtain ⟨is, hdivides, rfl⟩ := exists_divides_of_lex_eq_ok h
  have heof : ∀ t ∈ is.filterMap Lexer.Item.token?, t.kind ≠ .eof := by
    intro t ht
    have := hdivides.isEof_eq_false (Lexer.mem_filterMap_token?_iff.1 ht)
    simpa [Token.isEof] using this
  rw [TokenList.input_append heof, TokenList.input_cons_of_eof rfl, List.append_nil,
    TokenList.kinds, List.map_append]
  rfl

/-- In the rich format a text with a `program` is warned about the tokens before the first one,
    if there are any, with their number and the position of the first of them, and it is not told
    that there is no program. A text without one is told so, and if it has tokens then it is
    warned about them all. -/
theorem diagnostics_skipped {text : String} {ts : TokenList} (h : lex text = .ok ts)
    (options : Command.Options) (style : Report.Style) (hstyle : style.format = .rich) :
    (.kwProgram ∈ ts.kinds →
      Report.skippedWarnings (Report.diagnostics style (Command.checkEvents options text).1) =
        (if 0 < ts.kinds.idxOf .kwProgram then
          [Report.skippedWarning (ts.kinds.idxOf .kwProgram) (ts.tokenAt 0).position] else []) ∧
      ∀ d ∈ Report.diagnostics style (Command.checkEvents options text).1,
        d.code ≠ .missingProgram) ∧
    (.kwProgram ∉ ts.kinds →
      Report.skippedWarnings (Report.diagnostics style (Command.checkEvents options text).1) =
        (if 1 < ts.length then
          [Report.skippedWarning (ts.length - 1) (ts.tokenAt 0).position] else []) ∧
      ∃ d ∈ Report.diagnostics style (Command.checkEvents options text).1,
        d.code = .missingProgram) := by
  have hwarnings := Command.skippedWarnings_checkEvents options hstyle h
  have hmissing := Command.exists_missingProgram_checkEvents_iff options hstyle h
  have hkinds := kinds_of_lex_eq_ok h
  have hlength : ts.length - 1 = ts.input.length := by
    have := congrArg List.length hkinds
    rw [TokenList.kinds, List.length_map, List.length_append] at this
    exact Nat.sub_eq_of_eq_add this
  rw [hwarnings, hkinds]
  constructor
  · intro hmem
    have hinput : .kwProgram ∈ ts.input := by simpa using hmem
    rw [List.idxOf_append_of_mem hinput]
    exact ⟨rfl, fun d hd hcode => hmissing.1 ⟨d, hd, hcode⟩ hinput⟩
  · intro hnot
    have hinput : .kwProgram ∉ ts.input := by simpa using hnot
    rw [List.idxOf_eq_length hinput, ← hlength]
    refine ⟨?_, hmissing.2 hinput⟩
    simp only [Nat.sub_pos_iff_lt]

/-- The tokens of a program that does not come first. -/
def TokenList.junkBeforeProgram : TokenList :=
  [.of .ident "junk" ⟨1, 1⟩, .of .num "42" ⟨1, 6⟩, .bare .kwProgram ⟨1, 9⟩,
    .of .ident "P" ⟨1, 17⟩, .bare .colon ⟨1, 18⟩, .bare .dot ⟨1, 20⟩, .eof ⟨1, 21⟩]

/-- There are two tokens before the program. -/
theorem diagnostics_junkBeforeProgram :
    lex "junk 42 program P: ." = .ok .junkBeforeProgram ∧
      .kwProgram ∈ TokenList.junkBeforeProgram.kinds ∧
      Report.skippedWarnings (Report.diagnostics ⟨.rich, .never, false⟩
        (Command.checkEvents {} "junk 42 program P: .").1) = [Report.skippedWarning 2 ⟨1, 1⟩] := by
  have hlex : lex "junk 42 program P: ." = .ok .junkBeforeProgram := by decide +kernel
  have hmem : .kwProgram ∈ TokenList.junkBeforeProgram.kinds := by decide
  exact ⟨hlex, hmem, ((diagnostics_skipped hlex {} ⟨.rich, .never, false⟩ rfl).1 hmem).1⟩

/-- The tokens of a text that is a name. -/
def TokenList.nameOnly : TokenList := [.of .ident "a" ⟨1, 1⟩, .eof ⟨1, 2⟩]

/-- There is no program behind the name, and yet it is said to come before one. -/
theorem diagnostics_nameOnly :
    lex "a" = .ok .nameOnly ∧ .kwProgram ∉ TokenList.nameOnly.kinds ∧
      Report.skippedWarnings (Report.diagnostics ⟨.rich, .never, false⟩
        (Command.checkEvents {} "a").1) = [Report.skippedWarning 1 ⟨1, 1⟩] ∧
      ∃ d ∈ Report.diagnostics ⟨.rich, .never, false⟩ (Command.checkEvents {} "a").1,
        d.code = .missingProgram := by
  have hlex : lex "a" = .ok .nameOnly := by decide +kernel
  exact ⟨hlex, by decide, Command.skippedWarnings_checkEvents {} rfl hlex,
    (Command.exists_missingProgram_checkEvents_iff {} rfl hlex).2 (by decide)⟩

end TinyLang

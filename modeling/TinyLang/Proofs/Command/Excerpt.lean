import TinyLang.Proofs.Command.Events
import TinyLang.Proofs.Text.Lines

/-!
# Where excerpts point

An error in the rich format is shown with the line of the source that it is about, and a caret
under a character of that line (`Report.Error.Shown`). The scanner counts lines and columns as it
reads characters, and the line is looked up among the lines of the text. They agree
(`report_excerpts`): the caret is under the illegal character, or the first character of the token
that was found. At the end of the input it is behind the last line, or there is no line to show
since the text ends with a line end.
-/

namespace TinyLang

/-! ## Excerpts -/

namespace Text

/-- A line with a caret below it that stands under a column, and a label behind the caret. The
    number of the line is in front, and a gutter of the same width above and below. -/
def excerptLines (p : Position) (line label : String) : List String :=
  let number := toString p.line
  let gutter := "".pushn ' ' number.length
  [" " ++ gutter ++ " |", " " ++ number ++ " | " ++ line,
    " " ++ gutter ++ " | " ++ "".pushn ' ' (p.column - 1) ++ "^ " ++ label]

/-- The lines of an excerpt, each with its line end. -/
def excerpt (p : Position) (line label : String) : String :=
  String.join ((excerptLines p line label).map (· ++ "\n"))

/-- Whether a text has a character at a position, on the line `line`. -/
structure HasAt (text : String) (p : Position) (c : Char) (line : String) : Prop where
  line_pos : 0 < p.line
  column_pos : 0 < p.column
  line_eq : (lines text)[p.line - 1]? = some line
  char_eq : line.toList[p.column - 1]? = some c

theorem exists_hasAt_behind {text : String} {before after : List Char} {c : Char}
    (h : text.toList = before ++ c :: after) (hc : isBlank c = false) :
    ∃ line, HasAt text (.behind before) c line := by
  obtain ⟨line, hline, hchar⟩ := exists_line_behind h hc
  exact ⟨line, Nat.succ_pos _, Nat.succ_pos _, hline, hchar⟩

end Text

open Terminal (Span)

namespace Terminal

theorem render_append (colors : Bool) (spans spans' : List Span) :
    render colors (spans ++ spans') = render colors spans ++ render colors spans' := by
  rw [render, List.map_append, String.join_append]
  rfl

end Terminal

theorem SourceFile.line?_listing (source : SourceFile) {n : Nat} (h : 0 < n) :
    source.listing.line? n = (Text.lines source.text)[n - 1]? := by
  rw [Listing.line?, if_neg (Nat.ne_of_gt h)]
  exact List.getElem?_toArray

namespace Diagnostic

variable {d : Diagnostic} {source : SourceFile} {p : Position} {label : String}

/-- Where a diagnostic is, on a line of its own. -/
def arrow (source : SourceFile) (p : Position) : String :=
  "  --> " ++ source.path ++ ":" ++ p.render ++ "\n"

/-- Where a diagnostic is, as spans. -/
def arrowSpans (source : SourceFile) (p : Position) : List Span :=
  [.plain "  ", .styled .frame "-->", .plain (" " ++ source.path ++ ":" ++ p.render ++ "\n")]

theorem render_arrowSpans (source : SourceFile) (p : Position) :
    Terminal.render false (arrowSpans source p) = arrow source p := by
  rw [← String.toList_inj]
  simp [Terminal.render, Span.render, Terminal.writeStyled, arrowSpans, arrow]

theorem render_excerpt (p : Position) (line label : String) :
    Terminal.render false (excerpt p (some label) line) = Text.excerpt p line label := by
  rw [← String.toList_inj]
  simp [Terminal.render, Span.render, Terminal.writeStyled, excerpt, Text.excerpt,
    Text.excerptLines]

theorem render_bareLabel (label : String) :
    Terminal.render false (bareLabel (some label)) = "   = " ++ label ++ "\n" := by
  rw [← String.toList_inj]
  simp [Terminal.render, Span.render, Terminal.writeStyled, bareLabel]

/-- A line that is there is shown. -/
theorem render_location_of_line {line : String} (hp : d.position = some p)
    (hlabel : d.label = some label) (hline : source.listing.line? p.line = some line) :
    Terminal.render false (d.location (some source.listing)) =
      arrow source p ++ Text.excerpt p line label := by
  have hlocation : d.location (some source.listing) =
      arrowSpans source p ++ excerpt p (some label) line := by
    simp only [location, hp, hlabel, Option.bind_some, hline]
    rfl
  rw [hlocation, Terminal.render_append, render_arrowSpans, render_excerpt]

/-- Where there is no line, there is the label only. -/
theorem render_location_of_none (hp : d.position = some p) (hlabel : d.label = some label)
    (hline : source.listing.line? p.line = none) :
    Terminal.render false (d.location (some source.listing)) =
      arrow source p ++ ("   = " ++ label ++ "\n") := by
  have hlocation : d.location (some source.listing) =
      arrowSpans source p ++ bareLabel (some label) := by
    simp only [location, hp, hlabel, Option.bind_some, hline]
    rfl
  rw [hlocation, Terminal.render_append, render_arrowSpans, render_bareLabel]

end Diagnostic

namespace Report

/-! ## Errors of a text -/

/-- How an error is shown below its message: as an excerpt with the caret under what the error is
    about, or as a label where there is no line to show. -/
inductive Error.Shown (text label : String) : Error → String → Prop
  /-- The caret is under the illegal character. -/
  | character {e : LexError} {c : Char} {line : String} : e.fault = .illegalCharacter c →
      Text.HasAt text e.position c line →
      Shown text label (.lexical e) (Text.excerpt e.position line label)
  /-- The caret is under the first character of the token. -/
  | token {e : SyntaxError} {c : Char} {w : List Char} {line : String} : e.found.isEof = false →
      e.found.spelling.toList = c :: w → Text.HasAt text e.found.position c line →
      Shown text label (.syntactic e) (Text.excerpt e.found.position line label)
  /-- The caret is behind the last line. -/
  | lastLine {e : SyntaxError} {line : String} : e.found.isEof = true →
      (Text.lines text).getLast? = some line →
      e.found.position = ⟨(Text.lines text).length, line.length + 1⟩ →
      Shown text label (.syntactic e) (Text.excerpt e.found.position line label)
  /-- There is no line behind the last one. -/
  | noLine {e : SyntaxError} : e.found.isEof = true →
      text = "" ∨ text.toList.getLast? = some '\n' →
      Shown text label (.syntactic e) ("   = " ++ label ++ "\n")

theorem Error.exists_label_syntactic (e : SyntaxError) :
    ∃ label, e.diagnostic.label = some label := by
  rw [SyntaxError.diagnostic]
  split <;> exact ⟨_, rfl⟩

/-- An error of a text is shown at the place that it is about. -/
theorem Error.exists_shown {source : SourceFile} {e : Error}
    (h : e.event.ArisesFrom source.text.toList) :
    ∃ label shown, e.diagnostic.label = some label ∧ e.Shown source.text label shown ∧
      Terminal.render false (e.diagnostic.location (some source.listing)) =
        Diagnostic.arrow source e.position ++ shown := by
  have hlookup : ∀ {p : Position} {c : Char} {line : String}, Text.HasAt source.text p c line →
      source.listing.line? p.line = some line := by
    intro p c line hat
    rw [source.line?_listing hat.line_pos]
    exact hat.line_eq
  cases e with
  | lexical e =>
    cases h with
    | lexError he =>
      obtain ⟨before, c, after, htext, hc, rfl⟩ := he
      obtain ⟨line, hat⟩ := Text.exists_hasAt_behind htext hc
      exact ⟨_, _, rfl, .character rfl hat,
        Diagnostic.render_location_of_line rfl rfl (hlookup hat)⟩
  | syntactic e =>
    obtain ⟨label, hlabel⟩ := Error.exists_label_syntactic e
    have hposition := e.position_diagnostic
    cases h with
    | syntaxError _ _ hfound =>
      rcases hfound with ⟨⟨before, after, htext, hbehind⟩, ⟨c, w, hspelling, hc⟩, heof, -⟩ | hfound
      · rw [hspelling, List.cons_append] at htext
        obtain ⟨line, hat⟩ := Text.exists_hasAt_behind htext hc
        rw [← hbehind] at hat
        exact ⟨label, _, hlabel, .token heof hspelling hat,
          Diagnostic.render_location_of_line hposition hlabel (hlookup hat)⟩
      · have heof : e.found.isEof = true := by
          rw [hfound]
          rfl
        have hbehind : e.found.position = .behind source.text.toList := by
          rw [hfound]
          rfl
        have hline : source.listing.line? e.found.position.line =
            (Text.lines source.text)[e.found.position.line - 1]? := by
          refine source.line?_listing ?_
          rw [hbehind]
          exact Nat.succ_pos _
        rcases Text.line_behind_cases source.text with ⟨hends, hnone⟩ | ⟨line, hlast, hat⟩
        · rw [← hbehind] at hnone
          exact ⟨label, _, hlabel, .noLine heof hends,
            Diagnostic.render_location_of_none hposition hlabel (hline.trans hnone)⟩
        · have hend := hbehind.trans hat
          refine ⟨label, _, hlabel, .lastLine heof hlast hend,
            Diagnostic.render_location_of_line hposition hlabel (hline.trans ?_)⟩
          rw [hend, ← List.getLast?_eq_getElem?, hlast]

/-- What is written on the diagnostic stream up to an error, and about that error. -/
theorem exists_diagnosticText (style : Style) (hrich : style.format = .rich)
    (hplain : style.color.isOn style.onTerminal = false) (source : SourceFile)
    (before after : List Event) (e : Error) :
    ∃ rest, diagnosticText style source (before ++ e.event :: after) =
      Terminal.render false
        ((diagnostics style before).flatMap (Diagnostic.spans (some source.listing))) ++
      Terminal.render false (e.diagnostic.spans (some source.listing)) ++ rest := by
  have hdiagnostic : e.event.diagnostic? style.format = some e.diagnostic := by
    rw [hrich]
    cases e <;> rfl
  have hsplit : diagnostics style (before ++ e.event :: after) =
      diagnostics style before ++ e.diagnostic :: diagnostics style after := by
    rw [diagnostics, List.filterMap_append, List.filterMap_cons_some hdiagnostic]
    rfl
  rw [diagnosticText, hplain, diagnosticSpans, hsplit, List.flatMap_append, List.flatMap_cons,
    List.append_assoc, List.append_assoc, Terminal.render_append, Terminal.render_append]
  exact ⟨_, (String.append_assoc ..).symm⟩

end Report

/-- Each error of a source that is checked, or of which the tokens are listed, is shown in the rich
    format where it belongs among the other diagnostics: its message, its position, what
    `Report.Error.Shown` says, and remarks. (`Command.checkSource` and `Command.lexSource` are
    these reports.) -/
theorem report_excerpts (options : Command.Options) (onTerminal : Bool) (source : SourceFile)
    (hrich : options.format = .rich) (hplain : options.color.isOn onTerminal = false)
    {told : List Report.Event × Command.Verdict}
    (htold : told = Command.checkEvents options source.text ∨
      told = Command.lexEvents options source.text)
    {before after : List Report.Event} {e : Report.Error}
    (h : told.1 = before ++ e.event :: after) :
    ∃ label shown rest, e.diagnostic.label = some label ∧ e.Shown source.text label shown ∧
      (Command.report (options.style onTerminal) source told).diagnostics =
        Terminal.render false ((Report.diagnostics (options.style onTerminal) before).flatMap
          (Diagnostic.spans (some source.listing))) ++
        (Terminal.render false e.diagnostic.header ++
          (Diagnostic.arrow source e.position ++ shown) ++
          Terminal.render false e.diagnostic.remarks ++ "\n") ++ rest := by
  have harises : ∀ event ∈ told.1, event.ArisesFrom source.text.toList := by
    rcases htold with rfl | rfl
    · exact Command.arisesFrom_checkEvents options source.text
    · exact Command.arisesFrom_lexEvents options source.text
  obtain ⟨label, shown, hlabel, hshown, hlocation⟩ :=
    Report.Error.exists_shown (harises e.event (by rw [h]; simp))
  obtain ⟨rest, hrest⟩ :=
    Report.exists_diagnosticText (options.style onTerminal) hrich hplain source before after e
  refine ⟨label, shown, rest, hlabel, hshown, ?_⟩
  show Report.diagnosticText (options.style onTerminal) source told.1 = _
  rw [h, hrest, Diagnostic.spans, Terminal.render_append, Terminal.render_append,
    Terminal.render_append, hlocation]
  rfl

/-- A source with an illegal character on its second line. -/
def SourceFile.dollarSign : SourceFile := ⟨"a.tiny", "x\r\ny $"⟩

/-- The error about the illegal character. -/
def Report.Error.dollarSign : Error := .lexical ⟨⟨2, 3⟩, .illegalCharacter '$'⟩

/-- The illegal character is shown behind the name on its line. -/
theorem excerpts_dollarSign :
    (Command.lexEvents { format := .rich, color := .never } SourceFile.dollarSign.text).1 =
        [.token (.of .ident "x" ⟨1, 1⟩), .token (.of .ident "y" ⟨2, 1⟩)] ++
          Report.Error.dollarSign.event :: [] ∧
      ∃ label shown, Report.Error.dollarSign.diagnostic.label = some label ∧
        Report.Error.dollarSign.Shown SourceFile.dollarSign.text label shown := by
  have hevents : (Command.lexEvents { format := .rich, color := .never }
      SourceFile.dollarSign.text).1 =
        [.token (.of .ident "x" ⟨1, 1⟩), .token (.of .ident "y" ⟨2, 1⟩)] ++
          Report.Error.dollarSign.event :: [] := by decide +kernel
  obtain ⟨label, shown, _, hlabel, hshown, -⟩ :=
    report_excerpts { format := .rich, color := .never } true .dollarSign rfl rfl (.inr rfl) hevents
  exact ⟨hevents, label, shown, hlabel, hshown⟩

end TinyLang

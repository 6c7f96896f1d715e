import TinyLang.Diagnostic.Terminal
import TinyLang.Parser.Outcome

/-!
# Reports

What happens to a source is told as a list of events: tokens, matches, errors,
and lines of plain text. A report writes them to two streams. Tokens, matches
and lines go to the output stream, one line each. Errors go there too in the
classic format, and in the rich format they go to the diagnostic stream, as
diagnostics with a summary behind them. Warnings are given in the rich format
only.
-/

namespace TinyLang

namespace Report

/-- How errors are written. -/
inductive Format where
  /-- One line for each error. -/
  | classic
  /-- Diagnostics with the line they are about. -/
  | rich
deriving DecidableEq, Repr, Inhabited

/-- How a report looks. -/
structure Style where
  /-- How errors are written. -/
  format : Format := .classic
  /-- When to use colours. -/
  color : Terminal.ColorMode := .never
  /-- Whether the diagnostic stream is a terminal. -/
  onTerminal : Bool := false
deriving DecidableEq, Repr

/-- Something that is reported. -/
inductive Event where
  /-- A token. -/
  | token (t : Token)
  /-- A match. -/
  | matched (m : Match)
  /-- A lexical error. -/
  | lexError (e : LexError)
  /-- A syntax error. -/
  | syntaxError (e : SyntaxError)
  /-- Tokens before the program: how many, and where the first one is. -/
  | skipped (count : Nat) (first : Position)
  /-- A line of text. -/
  | line (text : String)
deriving DecidableEq

/-- The warning about tokens before the program. -/
def skippedWarning (count : Nat) (first : Position) : Diagnostic where
  code := .skippedTokens
  severity := .warning
  message := "ignored " ++ toString count ++ " " ++ Terminal.plural count "token"
    ++ " before `program`"
  position := some first
  label := some "parsing starts at the first `program`"

namespace Event

/-- Whether an event is an error. -/
def isError : Event → Bool
  | lexError _ | syntaxError _ => true
  | _ => false

/-- The line of an event on the output stream. -/
def outputLine? (format : Format) : Event → Option String
  | token t => some t.listing
  | matched m => some m.listing
  | lexError e => if format = .classic then some e.message else none
  | syntaxError e => if format = .classic then some e.message else none
  | skipped .. => none
  | line text => some text

/-- The diagnostic of an event on the diagnostic stream. -/
def diagnostic? (format : Format) : Event → Option Diagnostic
  | lexError e => if format = .rich then some e.diagnostic else none
  | syntaxError e => if format = .rich then some e.diagnostic else none
  | skipped count first => if format = .rich then some (skippedWarning count first) else none
  | token _ | matched _ | line _ => none

end Event

/-- The number of errors among the events. -/
def errorCount (events : List Event) : Nat := events.countP Event.isError

/-- What is written to the output stream. -/
def output (style : Style) (events : List Event) : String :=
  String.join (events.filterMap fun event =>
    (event.outputLine? style.format).map (· ++ "\n"))

/-- The diagnostics of the events, in order. -/
def diagnostics (style : Style) (events : List Event) : List Diagnostic :=
  events.filterMap (Event.diagnostic? style.format)

/-- What is written to the diagnostic stream, as spans. -/
def diagnosticSpans (style : Style) (source : SourceFile) (events : List Event) :
    List Terminal.Span :=
  let ds := diagnostics style events
  let listing := source.listing
  ds.flatMap (Diagnostic.spans (some listing))
    ++ Diagnostic.summary (ds.countP Diagnostic.isError) (ds.countP (!Diagnostic.isError ·))

/-- What is written to the diagnostic stream. -/
def diagnosticText (style : Style) (source : SourceFile) (events : List Event) : String :=
  Terminal.render (style.color.isOn style.onTerminal) (diagnosticSpans style source events)

end Report

end TinyLang

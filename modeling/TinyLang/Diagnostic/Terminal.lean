import TinyLang.Diagnostic.Basic
import TinyLang.SourceFile

/-!
# Diagnostics on a terminal

A diagnostic is shown with the line it is about and a caret under the column,
as a list of spans of text, some of which have a style. A span is the only
thing that a colour can be given to: with colours, the text of a span that has
a style stands between the sequence that opens the style and the one that ends
it, and without colours the same text stands alone (`Span.render`). The code of
a diagnostic and the word before a note are written each in its own way, which
comes to that of text in a style (`writeCode_eq`, `writeNoteWord_eq`).
-/

namespace TinyLang

namespace Terminal

/-- When to use colours. -/
inductive ColorMode where
  /-- On a terminal only. -/
  | auto
  /-- Always. -/
  | always
  /-- Never. -/
  | never
deriving DecidableEq, Repr, Inhabited

/-- Whether colours are used. -/
def ColorMode.isOn (mode : ColorMode) (onTerminal : Bool) : Bool :=
  match mode with
  | auto => onTerminal
  | always => true
  | never => false

/-- How a span of text can be marked. -/
inductive Style where
  /-- For what is wrong: bold and red. -/
  | error
  /-- For what may be wrong: bold and yellow. -/
  | warning
  /-- For what helps: bold and green. -/
  | help
  /-- For the frame: bold and blue. -/
  | frame
  /-- For names: bold. -/
  | strong
deriving DecidableEq, Repr

/-- The sequence that opens a style. -/
def Style.opening : Style → String
  | error => "\x1b[1;31m"
  | warning => "\x1b[1;33m"
  | help => "\x1b[1;32m"
  | frame => "\x1b[1;34m"
  | strong => "\x1b[1m"

/-- The sequence that ends every style. -/
def closing : String := "\x1b[0m"

/-- Text in a style, between the sequences of the style if colours are used. -/
def writeStyled (colors : Bool) (style : Style) (text : String) : String :=
  if colors then style.opening ++ text ++ closing else text

/-- The code of a diagnostic in brackets, which are as strong as the code. -/
def writeCode (colors : Bool) (code : String) : String :=
  if colors then Style.strong.opening ++ "[" ++ code ++ "]" ++ closing else "[" ++ code ++ "]"

/-- The word before a note. -/
def writeNoteWord (colors : Bool) : String :=
  if colors then Style.strong.opening ++ "note" ++ closing else "note"

/-- A code is written as text in brackets is. -/
theorem writeCode_eq (colors : Bool) (code : String) :
    writeCode colors code = writeStyled colors .strong ("[" ++ code ++ "]") := by
  rw [writeCode, writeStyled, ← String.append_assoc, ← String.append_assoc]

/-- The word before a note is written as any text in its style is. -/
theorem writeNoteWord_eq (colors : Bool) :
    writeNoteWord colors = writeStyled colors .strong "note" := rfl

/-- A piece of what is written. -/
inductive Span where
  /-- Text without a style. -/
  | plain (text : String)
  /-- Text in a style. -/
  | styled (style : Style) (text : String)
  /-- The code of a diagnostic. -/
  | code (text : String)
  /-- The word before a note. -/
  | noteWord
deriving DecidableEq, Repr

/-- A span as it is written, with colours or without. -/
def Span.render (colors : Bool) : Span → String
  | .plain text => text
  | .styled style text => writeStyled colors style text
  | .code text => writeCode colors text
  | .noteWord => writeNoteWord colors

/-- Spans one after the other. -/
def render (colors : Bool) (spans : List Span) : String :=
  String.join (spans.map (Span.render colors))

/-- The plural of a noun if there is not one of it. -/
def plural (count : Nat) (noun : String) : String :=
  if count = 1 then noun else noun ++ "s"

end Terminal

namespace Diagnostic

open Terminal

/-- The style of a severity. -/
def Severity.style : Severity → Terminal.Style
  | error => .error
  | warning => .warning

/-- The first line of a diagnostic. -/
def header (d : Diagnostic) : List Span :=
  [.styled d.severity.style d.severity.word, .code d.code.text,
    .plain (": " ++ d.message ++ "\n")]

/-- The line that a diagnostic is about, and a caret under the column, with the
    label behind it. -/
def excerpt (position : Position) (label : Option String) (line : String) : List Span :=
  let number := toString position.line
  let gutter := "".pushn ' ' number.length
  let indent := "".pushn ' ' (position.column - 1)
  [.plain (" " ++ gutter ++ " |\n"), .plain (" " ++ number ++ " | " ++ line ++ "\n"),
    .plain (" " ++ gutter ++ " | " ++ indent),
    .styled .error (label.elim "^" fun text => "^ " ++ text), .plain "\n"]

/-- The label on a line of its own, where there is no line to point at. -/
def bareLabel (label : Option String) : List Span :=
  label.elim [] fun text => [.plain "   = ", .styled .error text, .plain "\n"]

/-- Where the fault is: the path and position, and the line if there is one. -/
def location (source : Option Listing) (d : Diagnostic) : List Span :=
  match d.position with
  | none => []
  | some position =>
    let path := source.elim "<input>" Listing.path
    [.plain "  ", .styled .frame "-->", .plain (" " ++ path ++ ":" ++ position.render ++ "\n")]
      ++ match source.bind fun l => l.line? position.line with
        | some line => excerpt position d.label line
        | none => bareLabel d.label

/-- What else is known, and what could be done. -/
def remarks (d : Diagnostic) : List Span :=
  (d.notes.flatMap fun note =>
      [.plain "   = ", .noteWord, .plain (": " ++ note ++ "\n")])
    ++ d.suggestions.flatMap fun suggestion =>
      [.plain "   = ", .styled .help "help", .plain (": " ++ suggestion ++ "\n")]

/-- A diagnostic as it is shown, with an empty line behind it. -/
def spans (source : Option Listing) (d : Diagnostic) : List Span :=
  d.header ++ d.location source ++ d.remarks ++ [.plain "\n"]

/-- How many warnings there were. -/
def warningCount (warnings : Nat) : String :=
  toString warnings ++ " " ++ plural warnings "warning" ++ " emitted"

/-- The line after all diagnostics. There is none if there was nothing to say. -/
def summary (errors warnings : Nat) : List Span :=
  if 0 < errors then
    let count := if errors = 1 then "previous error" else toString errors ++ " previous errors"
    let more := if 0 < warnings then "; " ++ warningCount warnings else ""
    [.styled .error "error", .plain (": aborting due to " ++ count ++ more ++ "\n")]
  else if 0 < warnings then
    [.styled .warning "warning", .plain (": " ++ warningCount warnings ++ "\n")]
  else []

end Diagnostic

end TinyLang

import TinyLang.Diagnostic.Code
import TinyLang.LexError
import TinyLang.SyntaxError

/-!
# Diagnostics

A diagnostic is what is said to the author of a source about one fault: a code,
a message, the place, and what helps to understand and mend it. Lexical and
syntax errors each have one, and so has a program that does not come first in
its source.
-/

namespace TinyLang

namespace Diagnostic

/-- How bad a fault is. -/
inductive Severity where
  /-- The source is rejected. -/
  | error
  /-- The source may still be accepted. -/
  | warning
deriving DecidableEq, Repr, Inhabited

/-- The word for a severity. -/
def Severity.word : Severity → String
  | error => "error"
  | warning => "warning"

end Diagnostic

/-- What is said about one fault of a source. -/
structure Diagnostic where
  /-- What the diagnostic is about. -/
  code : Diagnostic.Code
  /-- How bad it is. -/
  severity : Diagnostic.Severity
  /-- What is wrong. -/
  message : String := ""
  /-- Where, if the place is known. -/
  position : Option Position := none
  /-- What is wrong with what stands there. -/
  label : Option String := none
  /-- What else is known. -/
  notes : List String := []
  /-- What could be done. -/
  suggestions : List String := []
deriving DecidableEq, Repr

namespace Diagnostic

/-- Whether the source is rejected. -/
def isError (d : Diagnostic) : Bool := d.severity == .error

/-- A diagnostic on one line. -/
def render (d : Diagnostic) : String :=
  d.severity.word ++ "[" ++ d.code.text ++ "]: " ++ d.message
    ++ (d.position.elim "" fun p => " at " ++ p.render)

end Diagnostic

/-- What is said about a lexical error. -/
def LexError.diagnostic (e : LexError) : Diagnostic :=
  match e.fault with
  | .illegalCharacter found =>
    { code := .illegalCharacter
      severity := .error
      message := "illegal character `" ++ Text.escapedChar found ++ "`"
      position := some e.position
      label := some "not part of any token"
      suggestions :=
        ["remove it; tokens are letters, digits and `: := = =< < > >= != + - * / ; ( ) . ,`"] }
  | .unreadable cause =>
    { code := .unreadable
      severity := .error
      message := "could not read source: " ++ cause.message
      position := some e.position }

namespace SyntaxError

/-- The token that was found, with its text if it has one. -/
def foundText (e : SyntaxError) : String :=
  if e.found.value.isEmpty then "`" ++ e.found.kind.tag ++ "`"
  else e.found.kind.tag ++ " `" ++ e.found.value ++ "`"

/-- What mends the two faults that are met most. -/
def suggestions (e : SyntaxError) : List String :=
  match e.expected with
  | .token .semicolon => ["add `;` after the previous statement"]
  | .token .dot => ["end the program with `.`"]
  | _ => []

/-- What is said about a syntax error. -/
def diagnostic (e : SyntaxError) : Diagnostic :=
  if e.isMissingProgram then
    { code := .missingProgram
      severity := .error
      message := "no `program` header found"
      position := some e.found.position
      label := some "reached end of input"
      suggestions := ["start the source with `program <name>:`"] }
  else
    { code := .unexpectedToken
      severity := .error
      message := "expected `" ++ e.expected.render ++ "`, found " ++ e.foundText
      position := some e.found.position
      label := some ("expected `" ++ e.expected.render ++ "` here")
      notes := ("while recognizing " ++ e.rule)
        :: (if e.follow.isEmpty then [] else ["may be followed by: " ++ e.follow.render])
      suggestions := e.suggestions }

end SyntaxError

end TinyLang

import TinyLang.Command.Basic
import TinyLang.Diagnostic.Explanation

/-!
# Explaining a code
-/

namespace TinyLang.Command

open Diagnostic (Code)

/-- The codes of one class, on one line. -/
def codesWhere (p : Code → Bool) : String :=
  ", ".intercalate ((Code.all.filter p).map Code.text)

/-- What is said about a code that does not exist. -/
def unknownCode (code : String) : List String :=
  ["Unknown error code: " ++ code, "",
    "Codes have the format EXXXX (errors) or WXXXX (warnings) where X is a digit.",
    "Known codes:",
    "  lexer errors:  " ++ codesWhere Code.isLexical,
    "  parser errors: " ++ codesWhere Code.isSyntactic,
    "  warnings:      " ++ codesWhere Code.isWarning]

/-- Explains a code. -/
def explainCode (code : String) : Run :=
  match Code.ofText? code with
  | some code => { result := .ok .accepted, output := code.explanation ++ "\n", diagnostics := "" }
  | none =>
    { result := .ok .rejected
      output := ""
      diagnostics := String.join ((unknownCode code).map (· ++ "\n")) }

end TinyLang.Command

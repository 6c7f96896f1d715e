import TinyLang.Diagnostic.Code
import TinyLang.Position
import TinyLang.Source

/-!
# Lexical errors

Splitting a source into tokens fails at a character that is part of no token,
or because the source cannot be read.
-/

namespace TinyLang

/-- What went wrong between the tokens. -/
inductive LexFault where
  /-- A character that is part of no token. -/
  | illegalCharacter (found : Char)
  /-- The source could not be read. -/
  | unreadable (cause : ReadError)
deriving DecidableEq, Repr

/-- What went wrong, and where. -/
structure LexError where
  /-- Where the fault was met. -/
  position : Position
  /-- The fault. -/
  fault : LexFault
deriving DecidableEq, Repr

/-- What is said about a fault. -/
def LexFault.message : LexFault → String
  | illegalCharacter found => "Illegal Character '" ++ found.toString ++ "'"
  | unreadable cause => "IO Exception: " ++ cause.message

namespace LexError

/-- The code of the fault. -/
def code (e : LexError) : Diagnostic.Code :=
  match e.fault with
  | .illegalCharacter _ => .illegalCharacter
  | .unreadable _ => .unreadable

/-- An error as a line of its own. -/
def message (e : LexError) : String :=
  e.position.render ++ "\t>>>>>> " ++ e.fault.message

end LexError

end TinyLang

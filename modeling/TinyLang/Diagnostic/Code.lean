import TinyLang.Text.Blank

/-!
# Diagnostic codes

Everything that can be said against a source has a code: a letter for an error
or a warning, a digit for the stage that finds it, and a number.
-/

namespace TinyLang.Diagnostic

/-- What a diagnostic is about. -/
inductive Code where
  /-- A character that is part of no token. -/
  | illegalCharacter
  /-- The source cannot be read. -/
  | unreadable
  /-- A token that the grammar does not allow here. -/
  | unexpectedToken
  /-- There is no program in the source. -/
  | missingProgram
  /-- There are tokens before the program. -/
  | skippedTokens
deriving DecidableEq, Repr, Inhabited

namespace Code

/-- All codes, in order. -/
def all : List Code :=
  [illegalCharacter, unreadable, unexpectedToken, missingProgram, skippedTokens]

/-- How a code is written. -/
def text : Code → String
  | illegalCharacter => "E0001"
  | unreadable => "E0002"
  | unexpectedToken => "E1001"
  | missingProgram => "E1002"
  | skippedTokens => "W1001"

/-- Whether the code is that of an error found among the characters. -/
def isLexical : Code → Bool
  | illegalCharacter | unreadable => true
  | _ => false

/-- Whether the code is that of an error found among the tokens. -/
def isSyntactic : Code → Bool
  | unexpectedToken | missingProgram => true
  | _ => false

/-- Whether the code is that of a warning. -/
def isWarning : Code → Bool
  | skippedTokens => true
  | _ => false

/-- Reads a code. Blanks around it do not matter, nor does the case of its
    letter. -/
def ofText? (s : String) : Option Code :=
  let wanted := (Text.trim s).map Char.toUpper
  all.find? fun code => code.text == wanted

end Code

end TinyLang.Diagnostic

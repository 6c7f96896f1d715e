import TinyLang.Diagnostic.Code
import TinyLang.KindSet
import TinyLang.Token

/-!
# Syntax errors

A syntax error says which kinds of token a rule of the grammar wanted, which
rule that was, and which token it found instead.
-/

namespace TinyLang

/-- What a rule of the grammar wants next. -/
inductive Expected where
  /-- A token of one kind. -/
  | token (kind : Kind)
  /-- A token of any of several kinds. -/
  | oneOf (kinds : KindSet)
deriving DecidableEq, Repr

namespace Expected

/-- Whether a kind of token is wanted. -/
def contains (e : Expected) (k : Kind) : Bool :=
  match e with
  | token kind => kind == k
  | oneOf kinds => kinds.contains k

/-- The tags of the kinds that are wanted. -/
def render : Expected → String
  | token kind => kind.tag
  | oneOf kinds => kinds.render

end Expected

/-- A token that a rule of the grammar does not allow. -/
structure SyntaxError where
  /-- What the rule wanted. -/
  expected : Expected
  /-- The name of the rule. -/
  rule : String
  /-- The token that was there. -/
  found : Token
  /-- What may come after what the rule was looking for. -/
  follow : KindSet
deriving DecidableEq

namespace SyntaxError

/-- Whether the error is that there is no program in the source. -/
def isMissingProgram (e : SyntaxError) : Bool :=
  e.expected == .token .kwProgram && e.found.isEof

/-- The code of the error. -/
def code (e : SyntaxError) : Diagnostic.Code :=
  if e.isMissingProgram then .missingProgram else .unexpectedToken

/-- An error as a line of its own. -/
def message (e : SyntaxError) : String :=
  "Syntax error expected '" ++ e.expected.render ++ "' from method: " ++ e.rule
    ++ " Is kind: " ++ e.found.kind.tag ++ " Is value: " ++ e.found.value
    ++ " Position: " ++ e.found.position.render

end SyntaxError

end TinyLang

import TinyLang.Cursor
import TinyLang.SyntaxError

/-!
# Parsers

A parser is a cursor with a record of what happened so far: the tokens that
were matched, if they are to be recorded, and the errors. It can match the
token it stands at, note an error, and pass over tokens until it finds one at
which it can resume.
-/

namespace TinyLang

/-- The rules of the grammar that match tokens themselves. -/
inductive Rule where
  | program
  | declaration
  | statements
  | statement
  | simpleExpression
  | term
  | factor
  | relationalOperator
  | unaryOperator
deriving DecidableEq, Repr

/-- The name of a rule. -/
def Rule.name : Rule → String
  | program => "program"
  | declaration => "declaration"
  | statements => "statements"
  | statement => "statement"
  | simpleExpression => "simpleExpression"
  | term => "term"
  | factor => "factor"
  | relationalOperator => "relationalOperator"
  | unaryOperator => "unaryOperator"

/-- A token that was matched, and the rule that did. -/
structure Match where
  /-- The kind of the token. -/
  kind : Kind
  /-- The name of the rule. -/
  rule : String
  /-- Where the token stands. -/
  position : Position
deriving DecidableEq, Repr

/-- A match as a line of the listing of matches. -/
def Match.listing (m : Match) : String :=
  "Expected: " ++ m.kind.tag ++ " from method: " ++ m.rule

namespace Parser

/-- What a parser does about an error. -/
inductive Recovery where
  /-- It stops. -/
  | halt
  /-- It passes over tokens until it can resume. -/
  | panic
deriving DecidableEq, Repr, Inhabited

/-- How to parse. -/
structure Options where
  /-- What to do about an error. -/
  recovery : Recovery := .halt
  /-- The number of errors at which a parser that resumes stops after all; zero
      stands for no limit. -/
  errorLimit : Nat := 10
  /-- Whether matches are recorded. -/
  recordMatches : Bool := false
deriving DecidableEq, Repr

end Parser

/-- A list of tokens in the course of being parsed. -/
structure Parser where
  /-- How to parse. -/
  options : Parser.Options
  /-- Where the parser stands. -/
  cursor : Cursor
  /-- The recorded matches. -/
  trace : Array Match := #[]
  /-- The errors. -/
  errors : Array SyntaxError := #[]
  /-- The number of tokens before the program. -/
  skipped : Nat := 0
  /-- Where the last error was noted. -/
  lastErrorAt : Option Nat := none

namespace Parser

/-- A parser at the first token of a list. -/
def ofList (options : Options) (ts : TokenList) : Parser :=
  { options, cursor := .ofList ts }

/-- The kind of the token that the parser stands at. -/
def kind (p : Parser) : Kind := p.cursor.kind

/-- The number of tokens that the parser can still pass. -/
def left (p : Parser) : Nat := p.cursor.left

/-- Matches the token that the parser stands at. -/
def accept (rule : Rule) (p : Parser) : Parser :=
  let token := p.cursor.current
  { p with
    cursor := p.cursor.advance
    trace :=
      if p.options.recordMatches then p.trace.push ⟨token.kind, rule.name, token.position⟩
      else p.trace }

/-- Matches the token that the parser stands at if it is of a given kind. -/
def acceptIf (kind : Kind) (rule : Rule) (p : Parser) : Parser :=
  if p.kind = kind then p.accept rule else p

/-- Passes over tokens up to one of a kind of `stops`. -/
def recover (stops : KindSet) (p : Parser) : Parser :=
  { p with cursor := p.cursor.synchronize stops }

/-- Notes an error at the token that the parser stands at. A token is at fault
    only once: a second error there is not noted. -/
def note (expected : Expected) (rule : Rule) (follow : KindSet) (p : Parser) : Parser :=
  if p.lastErrorAt = some p.cursor.index then p
  else
    { p with
      errors := p.errors.push ⟨expected, rule.name, p.cursor.current, follow⟩
      lastErrorAt := some p.cursor.index }

/-- Whether a parser that noted an error has to stop. -/
def mustStop (p : Parser) : Bool :=
  match p.options.recovery with
  | .halt => true
  | .panic => p.options.errorLimit != 0 && p.options.errorLimit ≤ p.errors.size

/-! ## What is left -/

theorem left_accept_lt {p : Parser} (h : p.kind ≠ .eof) (rule : Rule) :
    (p.accept rule).left < p.left :=
  Cursor.left_advance_lt h

theorem left_accept_le (p : Parser) (rule : Rule) : (p.accept rule).left ≤ p.left :=
  Cursor.left_advance_le p.cursor

theorem left_acceptIf_le (p : Parser) (kind : Kind) (rule : Rule) :
    (p.acceptIf kind rule).left ≤ p.left := by
  unfold acceptIf
  split
  · exact left_accept_le p rule
  · exact Nat.le_refl _

theorem left_recover_le (p : Parser) (stops : KindSet) : (p.recover stops).left ≤ p.left :=
  Cursor.left_synchronize_le stops p.cursor

@[simp]
theorem left_note (p : Parser) (expected : Expected) (rule : Rule) (follow : KindSet) :
    (p.note expected rule follow).left = p.left := by
  unfold note
  split <;> rfl

end Parser

end TinyLang

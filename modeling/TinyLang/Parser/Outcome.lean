import TinyLang.Parser.Agenda

/-!
# Outcomes of parsing

A list of tokens is a program if parsing it meets no error. The outcome counts
the tokens before the program, those up to its end, and those after it.
-/

namespace TinyLang

/-- How many tokens a program took. -/
structure Summary where
  /-- The number of tokens up to the end of the program. -/
  consumed : Nat
  /-- The number of tokens after it. -/
  trailing : Nat
  /-- The number of tokens before the program. -/
  skipped : Nat
deriving DecidableEq, Repr

/-- What comes of parsing a list of tokens. -/
structure Outcome where
  /-- How many tokens were taken, left behind and passed over at the start. -/
  summary : Summary
  /-- The matched tokens, if they were to be recorded. -/
  trace : List Match
  /-- The errors. -/
  errors : List SyntaxError
deriving DecidableEq

namespace Outcome

/-- Whether the tokens are a program. -/
def isOk (o : Outcome) : Bool := o.errors.isEmpty

/-- Whether there is an error. -/
def hasErrors (o : Outcome) : Bool := !o.errors.isEmpty

/-- The summary, or the errors if there are any. -/
def result (o : Outcome) : Except (List SyntaxError) Summary :=
  if o.isOk then .ok o.summary else .error o.errors

end Outcome

namespace Parser

/-- Recognises a goal at the start of a list of tokens. -/
def recognize (options : Options) (g : Goal) (ts : TokenList) : Ending :=
  (ofList options ts).run [g]

/-- What came of a run. A parser that was stopped leaves nothing behind. -/
def Ending.outcome (e : Ending) : Outcome where
  summary :=
    { consumed := e.parser.cursor.index
      trailing := if e.isCompleted then e.parser.cursor.remaining else 0
      skipped := e.parser.skipped }
  trace := e.parser.trace.toList
  errors := e.parser.errors.toList

end Parser

/-- Parses a program. -/
def parseWith (options : Parser.Options) (ts : TokenList) : Outcome :=
  (Parser.recognize options .program ts).outcome

/-- Parses a program up to the first error. -/
def parse (ts : TokenList) : Except SyntaxError Summary :=
  let outcome := parseWith {} ts
  match outcome.errors with
  | [] => .ok outcome.summary
  | e :: _ => .error e

end TinyLang

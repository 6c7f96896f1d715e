import TinyLang.Lexer
import TinyLang.Report

/-!
# Commands

There are three things to do: to check whether a source is a program, to list
its tokens, and to explain a code. Each ends with a verdict.
-/

namespace TinyLang

namespace Command

/-- How a source is checked or listed. -/
structure Options where
  /-- Where the source is; it is asked for if no path is given. -/
  path : Option String := none
  /-- Whether to go on after a syntax error. -/
  recover : Bool := false
  /-- Whether to report all illegal characters and not only the first. -/
  allLexErrors : Bool := false
  /-- The number of syntax errors to stop at; zero stands for no limit. -/
  errorLimit : Nat := 10
  /-- Whether to leave out the listings of tokens and matches. -/
  quiet : Bool := false
  /-- How errors are written. -/
  format : Report.Format := .classic
  /-- When to use colours. -/
  color : Terminal.ColorMode := .auto
  /-- Whether to show the log as a tree. -/
  logTree : Bool := false
deriving DecidableEq, Repr

namespace Options

/-- What an illegal character does. -/
def lexerMode (o : Options) : Lexer.Mode := if o.allLexErrors then .collectAll else .halt

/-- How the tokens are parsed. -/
def parserOptions (o : Options) : Parser.Options where
  recovery := if o.recover then .panic else .halt
  errorLimit := o.errorLimit
  recordMatches := !o.quiet

/-- How the report looks. -/
def style (o : Options) (onTerminal : Bool) : Report.Style where
  format := o.format
  color := o.color
  onTerminal := onTerminal

end Options

/-- What is said of a source in the end. -/
inductive Verdict where
  | accepted
  | rejected
deriving DecidableEq, Repr, Inhabited

/-- The exit status for a verdict. -/
def Verdict.exitStatus : Verdict → Nat
  | accepted => 0
  | rejected => 1

/-- What a command did: the end it came to, and what it wrote. -/
structure Run where
  /-- The verdict, or the reason why there is none. -/
  result : Except ReadError Verdict
  /-- What was written to the output stream. -/
  output : String
  /-- What was written to the diagnostic stream. -/
  diagnostics : String

end Command

/-- Something to do. -/
inductive Command where
  /-- Check whether a source is a program. -/
  | check (options : Command.Options)
  /-- List the tokens of a source. -/
  | lex (options : Command.Options)
  /-- Explain a code. -/
  | explain (code : String)
deriving DecidableEq, Repr

namespace Command

/-- Whether to show the log as a tree. -/
def logTree : Command → Bool
  | check options => options.logTree
  | lex options => options.logTree
  | explain _ => false

end Command

end TinyLang

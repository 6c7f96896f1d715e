import TinyLang.Command.Basic

/-!
# Checking a source

A source is split into tokens first. If that meets no error, listing its tokens
accepts it, and checking it goes on to parse them. The verdict does not depend
on how much is reported.
-/

namespace TinyLang.Command

open Report (Event)

/-- What is reported about the items of a lexer. -/
def itemEvents (quiet : Bool) (items : List Lexer.Item) : List Event :=
  items.filterMap fun
    | .ok token => if quiet then none else some (.token token)
    | .error e => some (.lexError e)

/-- What is reported about parsing tokens. -/
def outcomeEvents (options : Options) (tokens : TokenList) (outcome : Outcome) : List Event :=
  let skipped :=
    if 0 < outcome.summary.skipped then
      tokens.head?.toList.map fun first =>
        Event.skipped outcome.summary.skipped first.position
    else []
  let verdict :=
    if outcome.isOk then [Event.line "Parsing successful."]
    else if options.recover then [Event.line "Parsing failed."]
    else []
  outcome.trace.map Event.matched ++ skipped ++ outcome.errors.map Event.syntaxError ++ verdict

/-- What checking a text reports, and the verdict. -/
def checkEvents (options : Options) (text : String) : List Event × Verdict :=
  let items := (Lexer.ofSource options.lexerMode (.ofText text)).items
  let events := itemEvents options.quiet items
  let lexing := Lexing.ofItems items
  if lexing.hasErrors then (events, .rejected)
  else
    let outcome := parseWith options.parserOptions lexing.tokens
    (events ++ outcomeEvents options lexing.tokens outcome,
      if outcome.isOk then .accepted else .rejected)

/-- What listing the tokens of a text reports, and the verdict. -/
def lexEvents (options : Options) (text : String) : List Event × Verdict :=
  let items := (Lexer.ofSource options.lexerMode (.ofText text)).items
  (itemEvents false items,
    if (Lexing.ofItems items).hasErrors then .rejected else .accepted)

/-- The run that reports given events. -/
def report (style : Report.Style) (source : SourceFile) (told : List Event × Verdict) : Run where
  result := .ok told.2
  output := Report.output style told.1
  diagnostics := Report.diagnosticText style source told.1

/-- Checks a source file. -/
def checkSource (options : Options) (onTerminal : Bool) (source : SourceFile) : Run :=
  report (options.style onTerminal) source (checkEvents options source.text)

/-- Lists the tokens of a source file. -/
def lexSource (options : Options) (onTerminal : Bool) (source : SourceFile) : Run :=
  report (options.style onTerminal) source (lexEvents options source.text)

end TinyLang.Command

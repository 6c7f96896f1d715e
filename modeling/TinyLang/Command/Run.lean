import TinyLang.Command.Check
import TinyLang.Command.Explain
import TinyLang.Command.Locate

/-!
# Running a command

A command runs in an environment: the files that can be read, the lines of
input, and whether diagnostics go to a terminal.
-/

namespace TinyLang.Command

/-- What a command finds around it. -/
structure Environment where
  /-- The reading of files. -/
  files : Files
  /-- The lines of input. -/
  input : List (Except ReadError String)
  /-- Whether diagnostics go to a terminal. -/
  onTerminal : Bool

/-- Finds the source that options ask for, and does something with it. -/
def withSource (env : Environment) (options : Options) (f : SourceFile → Run) : Run :=
  let search := locate env.files options.path env.input
  match search.location with
  | .found source =>
    let run := f source
    { run with output := search.output ++ run.output }
  | .unreadable => { result := .ok .rejected, output := search.output, diagnostics := "" }
  | .endOfInput =>
    { result := .ok .rejected
      output := search.output ++ "\n"
      diagnostics := "error: no input file given\n" }
  | .badInput cause => { result := .error cause, output := search.output, diagnostics := "" }

/-- Runs a command. -/
def run (env : Environment) : Command → Run
  | .check options => withSource env options (checkSource options env.onTerminal)
  | .lex options => withSource env options (lexSource options env.onTerminal)
  | .explain code => explainCode code

end TinyLang.Command

import TinyLang.Command.Arguments
import TinyLang.Command.Run

/-!
# The command line

The program reads its arguments, runs the command they ask for, and exits with
the status of its verdict. Without a path, prompts and lines of input alternate,
so the search for a source happens here, with the words of `Command.prompt`.
-/

open TinyLang

/-! ## Texts -/

/-- How the program is called. -/
def usage : String :=
  "Usage: tiny [check | lex] [OPTIONS] [PATH]\n" ++
  "       tiny explain CODE\n\n" ++
  "Options:\n" ++
  "      --recover         Keep parsing after a syntax error\n" ++
  "      --all-lex-errors  Report every illegal character\n" ++
  "      --error-limit N   Stop after N syntax errors when recovering (0 = no limit)\n" ++
  "  -q, --quiet           Do not print the token and match traces\n" ++
  "      --format FORMAT   classic or rich\n" ++
  "      --color WHEN      auto, always or never\n" ++
  "      --log-tree        Render the log as an indented tree\n" ++
  "  -h, --help            Print help\n" ++
  "  -V, --version         Print version\n"

/-- What is said about arguments that do not lead to a command. -/
def refusalText : Command.Refusal → String
  | .unknownArgument => "error: unexpected argument found"
  | .invalidValue => "error: invalid or missing value"
  | .malformedValue => "error: malformed value"
  | .conflict => "error: conflicting arguments"
  | .missingArgument => "error: a required argument was not provided"
  | .tooManyValues => "error: unexpected value for a flag"
  | .unknownSubcommand => "error: unrecognized subcommand"
  | .helpRequested => usage
  | .versionRequested => "tiny 0.1.0"

/-! ## Reading -/

/-- The cause of a failed read. The system tells several causes by the number of
    the error, which comes with either sign. -/
def readErrorOf (e : IO.Error) : ReadError :=
  match e with
  | .noFileOrDirectory .. => .notFound
  | .inappropriateType _ code _ =>
    if min code (0 - code) = 21 then .isDirectory else .notDirectory
  | .invalidArgument _ code _ =>
    if min code (0 - code) = 36 then .nameTooLong else .other (toString e)
  | _ => .other (toString e)

/-- The text of the file at a path. -/
def readText (path : String) : IO (Except ReadError String) := do
  if path.contains '\x00' then return .error .nulInPath
  try
    let bytes ← IO.FS.readBinFile path
    return Source.decode bytes.toList
  catch e => return .error (readErrorOf e)

/-- The next line of input, with its line end; nothing at the end. -/
partial def readLine (input : IO.FS.Stream) (line : Array UInt8) :
    IO (Option (Except ReadError String)) := do
  let bytes ← input.read 1
  match bytes.toList with
  | [] => return if line.isEmpty then none else some (Source.decode line.toList)
  | byte :: _ =>
    let line := line.push byte
    if byte == 10 then return some (Source.decode line.toList) else readLine input line

/-- Prompts for a path until a file can be read or the input ends, and runs a
    command that is given the answers that decided. -/
partial def promptAndRun (command : Command.Environment → Command.Run) (onTerminal : Bool) :
    IO Command.Run := do
  let output ← IO.getStdout
  output.putStr Command.promptText
  output.flush
  match ← readLine (← IO.getStdin) #[] with
  | some (.ok line) =>
    match ← readText (Text.trim line) with
    | .ok text => return command ⟨fun _ => .ok text, [.ok line], onTerminal⟩
    | .error cause =>
      output.putStr (Command.fileError cause)
      promptAndRun command onTerminal
  | some (.error cause) => return command ⟨fun _ => .error cause, [.error cause], onTerminal⟩
  | none => return command ⟨fun _ => .error .notFound, [], onTerminal⟩

/-! ## Running -/

/-- The path that a command is given. -/
def pathOf : Command → Option (Option String)
  | .check options => some options.path
  | .lex options => some options.path
  | .explain _ => none

/-- Runs a command with the files and streams of the system. The last prompt was
    written when it was answered, and is not written again. -/
def runCommand (command : Command) : IO Command.Run := do
  let onTerminal ← (← IO.getStderr).isTty
  match pathOf command with
  | none => return Command.run ⟨fun _ => .error .notFound, [], onTerminal⟩ command
  | some (some path) =>
    let text ← readText path
    return Command.run ⟨fun _ => text, [], onTerminal⟩ command
  | some none =>
    let run ← promptAndRun (fun env => Command.run env command) onTerminal
    return { run with output := (run.output.drop Command.promptText.length).toString }

/-- Reads the arguments, runs the command and exits. -/
def main (arguments : List String) : IO UInt32 := do
  match Command.ofArguments arguments with
  | .error refusal =>
    if refusal.exitStatus = 0 then IO.println (refusalText refusal)
    else IO.eprintln (refusalText refusal)
    return refusal.exitStatus.toUInt32
  | .ok command =>
    let run ← runCommand command
    IO.print run.output
    IO.eprint run.diagnostics
    match run.result with
    | .ok verdict => return verdict.exitStatus.toUInt32
    | .error cause =>
      IO.eprintln ("error: " ++ cause.message)
      return 1

import TinyLang.Command.Basic
import TinyLang.Text.Numeral

/-!
# Arguments

The arguments after the name of the program say what to do. The first one may
name a subcommand; without a subcommand a source is checked. Arguments are read
from left to right, and the first problem decides.

A value or path is looked at late: when the next option, or the next path that
there is room for, begins, or at the end (`Reading.settle`). An unknown option,
a value that a switch does not take and a path too many are refused before
that.
-/

namespace TinyLang.Command

/-- Why arguments do not lead to a command. -/
inductive Refusal where
  /-- An argument that is not known. -/
  | unknownArgument
  /-- A value that is not among the choices, or that is missing. -/
  | invalidValue
  /-- A value that cannot be read as what it has to be. -/
  | malformedValue
  /-- An argument that does not go with the others. -/
  | conflict
  /-- An argument that is missing. -/
  | missingArgument
  /-- A value for a switch. -/
  | tooManyValues
  /-- A subcommand that is not known. -/
  | unknownSubcommand
  /-- The user asked for help. -/
  | helpRequested
  /-- The user asked for the version. -/
  | versionRequested
deriving DecidableEq, Repr

/-- The exit status for a refusal. Being asked for help is no error. -/
def Refusal.exitStatus : Refusal → Nat
  | helpRequested | versionRequested => 0
  | _ => 2

/-! ## Options -/

/-- Where options stand: what is known differs between the subcommands. -/
inductive Level where
  /-- Before any subcommand. -/
  | top
  /-- In a subcommand on a source. -/
  | source
  /-- In the subcommand that explains a code. -/
  | explain
deriving DecidableEq, Repr

/-- An option without a value. -/
inductive Switch where
  | recover
  | allLexErrors
  | quiet
  | logTree
  | help
  | version
deriving DecidableEq, Repr

/-- An option with a value. -/
inductive Setting where
  | errorLimit
  | format
  | color
deriving DecidableEq, Repr

/-- Whether a switch is known. -/
def Switch.isKnown (level : Level) : Switch → Bool
  | help => true
  | version => level == .top
  | _ => level != .explain

/-- The switch with a given name. -/
def Switch.ofName? (level : Level) (name : String) : Option Switch :=
  let switch? := match name with
    | "recover" => some recover
    | "all-lex-errors" => some allLexErrors
    | "quiet" => some quiet
    | "log-tree" => some logTree
    | "help" => some help
    | "version" => some version
    | _ => none
  switch?.filter (isKnown level)

/-- The switch with a given letter. -/
def Switch.ofLetter? (level : Level) (letter : Char) : Option Switch :=
  let switch? := match letter with
    | 'q' => some quiet
    | 'h' => some help
    | 'V' => some version
    | _ => none
  switch?.filter (isKnown level)

/-- The setting with a given name. -/
def Setting.ofName? (level : Level) (name : String) : Option Setting :=
  if level = .explain then none
  else
    match name with
    | "error-limit" => some errorLimit
    | "format" => some format
    | "color" => some color
    | _ => none

/-- The choices for the format. -/
def format? : String → Option Report.Format
  | "classic" => some .classic
  | "rich" => some .rich
  | _ => none

/-- The choices for the use of colours. -/
def color? : String → Option Terminal.ColorMode
  | "auto" => some .auto
  | "always" => some .always
  | "never" => some .never
  | _ => none

/-! ## Reading arguments -/

/-- What was read and not yet looked at. -/
inductive Deferred where
  /-- Nothing. -/
  | nothing
  /-- A setting that still waits for its value. -/
  | setting (s : Setting)
  /-- The value of a setting. -/
  | value (s : Setting) (text : String)
  /-- A path or code. -/
  | operand (text : String)
deriving DecidableEq, Repr

/-- Arguments in the course of being read. -/
structure Reading where
  /-- Which options are known. -/
  level : Level
  /-- What the options came to so far. -/
  options : Options := {}
  /-- The code to explain, if it was given. -/
  code : Option String := none
  /-- The switches that were given. -/
  switches : List Switch := []
  /-- The settings that were given. -/
  settings : List Setting := []
  /-- What is still to be looked at. -/
  deferred : Deferred := .nothing
  /-- Whether there was a path or code. -/
  hasOperand : Bool := false
  /-- Whether all that follows are paths or codes. -/
  onlyOperands : Bool := false

namespace Reading

/-- Gives a setting its value. -/
def assign (s : Setting) (text : String) (r : Reading) : Except Refusal Reading :=
  if r.settings.contains s then .error .conflict
  else
    let r := { r with settings := s :: r.settings }
    match s with
    | .errorLimit =>
      match Text.word64? text with
      | some n => .ok { r with options.errorLimit := n }
      | none => .error .malformedValue
    | .format =>
      match format? text with
      | some f => .ok { r with options.format := f }
      | none => .error .invalidValue
    | .color =>
      match color? text with
      | some c => .ok { r with options.color := c }
      | none => .error .invalidValue

/-- Looks at what was deferred. -/
def settle (r : Reading) : Except Refusal Reading :=
  let r' := { r with deferred := .nothing }
  match r.deferred with
  | .nothing => .ok r'
  | .setting _ => .error .invalidValue
  | .value s text => r'.assign s text
  | .operand text =>
    if r.level = .explain then .ok { r' with code := some text }
    else if text = "" then .error .invalidValue
    else .ok { r' with options.path := some text }

/-- Turns a switch on. -/
def turnOn (w : Switch) (r : Reading) : Except Refusal Reading := do
  let r ← r.settle
  if w = .help then throw .helpRequested
  if w = .version then throw .versionRequested
  if r.switches.contains w then throw .conflict
  let r := { r with switches := w :: r.switches }
  match w with
  | .recover => return { r with options.recover := true }
  | .allLexErrors => return { r with options.allLexErrors := true }
  | .quiet => return { r with options.quiet := true }
  | .logTree => return { r with options.logTree := true }
  | .help | .version => return r

/-- Reads an option by name, with a value behind an equals sign if there is
    one. -/
def readNamed (body : List Char) (r : Reading) : Except Refusal Reading := do
  let name := String.ofList (body.takeWhile (· != '='))
  let value? := match body.dropWhile (· != '=') with
    | _ :: text => some (String.ofList text)
    | [] => none
  match Switch.ofName? r.level name, Setting.ofName? r.level name, value? with
  | some w, _, none => r.turnOn w
  | some _, _, some _ => throw .tooManyValues
  | none, some s, some text => (← r.settle).assign s text
  | none, some s, none => return { ← r.settle with deferred := .setting s }
  | none, none, _ => throw .unknownArgument

/-- Reads switches by letter, one after the other. -/
def readLetters (letters : List Char) (r : Reading) : Except Refusal Reading :=
  letters.foldlM (fun r letter =>
    match Switch.ofLetter? r.level letter with
    | some w => r.turnOn w
    | none => .error .unknownArgument) r

/-- Reads a path or code. There is room for one. -/
def readOperand (text : String) (r : Reading) : Except Refusal Reading := do
  if r.hasOperand then
    throw (if r.level = .top then .conflict else .unknownArgument)
  return { ← r.settle with deferred := .operand text, hasOperand := true }

/-- Reads an argument. -/
def read (r : Reading) (argument : String) : Except Refusal Reading :=
  if r.onlyOperands then r.readOperand argument
  else
    match argument.toList with
    | ['-', '-'] => .ok { r with onlyOperands := true }
    | '-' :: '-' :: body => r.readNamed body
    | '-' :: letter :: letters => r.readLetters (letter :: letters)
    | _ =>
      match r.deferred with
      | .setting s => .ok { r with deferred := .value s argument }
      | _ => r.readOperand argument

/-- Reads all arguments of a level. -/
def ofArguments (level : Level) (arguments : List String) : Except Refusal Reading := do
  (← arguments.foldlM read { level }).settle

end Reading

/-! ## Subcommands -/

/-- The names of the subcommands. -/
def subcommands : List String := ["check", "lex", "explain", "help"]

/-- The answer to a request for help, perhaps on a subcommand. -/
def helpOn : List String → Refusal
  | [] => .helpRequested
  | [name] => if subcommands.contains name then .helpRequested else .unknownSubcommand
  | _ => .unknownSubcommand

/-- The command that arguments ask for. -/
def ofArguments : List String → Except Refusal Command
  | "check" :: rest => do return .check (← Reading.ofArguments .source rest).options
  | "lex" :: rest => do return .lex (← Reading.ofArguments .source rest).options
  | "explain" :: rest => do
    match (← Reading.ofArguments .explain rest).code with
    | some code => return .explain code
    | none => throw .missingArgument
  | "help" :: rest => throw (helpOn rest)
  | rest => do return .check (← Reading.ofArguments .top rest).options

end TinyLang.Command

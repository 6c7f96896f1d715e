import TinyLang.SourceFile
import TinyLang.Source
import TinyLang.Text.Blank

/-!
# Locating a source

The source of a command is the file whose path is given. Without a path, the
user is prompted for one until a file can be read: each prompt takes one line
of input, without the blanks around it, for a path.
-/

namespace TinyLang.Command

/-- The reading of files: the text at a path, or why there is none. -/
abbrev Files := String → Except ReadError String

/-- Where the search for a source ends. -/
inductive Location where
  /-- At a source file. -/
  | found (source : SourceFile)
  /-- At a path that was given and cannot be read. -/
  | unreadable
  /-- At the end of the input. -/
  | endOfInput
  /-- At a line of input that cannot be read. -/
  | badInput (cause : ReadError)
deriving DecidableEq, Repr

/-- A search for a source. -/
structure Search where
  /-- Where it ends. -/
  location : Location
  /-- What was written on the way. -/
  output : String
  /-- The lines of input that were not taken. -/
  rest : List (Except ReadError String)

/-- What is asked. -/
def promptText : String := "Enter the path to the input file: "

/-- What is said about a file that cannot be read. -/
def fileError (cause : ReadError) : String := "Error reading file: " ++ cause.message ++ "\n"

/-- Prompts for a path until a file can be read. -/
def prompt (files : Files) (output : String) : List (Except ReadError String) → Search
  | [] => ⟨.endOfInput, output ++ promptText, []⟩
  | .error cause :: rest => ⟨.badInput cause, output ++ promptText, rest⟩
  | .ok line :: rest =>
    let path := Text.trim line
    match files path with
    | .ok text => ⟨.found ⟨path, text⟩, output ++ promptText, rest⟩
    | .error cause => prompt files (output ++ promptText ++ fileError cause) rest

/-- Finds the source at a path, or at one that the user is prompted for. -/
def locate (files : Files) (path : Option String) (input : List (Except ReadError String)) :
    Search :=
  match path with
  | none => prompt files "" input
  | some path =>
    match files path with
    | .ok text => ⟨.found ⟨path, text⟩, "", input⟩
    | .error cause => ⟨.unreadable, fileError cause, input⟩

end TinyLang.Command

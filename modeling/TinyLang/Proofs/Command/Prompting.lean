import Mathlib
import TinyLang.Command.Run

/-!
# Prompting for a source

Without a path, the user is prompted for one, and each line that names no readable file costs a
message and another prompt (`Command.prompt_misses`). So the lines that are taken are those up to
the first that decides: one that names a readable file, or one that cannot be read. If no line
decides, all of them are taken, and there is one prompt more than there are lines. With a path
nothing is asked and no line is taken (`Command.run_prompting`).
-/

namespace TinyLang.Command

/-- Lines that name files that cannot be read, each for the reason at its place in `causes`. -/
def Misses (files : Files) (lines : List String) (causes : List ReadError) : Prop :=
  List.Forall₂ (fun line cause => files (Text.trim line) = .error cause) lines causes

/-- What is written for lines that name no readable file: a prompt before each, and the reason
    behind it. -/
def retries (causes : List ReadError) : String :=
  String.join (causes.map fun cause => promptText ++ fileError cause)

/-- The command does `f` with a source, which it looks for as `options` ask. -/
inductive Seeks : Command → Options → (Bool → SourceFile → Run) → Prop
  | check (options : Options) : Seeks (.check options) options (checkSource options)
  | lex (options : Options) : Seeks (.lex options) options (lexSource options)

variable {files : Files} {lines : List String} {causes : List ReadError}

/-! ## The search -/

/-- Lines that name no readable file are taken, and the user is prompted again. -/
theorem prompt_misses (h : Misses files lines causes) (output : String)
    (rest : List (Except ReadError String)) :
    prompt files output (lines.map .ok ++ rest) = prompt files (output ++ retries causes) rest := by
  induction h generalizing output with
  | nil => simp [retries]
  | @cons line cause lines causes hline _ ih =>
    rw [List.map_cons, List.cons_append, prompt, hline]
    dsimp only
    rw [ih]
    simp [retries, String.append_assoc]

theorem locate_misses (h : Misses files lines causes) (rest : List (Except ReadError String)) :
    locate files none (lines.map .ok ++ rest) = prompt files (retries causes) rest := by
  rw [locate, prompt_misses h, String.empty_append]

theorem locate_of_readable (h : Misses files lines causes) {line text : String}
    (hline : files (Text.trim line) = .ok text) (rest : List (Except ReadError String)) :
    locate files none (lines.map .ok ++ .ok line :: rest) =
      ⟨.found ⟨Text.trim line, text⟩, retries causes ++ promptText, rest⟩ := by
  rw [locate_misses h, prompt, hline]

theorem locate_endOfInput (h : Misses files lines causes) :
    locate files none (lines.map .ok) = ⟨.endOfInput, retries causes ++ promptText, []⟩ := by
  have hall := locate_misses h []
  rw [List.append_nil] at hall
  rw [hall, prompt]

theorem locate_badInput (h : Misses files lines causes) (cause : ReadError)
    (rest : List (Except ReadError String)) :
    locate files none (lines.map .ok ++ .error cause :: rest) =
      ⟨.badInput cause, retries causes ++ promptText, rest⟩ := by
  rw [locate_misses h, prompt]

theorem locate_path_ok {path text : String} (h : files path = .ok text)
    (input : List (Except ReadError String)) :
    locate files (some path) input = ⟨.found ⟨path, text⟩, "", input⟩ := by
  rw [locate, h]

theorem locate_path_error {path : String} {cause : ReadError} (h : files path = .error cause)
    (input : List (Except ReadError String)) :
    locate files (some path) input = ⟨.unreadable, fileError cause, input⟩ := by
  rw [locate, h]

/-! ## The run -/

theorem run_of_seeks {command : Command} {options : Options} {f : Bool → SourceFile → Run}
    (h : command.Seeks options f) (env : Environment) :
    run env command = withSource env options (f env.onTerminal) := by
  cases h <;> rfl

/-- How a command goes on that was not given a path and does `f` with a source, after `lines` that
    name no readable file, for the reasons in `causes`. -/
structure Prompts (files : Files) (lines : List String) (causes : List ReadError)
    (onTerminal : Bool) (command : Command) (f : SourceFile → Run) : Prop where
  /-- If the next line names a readable file, this is the source. The lines behind are not
      taken. -/
  found : ∀ line text rest, files (Text.trim line) = .ok text →
    locate files none (lines.map .ok ++ .ok line :: rest) =
        ⟨.found ⟨Text.trim line, text⟩, retries causes ++ promptText, rest⟩ ∧
      run ⟨files, lines.map .ok ++ .ok line :: rest, onTerminal⟩ command =
        { f ⟨Text.trim line, text⟩ with
          output := retries causes ++ promptText ++ (f ⟨Text.trim line, text⟩).output }
  /-- If there is no next line, all lines were taken, with one prompt more than there are lines,
      and the command is rejected. -/
  endOfInput :
    locate files none (lines.map .ok) = ⟨.endOfInput, retries causes ++ promptText, []⟩ ∧
      run ⟨files, lines.map .ok, onTerminal⟩ command =
        { result := .ok .rejected
          output := retries causes ++ promptText ++ "\n"
          diagnostics := "error: no input file given\n" }
  /-- If the next line cannot be read, the command ends with the reason. -/
  badInput : ∀ cause rest,
    run ⟨files, lines.map .ok ++ .error cause :: rest, onTerminal⟩ command =
      { result := .error cause, output := retries causes ++ promptText, diagnostics := "" }

theorem prompts_of_seeks {command : Command} {options : Options} {f : Bool → SourceFile → Run}
    (hseeks : command.Seeks options f) (hpath : options.path = none)
    (hmisses : Misses files lines causes) (onTerminal : Bool) :
    Prompts files lines causes onTerminal command (f onTerminal) where
  found line text rest hline := by
    have hlocate := locate_of_readable hmisses hline rest
    rw [run_of_seeks hseeks, withSource, hpath, hlocate]
    exact ⟨rfl, rfl⟩
  endOfInput := by
    have hlocate := locate_endOfInput hmisses
    rw [run_of_seeks hseeks, withSource, hpath, hlocate]
    exact ⟨rfl, rfl⟩
  badInput cause rest := by
    have hlocate := locate_badInput hmisses cause rest
    rw [run_of_seeks hseeks, withSource, hpath, hlocate]

/-- Without a path, a command prompts for a source until a line decides, and takes no line behind
    that one. With a path it takes no line and writes no prompt: it runs on the file, or says why
    it cannot be read. -/
theorem run_prompting {command : Command} {options : Options} {f : Bool → SourceFile → Run}
    (hseeks : command.Seeks options f) (files : Files) (onTerminal : Bool) :
    (options.path = none → ∀ lines causes, Misses files lines causes →
      Prompts files lines causes onTerminal command (f onTerminal)) ∧
    ∀ path, options.path = some path → ∀ input,
      (locate files (some path) input).rest = input ∧
        run ⟨files, input, onTerminal⟩ command =
          match files path with
          | .ok text => f onTerminal ⟨path, text⟩
          | .error cause =>
            { result := .ok .rejected, output := fileError cause, diagnostics := "" } := by
  refine ⟨fun hpath lines causes hmisses => prompts_of_seeks hseeks hpath hmisses onTerminal,
    fun path hpath input => ?_⟩
  rw [run_of_seeks hseeks, withSource, hpath]
  cases hfile : files path with
  | ok text =>
    rw [locate_path_ok hfile]
    exact ⟨rfl, by simp⟩
  | error cause =>
    rw [locate_path_error hfile]
    exact ⟨rfl, rfl⟩

/-- Of three lines the first names no file and the second one does, with blanks around it. -/
theorem run_prompting_secondLine :
    let files : Files := fun path =>
      if path = "b.tiny" then .ok "program b: ." else .error .notFound
    Seeks (.check {}) {} (checkSource {}) ∧ ({} : Options).path = none ∧
      Misses files ["a.tiny\n"] [.notFound] ∧
      files (Text.trim " b.tiny\r\n") = .ok "program b: ." ∧
      locate files none [.ok "a.tiny\n", .ok " b.tiny\r\n", .ok "c.tiny\n"] =
        ⟨.found ⟨"b.tiny", "program b: ."⟩,
          "Enter the path to the input file: " ++
            "Error reading file: No such file or directory (os error 2)\n" ++
            "Enter the path to the input file: ",
          [.ok "c.tiny\n"]⟩ := by
  intro files
  have hmisses : Misses files ["a.tiny\n"] [.notFound] := .cons (by decide) .nil
  have hline : files (Text.trim " b.tiny\r\n") = .ok "program b: ." := by decide
  have hfound := ((run_prompting (.check {}) files false).1 rfl _ _ hmisses).found _ _
    [.ok "c.tiny\n"] hline
  refine ⟨.check {}, rfl, hmisses, hline, hfound.1.trans ?_⟩
  have htrim : Text.trim " b.tiny\r\n" = "b.tiny" := by decide
  rw [htrim]
  rfl

end TinyLang.Command

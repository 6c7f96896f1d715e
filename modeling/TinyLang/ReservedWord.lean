import TinyLang.Kind

/-!
# Reserved words

A word of a source is a reserved word or a name. The comparison is exact, so a
word that differs from a reserved one in case is a name. Words are told apart by
their length first: the reserved ones have two to five letters, or seven.
-/

namespace TinyLang.ReservedWord

/-- All reserved words. -/
def all : List String :=
  ["program", "if", "then", "else", "while", "do", "print", "not", "or", "and", "false", "true",
    "bool", "int", "end", "mod"]

/-- Whether a word is reserved. -/
def isReserved (word : String) : Bool := all.contains word

/-- The kind of a reserved word. -/
def kind? (word : String) : Option Kind :=
  match word.utf8ByteSize with
  | 2 =>
    match word with
    | "do" => some .kwDo
    | "if" => some .kwIf
    | "or" => some .kwOr
    | _ => none
  | 3 =>
    match word with
    | "and" => some .kwAnd
    | "end" => some .kwEnd
    | "int" => some .kwInt
    | "mod" => some .kwMod
    | "not" => some .kwNot
    | _ => none
  | 4 =>
    match word with
    | "bool" => some .kwBool
    | "else" => some .kwElse
    | "then" => some .kwThen
    | "true" => some .boolean
    | _ => none
  | 5 =>
    match word with
    | "false" => some .boolean
    | "print" => some .kwPrint
    | "while" => some .kwWhile
    | _ => none
  | 7 =>
    match word with
    | "program" => some .kwProgram
    | _ => none
  | _ => none

/-- The kind of a word: a word that is not reserved is a name. -/
def classify (word : String) : Kind := (kind? word).getD .ident

theorem isReserved_of_kind? {word : String} {k : Kind} (h : kind? word = some k) :
    isReserved word = true := by
  revert h
  -- In each case the word is known, or there is no kind.
  fun_cases kind? word
  all_goals
    intro h
    first | decide | cases h

/-- The words with a kind of their own are the reserved ones. -/
theorem isSome_kind? (word : String) : (kind? word).isSome = isReserved word := by
  refine Bool.eq_iff_iff.2 ⟨fun h => ?_, fun h => ?_⟩
  · obtain ⟨k, hk⟩ := Option.isSome_iff_exists.1 h
    exact isReserved_of_kind? hk
  · have hall : ∀ word ∈ all, (kind? word).isSome = true := by decide
    exact hall word (List.contains_iff_mem.1 h)

end TinyLang.ReservedWord

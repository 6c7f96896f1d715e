import TinyLang.Proofs.Parser.Symmetry

/-!
# What options do not change

Parsing without a record of matches comes to the same, but for that record
(`parseWith_untraced`), and the first error does not depend on what is done about errors
(`head?_errors_parseWith`). So every way to parse tells whether the tokens are a program
(`isOk_parseWith_iff`).
-/

namespace TinyLang

namespace Parser

/-! ## Without a record of matches -/

/-- The parser without its record of matches. -/
def untraced (p : Parser) : Parser :=
  { p with options := { p.options with recordMatches := false }, trace := #[] }

/-- The ending without the record of matches. -/
def Ending.untraced : Ending → Ending
  | completed p => completed p.untraced
  | halted p => halted p.untraced

theorem note_untraced (p : Parser) (expected : Expected) (rule : Rule) (follow : KindSet) :
    p.untraced.note expected rule follow = (p.note expected rule follow).untraced := by
  rw [note, note, apply_ite untraced]
  rfl

theorem symmetry_untraced : Symmetry untraced where
  kind _ := rfl
  mustStop _ := rfl
  accept _ _ := rfl
  recover _ _ := rfl
  note := note_untraced
  seek _ := rfl

/-- A run does the same without a record of matches. -/
theorem run_untraced (p : Parser) (gs : List Goal) :
    p.untraced.run gs = (p.run gs).untraced := by
  rw [symmetry_untraced.run]
  cases p.run gs <;> rfl

end Parser

/-- What comes of parsing does not change if no matches are recorded, but for their
    record. -/
theorem parseWith_untraced (options : Parser.Options) (ts : TokenList) :
    parseWith { options with recordMatches := false } ts =
      { parseWith options ts with trace := [] } := by
  have hrun : Parser.recognize { options with recordMatches := false } .program ts =
      (Parser.recognize options .program ts).untraced :=
    Parser.run_untraced (Parser.ofList options ts) [.program]
  rw [parseWith, parseWith, hrun]
  cases Parser.recognize options .program ts <;> rfl

/-- The first error does not depend on how the tokens are parsed. -/
theorem head?_errors_parseWith (options options' : Parser.Options) (ts : TokenList) :
    (parseWith options ts).errors.head? = (parseWith options' ts).errors.head? := by
  have huntraced : ∀ options : Parser.Options, (parseWith options ts).errors =
      (parseWith { options with recordMatches := false } ts).errors :=
    fun options => (congrArg Outcome.errors (parseWith_untraced options ts)).symm
  rw [huntraced options, huntraced options']
  obtain ⟨o, ⟨-, hall⟩ | hall⟩ := Parser.exists_outcome false ts
  · rw [hall _ rfl, hall _ rfl]
  · have hhead : ∀ options : Parser.Options, options.recordMatches = false →
        (parseWith options ts).errors.head? = o.errors.head? := by
      intro options ho
      obtain ⟨e, he, hhead⟩ := (hall options ho).1.errors
      rw [hhead, he]
      rfl
    rw [hhead _ rfl, hhead _ rfl]

/-- The error that stops a parser is the first one of every other. -/
theorem head?_errors_of_parse {ts : TokenList} {e : SyntaxError} (h : parse ts = .error e)
    (options : Parser.Options) : (parseWith options ts).errors.head? = some e := by
  rw [head?_errors_parseWith options {}]
  rw [parse] at h
  cases herrors : (parseWith {} ts).errors with
  | nil => simp [herrors] at h
  | cons f es => simpa [herrors] using h

/-- Whether there are errors does not depend on how the tokens are parsed. -/
theorem errors_parseWith_eq_nil_iff (options options' : Parser.Options) (ts : TokenList) :
    (parseWith options ts).errors = [] ↔ (parseWith options' ts).errors = [] := by
  rw [← List.head?_eq_none_iff, head?_errors_parseWith options options', List.head?_eq_none_iff]

/-- Parsing in any way tells whether tokens are a program. -/
theorem isOk_parseWith_iff (options : Parser.Options) (ts : TokenList) :
    (parseWith options ts).isOk = true ↔ ∃ s, parse ts = .ok s := by
  rw [Outcome.isOk, List.isEmpty_iff, errors_parseWith_eq_nil_iff options {}, parse]
  cases (parseWith {} ts).errors <;> simp

end TinyLang

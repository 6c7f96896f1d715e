import TinyLang.Command.Check
import TinyLang.Proofs.Parser.ErrorOrder

/-!
# Where events come from

What is told of a text stands in it (`Report.Event.ArisesFrom`): a token is written at its
position, an illegal character is found there, and the end of the input is behind the text.
A syntax error is about one of the tokens.

A text without lexical errors has the same tokens in either mode (`Lexer.items_of_lex_eq_ok`),
so checking it comes to one of two things: an error among its characters is told and the text
is rejected, or its tokens are parsed (`Command.checkEvents_of_error`,
`Command.checkEvents_of_ok`).
-/

namespace TinyLang

/-! ## What stands in a text -/

/-- A token that is written in a text, with its first character at its position. -/
structure Token.IsWritten (text : List Char) (t : Token) : Prop where
  place : ∃ before after, text = before ++ (t.spelling.toList ++ after) ∧
    t.position = .behind before
  start : ∃ c w, t.spelling.toList = c :: w ∧ Text.isBlank c = false
  isEof : t.isEof = false
  value : ∀ c ∈ t.value.toList, Text.isInWord c = true

/-- A token that is written in a text, or the end of the input behind it. -/
def Token.StandsIn (text : List Char) (t : Token) : Prop :=
  t.IsWritten text ∨ t = .eof (.behind text)

/-- An error about a character of a text, at the position of that character. -/
def LexError.StandsIn (text : List Char) (e : LexError) : Prop :=
  ∃ before c after, text = before ++ c :: after ∧ Text.isBlank c = false ∧
    e = ⟨.behind before, .illegalCharacter c⟩

/-- What a token of a text was written with, if that is kept, is a word. -/
theorem Token.StandsIn.isInWord_of_mem_value {text : List Char} {t : Token}
    (h : t.StandsIn text) : ∀ c ∈ t.value.toList, Text.isInWord c = true := by
  rcases h with h | rfl
  · exact h.value
  · exact List.forall_mem_nil _

namespace Lexer

variable {text s rest : List Char} {is : List Item} {t : Token} {e : LexError}

/-- What a token was written with, if that is kept, is a word. -/
theorem Lexeme.isInWord_of_mem_value (h : Lexeme text s rest (.ok t)) :
    ∀ c ∈ t.value.toList, Text.isInWord c = true := by
  cases h with
  | token hspelling hk _ =>
    by_cases hvalue : t.kind.hasValue = true
    · rw [Token.spelling, if_pos hvalue] at hspelling
      rw [hspelling, String.toList_ofList]
      obtain ⟨c, w, rfl, ⟨-, hw, -⟩ | ⟨-, hw, -⟩ | ⟨-, hsymbol, -⟩⟩ := hk.cases
      · exact hw
      · exact fun d hd => isInWord_of_isDigit (hw d hd)
      · simp [Kind.isSymbol, hvalue] at hsymbol
    · rw [t.value_eq_empty (by simpa using hvalue)]
      exact List.forall_mem_nil _

theorem Lexeme.isWritten (h : Lexeme text s rest (.ok t)) : t.IsWritten (text ++ (s ++ rest)) := by
  obtain ⟨c, w, hs, hc⟩ := h.exists_cons
  have hvalue := h.isInWord_of_mem_value
  have heof := h.isEof_eq_false
  cases h with
  | token hspelling _ hposition =>
    have hlist : t.spelling.toList = s := by rw [hspelling, String.toList_ofList]
    exact ⟨⟨text, rest, by rw [hlist], hposition⟩, ⟨c, w, hlist.trans hs, hc⟩, heof, hvalue⟩

theorem Lexeme.errorStandsIn (h : Lexeme text s rest (.error e)) :
    e.StandsIn (text ++ (s ++ rest)) := by
  cases h with
  | illegal hs hc _ => exact ⟨text, _, rest, by rw [hs]; rfl, hc, rfl⟩
  | mark hs _ => exact ⟨text, '!', rest, by rw [hs]; rfl, by decide, rfl⟩
  | half hs hc _ => exact ⟨text ++ ['!'], _, rest, by rw [hs, List.append_assoc]; rfl, hc, rfl⟩

/-- What a text is divided into is written in it. -/
theorem Divides.isWritten (h : Divides text rest is) (ht : .ok t ∈ is) :
    t.IsWritten (text ++ rest) := by
  induction h with
  | done => cases ht
  | item _ hi _ ih =>
    rw [← List.append_assoc]
    rcases List.mem_cons.1 ht with rfl | ht
    · exact hi.isWritten
    · rw [← List.append_assoc]
      exact ih ht

theorem Divides.errorStandsIn (h : Divides text rest is) (he : .error e ∈ is) :
    e.StandsIn (text ++ rest) := by
  induction h with
  | done => cases he
  | item _ hi _ ih =>
    rw [← List.append_assoc]
    rcases List.mem_cons.1 he with rfl | he
    · exact hi.errorStandsIn
    · rw [← List.append_assoc]
      exact ih he

/-! ## The items of a text -/

/-- Without errors the items are the tokens. -/
theorem items_eq_map_of_errors {is : List Item} (h : is.filterMap Item.error? = []) :
    is = (is.filterMap Item.token?).map .ok := by
  induction is with
  | nil => rfl
  | cons i is ih =>
    cases i with
    | ok t => exact congrArg _ (ih h)
    | error e => cases h

theorem uptoError_map_ok (ts : TokenList) : uptoError (ts.map .ok) = ts.map .ok := by
  induction ts with
  | nil => rfl
  | cons t ts ih => exact congrArg _ ih

/-- The items of a text without errors are its tokens, in either mode. -/
theorem items_of_lex_eq_ok {text : String} {ts : TokenList} (h : lex text = .ok ts) (mode : Mode) :
    (ofSource mode (.ofText text)).items = ts.map .ok := by
  obtain ⟨herrors, htokens⟩ := Lexing.result_eq_ok_iff.1 ((Lexing.lex_eq_result text).symm.trans h)
  have hcollect : collect text = ts.map .ok := by
    rw [← htokens]
    exact items_eq_map_of_errors herrors
  rw [items_ofSource]
  cases mode with
  | halt => exact (congrArg uptoError hcollect).trans (uptoError_map_ok ts)
  | collectAll => exact hcollect

/-- The tokens that are given for a text stand in it, and so do the errors. -/
theorem tokenStandsIn_of_mem_items {mode : Mode} {text : String}
    (h : .ok t ∈ (ofSource mode (.ofText text)).items) : t.StandsIn text.toList := by
  obtain ⟨is, hdivides⟩ := exists_divides text
  have hmem := mem_collect h
  rw [collect_of_divides hdivides] at hmem
  rcases List.mem_append.1 hmem with hmem | hmem
  · exact .inl (hdivides.isWritten hmem)
  · exact .inr (Except.ok.inj (List.mem_singleton.1 hmem))

theorem errorStandsIn_of_mem_items {mode : Mode} {text : String}
    (h : .error e ∈ (ofSource mode (.ofText text)).items) : e.StandsIn text.toList := by
  obtain ⟨is, hdivides⟩ := exists_divides text
  have hmem := mem_collect h
  rw [collect_of_divides hdivides] at hmem
  rcases List.mem_append.1 hmem with hmem | hmem
  · exact hdivides.errorStandsIn hmem
  · cases List.mem_singleton.1 hmem

end Lexer

/-- The tokens of a text stand in it. -/
theorem standsIn_of_lex_eq_ok {text : String} {ts : TokenList} (h : lex text = .ok ts) :
    ∀ t ∈ ts, t.StandsIn text.toList := by
  intro t ht
  have hitems := Lexer.items_of_lex_eq_ok h .halt
  exact Lexer.tokenStandsIn_of_mem_items (hitems ▸ List.mem_map_of_mem ht)

/-- The end of the input is among the tokens of a text. -/
theorem eof_mem_kinds_of_lex_eq_ok {text : String} {ts : TokenList} (h : lex text = .ok ts) :
    .eof ∈ ts.kinds := by
  obtain ⟨is, -, rfl⟩ := exists_divides_of_lex_eq_ok h
  simp [TokenList.kinds, Token.eof]

/-- An error is about one of the tokens, if the end of the input is one of them. -/
theorem found_mem_of_mem_errors {ts : TokenList} (h : .eof ∈ ts.kinds) {options : Parser.Options}
    {e : SyntaxError} (he : e ∈ (parseWith options ts).errors) : e.found ∈ ts := by
  obtain ⟨places, hlocated⟩ := Parser.located_recognize options ts
  have hlocates := hlocated.locates
  have hfound : e.found ∈ places.map ts.tokenAt := by
    rw [← hlocates.found]
    exact List.mem_map_of_mem he
  obtain ⟨i, hi, hat⟩ := List.mem_map.1 hfound
  have hlt := (hlocates.within i hi).trans_lt (TokenList.input_length_lt h)
  rw [← hat, TokenList.tokenAt, List.getElem?_eq_getElem hlt, Option.getD_some]
  exact List.getElem_mem hlt

/-! ## Diagnostics of errors -/

namespace LexError

variable (e : LexError)

theorem code_diagnostic : e.diagnostic.code = e.code := by
  obtain ⟨_, fault⟩ := e
  cases fault <;> rfl

theorem position_diagnostic : e.diagnostic.position = some e.position := by
  rw [diagnostic]
  split <;> rfl

end LexError

namespace SyntaxError

variable (e : SyntaxError)

theorem code_diagnostic : e.diagnostic.code = e.code := by
  rw [diagnostic, code]
  split <;> rfl

theorem position_diagnostic : e.diagnostic.position = some e.found.position := by
  rw [diagnostic]
  split <;> rfl

end SyntaxError

namespace Report

/-- An error, lexical or syntactic. -/
inductive Error where
  /-- A lexical error. -/
  | lexical (e : LexError)
  /-- A syntax error. -/
  | syntactic (e : SyntaxError)
deriving DecidableEq

namespace Error

/-- What is told about the error. -/
def event : Error → Event
  | lexical e => .lexError e
  | syntactic e => .syntaxError e

/-- The line about the error. -/
def message : Error → String
  | lexical e => e.message
  | syntactic e => e.message

/-- The code of the error. -/
def code : Error → Diagnostic.Code
  | lexical e => e.code
  | syntactic e => e.code

/-- Where the error is. -/
def position : Error → Position
  | lexical e => e.position
  | syntactic e => e.found.position

/-- What is said about the error. -/
def diagnostic : Error → Diagnostic
  | lexical e => e.diagnostic
  | syntactic e => e.diagnostic

theorem code_diagnostic (e : Error) : e.diagnostic.code = e.code := by
  cases e with
  | lexical e => exact e.code_diagnostic
  | syntactic e => exact e.code_diagnostic

theorem position_diagnostic (e : Error) : e.diagnostic.position = some e.position := by
  cases e with
  | lexical e => exact e.position_diagnostic
  | syntactic e => exact e.position_diagnostic

end Error

/-! ## What is told -/

/-- An event that is about something in a text, or says how parsing ended. -/
inductive Event.ArisesFrom (text : List Char) : Event → Prop
  /-- A token of the text. -/
  | token {t : Token} : t.StandsIn text → ArisesFrom text (.token t)
  /-- A match by a rule. -/
  | matched {m : Match} (rule : Rule) : m.rule = rule.name → ArisesFrom text (.matched m)
  /-- An illegal character of the text. -/
  | lexError {e : LexError} : e.StandsIn text → ArisesFrom text (.lexError e)
  /-- An error of a rule about a token of the text. -/
  | syntaxError {e : SyntaxError} (rule : Rule) : e.rule = rule.name → e.found.StandsIn text →
      ArisesFrom text (.syntaxError e)
  /-- Tokens before the program. -/
  | skipped (count : Nat) (first : Position) : ArisesFrom text (.skipped count first)
  /-- The end of parsing a program. -/
  | accepted : ArisesFrom text (.line "Parsing successful.")
  /-- The end of parsing anything else. -/
  | failed : ArisesFrom text (.line "Parsing failed.")

end Report

namespace Command

open Report (Event)

variable {options : Options} {text : String} {ts : TokenList}

/-- What is told of an item of a lexer. -/
def itemEvent : Lexer.Item → Event
  | .ok t => .token t
  | .error e => .lexError e

theorem exists_of_mem_itemEvents {quiet : Bool} {items : List Lexer.Item} {event : Event}
    (h : event ∈ itemEvents quiet items) : ∃ i ∈ items, itemEvent i = event := by
  obtain ⟨i, hi, hevent⟩ := List.mem_filterMap.1 h
  refine ⟨i, hi, ?_⟩
  cases i with
  | ok t =>
    cases quiet
    · exact Option.some.inj hevent
    · cases hevent
  | error e => exact Option.some.inj hevent

/-! ## Checking a text -/

/-- A text with an error among its characters is rejected. -/
theorem checkEvents_of_error {e : LexError} (h : TinyLang.lex text = .error e) :
    checkEvents options text = (itemEvents options.quiet
      (Lexer.ofSource options.lexerMode (.ofText text)).items, .rejected) :=
  if_pos (Lexing.hasErrors_of_result_eq_error
    ((Lexing.result_ofSource options.lexerMode (.ofText text)).trans h))

/-- The tokens of a text without such errors are parsed. -/
theorem checkEvents_of_ok (h : TinyLang.lex text = .ok ts) :
    checkEvents options text =
      (itemEvents options.quiet (ts.map .ok) ++
        outcomeEvents options ts (parseWith options.parserOptions ts),
      if (parseWith options.parserOptions ts).isOk then .accepted else .rejected) := by
  obtain ⟨hnone, htokens⟩ := Lexing.hasErrors_of_result_eq_ok
    ((Lexing.result_ofSource options.lexerMode (.ofText text)).trans h)
  rw [← Lexer.items_of_lex_eq_ok h options.lexerMode, ← htokens]
  exact if_neg (Bool.eq_false_iff.1 hnone)

theorem arisesFrom_itemEvents {mode : Lexer.Mode} {quiet : Bool} :
    ∀ event ∈ itemEvents quiet (Lexer.ofSource mode (.ofText text)).items,
      event.ArisesFrom text.toList := by
  intro event hevent
  obtain ⟨i, hi, rfl⟩ := exists_of_mem_itemEvents hevent
  cases i with
  | ok t => exact .token (Lexer.tokenStandsIn_of_mem_items hi)
  | error e => exact .lexError (Lexer.errorStandsIn_of_mem_items hi)

theorem arisesFrom_outcomeEvents (h : TinyLang.lex text = .ok ts) (us : TokenList) :
    ∀ event ∈ outcomeEvents options us (parseWith options.parserOptions ts),
      event.ArisesFrom text.toList := by
  intro event hevent
  simp only [outcomeEvents, List.mem_append] at hevent
  rcases hevent with ((hevent | hevent) | hevent) | hevent
  · obtain ⟨m, hm, rfl⟩ := List.mem_map.1 hevent
    obtain ⟨rule, hrule⟩ := Parser.exists_rule_of_mem_trace _ ts m hm
    exact .matched rule hrule
  · split at hevent
    · obtain ⟨first, -, rfl⟩ := List.mem_map.1 hevent
      exact .skipped _ _
    · cases hevent
  · obtain ⟨e, he, rfl⟩ := List.mem_map.1 hevent
    obtain ⟨rule, hrule⟩ := Parser.exists_rule_of_mem_errors _ ts e he
    exact .syntaxError rule hrule (standsIn_of_lex_eq_ok h _
      (found_mem_of_mem_errors (eof_mem_kinds_of_lex_eq_ok h) he))
  · split at hevent
    · rw [List.mem_singleton.1 hevent]
      exact .accepted
    · split at hevent
      · rw [List.mem_singleton.1 hevent]
        exact .failed
      · cases hevent

/-- What is told of a text that is checked arises from it. -/
theorem arisesFrom_checkEvents (options : Options) (text : String) :
    ∀ event ∈ (checkEvents options text).1, event.ArisesFrom text.toList := by
  cases hlex : TinyLang.lex text with
  | error e =>
    rw [checkEvents_of_error hlex]
    exact arisesFrom_itemEvents
  | ok ts =>
    rw [checkEvents_of_ok hlex]
    refine List.forall_mem_append.2 ⟨?_, arisesFrom_outcomeEvents hlex ts⟩
    rw [← Lexer.items_of_lex_eq_ok hlex options.lexerMode]
    exact arisesFrom_itemEvents

/-- What is told of a text of which the tokens are listed arises from it. -/
theorem arisesFrom_lexEvents (options : Options) (text : String) :
    ∀ event ∈ (lexEvents options text).1, event.ArisesFrom text.toList :=
  arisesFrom_itemEvents

end Command

end TinyLang

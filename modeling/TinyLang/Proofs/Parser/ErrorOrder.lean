import TinyLang.Proofs.Lexer.Order
import TinyLang.Proofs.Parser.Accounting

/-!
# The order of errors

The errors of a parser are about tokens one behind the other, and each is about a token that
was not wanted there (`parse_errors_ordered`). This is an invariant of the parser
(`Parser.Located`), kept by each of its actions: a parser only goes forward, and of the
places of its errors it needs to know the last one to tell whether the token that it stands
at is at fault already. A parser that stops does so at the last of these places.

The tokens of a text stand one behind the other, so the positions of the errors do as well.
-/

namespace TinyLang

open KindSet

/-- The token that is found at a place of a list. Behind the last one this is the end of the
    input. -/
def TokenList.tokenAt (ts : TokenList) (i : Nat) : Token :=
  ts[i]?.getD (.eof (Cursor.ofList ts).finish)

namespace Cursor

variable {ts : TokenList} {c : Cursor}

theorem StandsIn.current (h : c.StandsIn ts) (hfinish : c.finish = (ofList ts).finish) :
    c.current = ts.tokenAt c.index := by
  rw [Cursor.current, TokenList.tokenAt, h.getElem?, hfinish]

/-- A cursor stands at the first end of the input or before it. -/
theorem StandsIn.index_le_input (h : c.StandsIn ts) : c.index ≤ ts.input.length := by
  have hinput := TokenList.input_append h.passed (ts.drop c.index)
  rw [List.take_append_drop] at hinput
  rw [hinput, TokenList.kinds, List.length_append, List.length_map,
    List.length_take_of_le h.index_le]
  exact Nat.le_add_right _ _

@[simp]
theorem finish_advance (c : Cursor) : c.advance.finish = c.finish := by
  rw [advance]
  split <;> rfl

end Cursor

namespace Parser

/-! ## The invariant -/

/-- A parser that stands in the list `ts`, with errors at the places in `places`. -/
structure Located (ts : TokenList) (places : List Nat) (p : Parser) : Prop where
  cursor : p.cursor.StandsIn ts
  finish : p.cursor.finish = (Cursor.ofList ts).finish
  increasing : places.Pairwise (· < ·)
  within : ∀ i ∈ places, i ≤ p.cursor.index
  last : p.lastErrorAt = places.getLast?
  found : p.errors.toList.map SyntaxError.found = places.map ts.tokenAt
  unwanted : ∀ e ∈ p.errors.toList, e.expected.contains e.found.kind = false

namespace Located

variable {ts : TokenList} {places : List Nat} {p : Parser}

theorem accept (h : Located ts places p) (hk : p.kind ≠ .eof) (rule : Rule) :
    Located ts places (p.accept rule) where
  cursor := h.cursor.advance hk
  finish := (Cursor.finish_advance _).trans h.finish
  increasing := h.increasing
  within i hi := by
    rw [index_accept hk]
    exact Nat.le_succ_of_le (h.within i hi)
  last := h.last
  found := h.found
  unwanted := h.unwanted

theorem recover (h : Located ts places p) (stops : KindSet) :
    Located ts places (p.recover stops) where
  cursor := h.cursor.synchronize stops
  finish := h.finish
  increasing := h.increasing
  within i hi := (h.within i hi).trans (Nat.le_add_right _ _)
  last := h.last
  found := h.found
  unwanted := h.unwanted

/-- Where the last error is not at the token ahead, no error is. -/
theorem lt_index (h : Located ts places p) (hlast : p.lastErrorAt ≠ some p.cursor.index) :
    ∀ i ∈ places, i < p.cursor.index := by
  intro i hi
  rw [h.last] at hlast
  obtain ⟨before, j, rfl⟩ :=
    (List.eq_nil_or_concat places).resolve_left (List.ne_nil_of_mem hi)
  rw [List.concat_eq_append] at *
  rw [List.getLast?_concat] at hlast
  have hj := h.within j (by simp)
  have hne : j ≠ p.cursor.index := fun heq => hlast (congrArg some heq)
  have hle : i ≤ j := by
    rcases List.mem_append.1 hi with hi | hi
    · exact ((List.pairwise_append.1 h.increasing).2.2 i hi j (by simp)).le
    · exact (List.mem_singleton.1 hi).le
  omega

/-- An error is noted behind all the others, or not at all. -/
theorem note (h : Located ts places p) {expected : Expected} (rule : Rule) (follow : KindSet)
    (hunwanted : expected.contains p.kind = false) :
    ∃ places, Located ts places (p.note expected rule follow) := by
  rw [Parser.note]
  split
  · exact ⟨places, h⟩
  · next hlast =>
    refine ⟨places ++ [p.cursor.index], h.cursor, h.finish, ?_, ?_, ?_, ?_, ?_⟩
    · refine List.pairwise_append.2 ⟨h.increasing, List.pairwise_singleton _ _, fun i hi j hj => ?_⟩
      rw [List.mem_singleton.1 hj]
      exact h.lt_index hlast i hi
    · intro i hi
      rcases List.mem_append.1 hi with hi | hi
      · exact h.within i hi
      · exact (List.mem_singleton.1 hi).le
    · exact List.getLast?_concat.symm
    · rw [Array.toList_push, List.map_append, h.found, List.map_append, List.map_singleton,
        List.map_singleton, h.cursor.current h.finish]
    · rw [Array.toList_push]
      exact List.forall_mem_append.2 ⟨h.unwanted, List.forall_mem_singleton.2 hunwanted⟩

end Located

theorem located_seek (options : Options) (ts : TokenList) :
    Located ts [] (ofList options ts).seek where
  cursor := (Cursor.standsIn_ofList ts).synchronize _
  finish := rfl
  increasing := .nil
  within := List.forall_mem_nil _
  last := rfl
  found := rfl
  unwanted := List.forall_mem_nil _

theorem Acts.exists_located {ts : TokenList} {p q : Parser} (hact : Acts p q)
    (h : ∃ places, Located ts places p) : ∃ places, Located ts places q := by
  obtain ⟨places, h⟩ := h
  cases hact with
  | accept rule hk => exact ⟨places, h.accept hk rule⟩
  | note expected rule follow hunwanted => exact h.note rule follow hunwanted
  | recover stops _ _ => exact ⟨places, h.recover stops⟩

/-- The errors of a parser have their places at the end of parsing. -/
theorem located_recognize (options : Options) (ts : TokenList) :
    ∃ places, Located ts places (recognize options .program ts).parser :=
  Acts.invariant (fun _ _ => Acts.exists_located) (recognize_acts options ts)
    ⟨[], located_seek options ts⟩

/-- A parser stops where it found the last error. -/
theorem lastErrorAt_of_run_halted (p : Parser) (gs : List Goal) :
    (p.run gs).isCompleted = false →
      (p.run gs).parser.lastErrorAt = some (p.run gs).parser.cursor.index := by
  have hnote : ∀ (q : Parser) (expected : Expected) (rule : Rule) (follow : KindSet),
      (q.note expected rule follow).lastErrorAt =
        some (q.note expected rule follow).cursor.index := by
    intro q expected rule follow
    rw [lastErrorAt_note, cursor_note]
  induction p, gs using run_induction with
  | done p =>
    rw [run_nil]
    nofun
  | expand p g gs goals hmove ih =>
    rw [run_expand gs hmove]
    exact ih
  | shift p g gs rule goals hmove ih =>
    rw [run_shift gs hmove]
    exact ih
  | refuse p g gs expected rule follow missing hmove ih =>
    rw [run_refuse gs hmove]
    split
    · exact fun _ => hnote p expected rule follow
    · exact ih
  | seek p g gs goals hmove ih =>
    rw [run_seek gs hmove]
    split
    · exact ih
    · exact fun _ => hnote _ _ _ _

end Parser

/-! ## Outcomes -/

/-- What came of parsing the list `ts` has its errors at the places in `places`: they are
    about the tokens there, which are not wanted, and none is behind the first end of the
    input. -/
structure Outcome.Locates (ts : TokenList) (places : List Nat) (o : Outcome) : Prop where
  increasing : places.Pairwise (· < ·)
  within : ∀ i ∈ places, i ≤ ts.input.length
  found : o.errors.map SyntaxError.found = places.map ts.tokenAt
  unwanted : ∀ e ∈ o.errors, e.expected.contains e.found.kind = false

theorem Parser.Located.locates {ts : TokenList} {places : List Nat} {e : Parser.Ending}
    (h : e.parser.Located ts places) : e.outcome.Locates ts places :=
  ⟨h.increasing, fun i hi => (h.within i hi).trans h.cursor.index_le_input, h.found, h.unwanted⟩

/-- Where the tokens stand one behind the other, so do those at fault. -/
theorem Outcome.Locates.pairwise {ts : TokenList} {places : List Nat} {o : Outcome}
    (h : o.Locates ts places) (hlt : ts.input.length < ts.length)
    (hts : ts.Pairwise fun t u => t.position.compare u.position = .lt) :
    o.errors.Pairwise fun e f => e.found.position.compare f.found.position = .lt := by
  have hfound : (o.errors.map SyntaxError.found).Pairwise
      fun t u => t.position.compare u.position = .lt := by
    rw [h.found, List.pairwise_map]
    refine h.increasing.imp_of_mem fun {i j} hi hj hij => ?_
    have hi := (h.within i hi).trans_lt hlt
    have hj := (h.within j hj).trans_lt hlt
    rw [TokenList.tokenAt, TokenList.tokenAt, List.getElem?_eq_getElem hi,
      List.getElem?_eq_getElem hj]
    exact List.pairwise_iff_getElem.1 hts i j hi hj hij
  exact List.pairwise_map.1 hfound

/-- There is a token that is not before the end of the input, if there is an end. -/
theorem TokenList.input_length_lt {ts : TokenList} (h : .eof ∈ ts.kinds) :
    ts.input.length < ts.length := by
  refine lt_of_le_of_ne ?_ fun heq => ?_
  · exact ts.input_isPrefix.length_le.trans_eq (List.length_map _)
  · have := ts.input_isPrefix.eq_of_length (heq.trans (List.length_map _).symm)
    exact ts.eof_notMem_input (this ▸ h)

/-- The errors of parsing are at places one behind the other, none of them behind the first
    end of the input. Each is about the token at its place, which is not one that is wanted.
    A parser that stops has taken the tokens up to the last of these places. The errors of
    a text are at positions one behind the other. -/
theorem parse_errors_ordered (ts : TokenList) (options : Parser.Options) :
    (∃ places, (parseWith options ts).Locates ts places ∧
      ((Parser.recognize options .program ts).isCompleted = false →
        places.getLast? = some (parseWith options ts).summary.consumed)) ∧
    ∀ text, lex text = .ok ts → (parseWith options ts).errors.Pairwise
      fun e f => e.found.position.compare f.found.position = .lt := by
  obtain ⟨places, h⟩ := Parser.located_recognize options ts
  refine ⟨⟨places, h.locates, fun hhalted => ?_⟩, fun text htext => ?_⟩
  · rw [← h.last]
    exact Parser.lastErrorAt_of_run_halted _ _ hhalted
  · refine h.locates.pairwise (TokenList.input_length_lt ?_) (pairwise_of_lex_eq_ok htext)
    obtain ⟨is, -, rfl⟩ := exists_divides_of_lex_eq_ok htext
    simp [TokenList.kinds, Token.eof]

/-- The tokens of a program that lacks an expression twice, with the end of the input. -/
def TokenList.nothingToPrintTwiceComplete : TokenList :=
  TokenList.nothingToPrintTwice ++ [.eof ⟨1, 25⟩]

/-- A parser that stops at the second error stands at the dot. -/
theorem errors_text_nothingToPrintTwice :
    ∃ places, lex "program p: print; print." = .ok .nothingToPrintTwiceComplete ∧
      (Parser.recognize ⟨.panic, 2, false⟩ .program .nothingToPrintTwiceComplete).isCompleted = false ∧
      (parseWith ⟨.panic, 2, false⟩ .nothingToPrintTwiceComplete).Locates .nothingToPrintTwiceComplete
        places ∧
      places.getLast? = some 6 ∧
      (parseWith ⟨.panic, 2, false⟩ .nothingToPrintTwiceComplete).errors.length = 2 ∧
      (parseWith ⟨.panic, 2, false⟩ .nothingToPrintTwiceComplete).errors.Pairwise
        fun e f => e.found.position.compare f.found.position = .lt := by
  have hlex : lex "program p: print; print." = .ok .nothingToPrintTwiceComplete := by decide +kernel
  have hhalted : (Parser.recognize ⟨.panic, 2, false⟩ .program
      .nothingToPrintTwiceComplete).isCompleted = false := by cbv
  have hconsumed :
      (parseWith ⟨.panic, 2, false⟩ .nothingToPrintTwiceComplete).summary.consumed = 6 := by cbv
  have herrors :
      (parseWith ⟨.panic, 2, false⟩ .nothingToPrintTwiceComplete).errors.length = 2 := by cbv
  obtain ⟨⟨places, h, hlast⟩, hpairwise⟩ :=
    parse_errors_ordered .nothingToPrintTwiceComplete ⟨.panic, 2, false⟩
  refine ⟨places, hlex, hhalted, h, ?_, herrors, hpairwise _ hlex⟩
  rw [hlast hhalted, hconsumed]

end TinyLang

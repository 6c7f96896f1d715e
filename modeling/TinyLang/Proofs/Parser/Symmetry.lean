import TinyLang.Proofs.Parser.Recovery

/-!
# Symmetries of parsing

A change of parsers is a symmetry if all that a parser does commutes with it
(`Parser.Symmetry`). Then so does a whole run (`Parser.Symmetry.run`): to change a parser and
let it run is to let it run and change what it comes to.

Two changes of the list of tokens amount to such a change of the parser:

* tokens put before a list, none of them `program` or the end of the input, only move all that
  is found in the list further back (`parse_behind`);
* the end of the input put behind a list, where a parser finds it anyhow, changes nothing
  (`parse_terminated`).
-/

namespace TinyLang

open KindSet

namespace Parser

/-- A change of parsers that makes no difference to what they do. -/
structure Symmetry (f : Parser → Parser) : Prop where
  kind (p : Parser) : (f p).kind = p.kind
  mustStop (p : Parser) : (f p).mustStop = p.mustStop
  accept (p : Parser) (rule : Rule) : (f p).accept rule = f (p.accept rule)
  recover (p : Parser) (stops : KindSet) : (f p).recover stops = f (p.recover stops)
  note (p : Parser) (expected : Expected) (rule : Rule) (follow : KindSet) :
    (f p).note expected rule follow = f (p.note expected rule follow)
  seek (p : Parser) : (f p).seek = f p.seek

/-- The ending with another parser. -/
def Ending.map (f : Parser → Parser) : Ending → Ending
  | completed p => completed (f p)
  | halted p => halted (f p)

theorem Ending.parser_map (f : Parser → Parser) (e : Ending) : (e.map f).parser = f e.parser := by
  cases e <;> rfl

theorem Ending.isCompleted_map (f : Parser → Parser) (e : Ending) :
    (e.map f).isCompleted = e.isCompleted := by
  cases e <;> rfl

namespace Symmetry

variable {f : Parser → Parser} (hf : Symmetry f)

include hf

theorem resume (p : Parser) (rule : Rule) (follow : KindSet) (missing : Option Kind) :
    (f p).resume rule follow missing = f (p.resume rule follow missing) := by
  cases missing with
  | none => exact hf.recover p follow
  | some kind =>
    rw [Parser.resume, Parser.resume, hf.recover, acceptIf, acceptIf, hf.kind, hf.accept,
      ← apply_ite f]

/-- A run commutes with a symmetry. -/
theorem run (p : Parser) (gs : List Goal) : (f p).run gs = (p.run gs).map f := by
  -- the changed parser has the same kind ahead, so it makes the same move on the same goal
  induction p, gs using run_induction with
  | done p =>
    rw [run_nil, run_nil]
    rfl
  | expand p g gs goals hmove ih =>
    rw [run_expand gs hmove, run_expand gs (by rwa [hf.kind]), ih]
  | shift p g gs rule goals hmove ih =>
    rw [run_shift gs hmove, run_shift gs (by rwa [hf.kind]), hf.accept, ih]
  | refuse p g gs expected rule follow missing hmove ih =>
    rw [run_refuse gs hmove, run_refuse gs (by rwa [hf.kind]), hf.note, hf.mustStop, hf.resume, ih,
      apply_ite (Ending.map f)]
    rfl
  | seek p g gs goals hmove ih =>
    rw [run_seek gs hmove, run_seek gs (by rwa [hf.kind]), hf.seek, hf.kind, hf.note, ih,
      apply_ite (Ending.map f)]
    rfl

end Symmetry

/-! ## Tokens before the program -/

/-- The parser with `n` more tokens before all that it knows of, which it passed over. -/
def behind (n : Nat) (p : Parser) : Parser :=
  { p with
    cursor := { p.cursor with index := p.cursor.index + n }
    skipped := p.skipped + n
    lastErrorAt := p.lastErrorAt.map (· + n) }

theorem accept_behind (n : Nat) (p : Parser) (rule : Rule) :
    (p.behind n).accept rule = (p.accept rule).behind n := by
  have hadvance : (p.behind n).cursor.advance =
      { p.cursor.advance with index := p.cursor.advance.index + n } := by
    have hend : (p.behind n).cursor.atEnd = p.cursor.atEnd := rfl
    rw [Cursor.advance, Cursor.advance, hend]
    split
    · rfl
    · simp [behind, Nat.add_right_comm]
  rw [accept, hadvance]
  rfl

theorem recover_behind (n : Nat) (p : Parser) (stops : KindSet) :
    (p.behind n).recover stops = (p.recover stops).behind n := by
  simp only [recover, behind, Cursor.synchronize, Nat.add_right_comm]

theorem note_behind (n : Nat) (p : Parser) (expected : Expected) (rule : Rule)
    (follow : KindSet) :
    (p.behind n).note expected rule follow = (p.note expected rule follow).behind n := by
  -- an error is at fault already in the one list if and only if it is in the other
  have hlast : (p.behind n).lastErrorAt = some (p.behind n).cursor.index ↔
      p.lastErrorAt = some p.cursor.index := by
    show p.lastErrorAt.map (· + n) = (some p.cursor.index).map (· + n) ↔ _
    exact (Option.map_injective (add_left_injective n)).eq_iff
  by_cases h : p.lastErrorAt = some p.cursor.index
  · rw [note, note, if_pos (hlast.2 h), if_pos h]
  · rw [note, note, if_neg (hlast.not.2 h), if_neg h]
    rfl

theorem seek_behind (n : Nat) (p : Parser) : (p.behind n).seek = p.seek.behind n := by
  have hskipped : (p.behind n).skipped = p.skipped + n := rfl
  have hdistance : (p.behind n).cursor.distance
      ((p.behind n).recover (single .kwProgram)).cursor =
        p.cursor.distance (p.recover (single .kwProgram)).cursor := by
    rw [recover_behind]
    exact Nat.add_sub_add_right _ _ _
  rw [seek, hdistance, recover_behind, hskipped, Nat.add_right_comm]
  rfl

theorem symmetry_behind (n : Nat) : Symmetry (behind n) where
  kind _ := rfl
  mustStop _ := rfl
  accept := accept_behind n
  recover := recover_behind n
  note := note_behind n
  seek := seek_behind n

/-- The parser finds the same program behind tokens that are passed over. -/
theorem seek_append (options : Options) {js ts : TokenList}
    (hjs : ∀ t ∈ js, t.kind ≠ .kwProgram ∧ t.kind ≠ .eof) (hts : ts ≠ []) :
    (ofList options (js ++ ts)).seek = (ofList options ts).seek.behind js.length := by
  have hskipped : ∀ t ∈ js, Cursor.isSkipped (single .kwProgram) t = true :=
    fun t ht => Cursor.isSkipped_single.2 (hjs t ht).symm
  have hfinish : (Cursor.ofList (js ++ ts)).finish = (Cursor.ofList ts).finish := by
    rw [Cursor.ofList, Cursor.ofList, List.getLast?_append_of_ne_nil js hts]
  have hcursor : (Cursor.ofList (js ++ ts)).synchronize (single .kwProgram) =
      { (Cursor.ofList ts).synchronize (single .kwProgram) with
        index := ((Cursor.ofList ts).synchronize (single .kwProgram)).index + js.length } := by
    rw [Cursor.synchronize, Cursor.synchronize, hfinish]
    simp only [Cursor.ofList, List.dropWhile_append_of_pos hskipped,
      List.takeWhile_append_of_pos hskipped, List.length_append]
    rw [Nat.zero_add, Nat.zero_add, Nat.add_comm]
  have hzero : ∀ us : TokenList, (ofList options us).seek =
      { ofList options us with
        cursor := (Cursor.ofList us).synchronize (single .kwProgram)
        skipped := ((Cursor.ofList us).synchronize (single .kwProgram)).index } := by
    intro us
    rw [seek, Cursor.distance]
    simp [recover, ofList, Cursor.ofList]
  rw [hzero, hzero, hcursor]
  rfl

/-- Tokens before the program are passed over, and all else is the same behind them. -/
theorem recognize_behind (options : Options) {js ts : TokenList}
    (hjs : ∀ t ∈ js, t.kind ≠ .kwProgram ∧ t.kind ≠ .eof) (hts : ts ≠ []) :
    recognize options .program (js ++ ts) =
      (recognize options .program ts).map (behind js.length) := by
  have hsym := symmetry_behind js.length
  rw [recognize_program, recognize_program, seek_append options hjs hts, hsym.kind, hsym.run,
    hsym.note, apply_ite (Ending.map (behind js.length))]
  rfl

/-! ## The end of the input -/

end Parser

/-- The list with the end of the input behind its last token, at the position of that token. -/
def TokenList.terminated (ts : TokenList) : TokenList :=
  ts ++ [.eof ((ts.getLast?.map Token.position).getD .start)]

/-- The cursor with the end of the input behind the last token. -/
def Cursor.terminated (c : Cursor) : Cursor := { c with rest := c.rest ++ [.eof c.finish] }

namespace Cursor

theorem ofList_terminated (ts : TokenList) : ofList ts.terminated = (ofList ts).terminated := by
  have hfinish : (ofList ts.terminated).finish = (ofList ts).finish := by
    rw [ofList, TokenList.terminated, List.getLast?_concat]
    rfl
  have hcursor : ofList ts.terminated =
      ⟨ts.terminated, 0, (ofList ts.terminated).finish⟩ := rfl
  rw [hcursor, hfinish]
  rfl

/-- A cursor finds the end of the input behind the last token, be it there or not. -/
theorem current_terminated (c : Cursor) : c.terminated.current = c.current := by
  obtain ⟨rest, index, finish⟩ := c
  cases rest <;> rfl

theorem advance_terminated (c : Cursor) : c.terminated.advance = c.advance.terminated := by
  have hend : c.terminated.atEnd = c.atEnd := by rw [atEnd, atEnd, kind, kind, current_terminated]
  rw [advance, advance, hend]
  split
  · rfl
  · next h =>
    -- the cursor stands at a token, so the list from there on is not empty
    obtain ⟨rest, index, finish⟩ := c
    cases rest with
    | nil => exact absurd rfl h
    | cons t ts => rfl

theorem synchronize_terminated (stops : KindSet) (c : Cursor) :
    c.terminated.synchronize stops = (c.synchronize stops).terminated := by
  have heof : isSkipped stops (Token.eof c.finish) = false := rfl
  -- the end of the input is not passed over, be it reached or not
  have hdrop : (c.rest ++ [Token.eof c.finish]).dropWhile (isSkipped stops) =
      c.rest.dropWhile (isSkipped stops) ++ [Token.eof c.finish] := by
    rw [List.dropWhile_append]
    split
    · next h => simp [List.isEmpty_iff.1 h, heof]
    · rfl
  have htake : (c.rest ++ [Token.eof c.finish]).takeWhile (isSkipped stops) =
      c.rest.takeWhile (isSkipped stops) := by
    rw [List.takeWhile_append]
    split
    · next h => simp [heof, (List.takeWhile_prefix _).eq_of_length h]
    · rfl
  simp only [synchronize, terminated, hdrop, htake]

theorem remaining_terminated (c : Cursor) : c.terminated.remaining = c.remaining := by
  simp [remaining, terminated]

end Cursor

namespace Parser

/-- The parser with the end of the input behind the last token. -/
def terminated (p : Parser) : Parser := { p with cursor := p.cursor.terminated }

theorem ofList_terminated (options : Options) (ts : TokenList) :
    ofList options ts.terminated = (ofList options ts).terminated := by
  rw [ofList, Cursor.ofList_terminated]
  rfl

theorem recover_terminated (p : Parser) (stops : KindSet) :
    p.terminated.recover stops = (p.recover stops).terminated := by
  have hcursor := Cursor.synchronize_terminated stops p.cursor
  rw [recover]
  exact congrArg (fun c => { p with cursor := c }) hcursor

theorem accept_terminated (p : Parser) (rule : Rule) :
    p.terminated.accept rule = (p.accept rule).terminated := by
  have hcurrent : p.terminated.cursor.current = p.cursor.current := p.cursor.current_terminated
  have hadvance : p.terminated.cursor.advance = p.cursor.advance.terminated :=
    p.cursor.advance_terminated
  rw [accept, hcurrent, hadvance]
  rfl

theorem note_terminated (p : Parser) (expected : Expected) (rule : Rule) (follow : KindSet) :
    p.terminated.note expected rule follow = (p.note expected rule follow).terminated := by
  have hcurrent : p.terminated.cursor.current = p.cursor.current := p.cursor.current_terminated
  rw [note, note, hcurrent, apply_ite terminated]
  rfl

theorem symmetry_terminated : Symmetry terminated where
  kind p := congrArg Token.kind p.cursor.current_terminated
  mustStop _ := rfl
  accept := accept_terminated
  recover := recover_terminated
  note := note_terminated
  seek p := by
    rw [seek, recover_terminated]
    rfl

/-- A parser comes to the same if the end of the input is behind the last token. -/
theorem recognize_terminated (options : Options) (g : Goal) (ts : TokenList) :
    recognize options g ts.terminated = (recognize options g ts).map terminated := by
  rw [recognize, ofList_terminated, symmetry_terminated.run]
  rfl

theorem Ending.outcome_terminated (e : Ending) : (e.map terminated).outcome = e.outcome := by
  have hremaining : (e.map terminated).parser.cursor.remaining = e.parser.cursor.remaining := by
    rw [Ending.parser_map]
    exact Cursor.remaining_terminated _
  rw [Ending.outcome, hremaining, Ending.parser_map, Ending.isCompleted_map]
  rfl

end Parser

/-! ## Outcomes -/

/-- The counts with `n` more tokens before the program. -/
def Summary.behind (n : Nat) (s : Summary) : Summary :=
  { s with consumed := s.consumed + n, skipped := s.skipped + n }

/-- The outcome with `n` more tokens before the program. -/
def Outcome.behind (n : Nat) (o : Outcome) : Outcome := { o with summary := o.summary.behind n }

theorem Parser.Ending.outcome_behind (n : Nat) (e : Parser.Ending) :
    (e.map (Parser.behind n)).outcome = e.outcome.behind n := by
  cases e <;> rfl

/-- Tokens before the program make no difference but to the counts that they are part of. They
    may be any but `program` and the end of the input. -/
theorem parse_behind (options : Parser.Options) {js ts : TokenList}
    (hjs : ∀ t ∈ js, t.kind ≠ .kwProgram ∧ t.kind ≠ .eof) (hts : ts ≠ []) :
    parseWith options (js ++ ts) = (parseWith options ts).behind js.length ∧
      (Parser.recognize options .program (js ++ ts)).isCompleted =
        (Parser.recognize options .program ts).isCompleted ∧
      parse (js ++ ts) = (parse ts).map (Summary.behind js.length) := by
  have hparse : ∀ options : Parser.Options,
      parseWith options (js ++ ts) = (parseWith options ts).behind js.length := by
    intro options
    rw [parseWith, Parser.recognize_behind options hjs hts, Parser.Ending.outcome_behind]
    rfl
  refine ⟨hparse options, ?_, ?_⟩
  · rw [Parser.recognize_behind options hjs hts, Parser.Ending.isCompleted_map]
  · have herrors : (parseWith {} (js ++ ts)).errors = (parseWith {} ts).errors := by
      rw [hparse]
      rfl
    rw [parse, parse, herrors]
    cases (parseWith {} ts).errors with
    | nil =>
      rw [hparse]
      rfl
    | cons e es => rfl

/-- Two tokens before a program that lacks an expression twice. -/
theorem behind_nothingToPrintTwice :
    (∀ t ∈ [Token.bare .dot ⟨1, 1⟩, .bare .kwPrint ⟨1, 2⟩],
        t.kind ≠ .kwProgram ∧ t.kind ≠ .eof) ∧
      TokenList.nothingToPrintTwice ≠ [] ∧
      parseWith ⟨.panic, 0, true⟩
          ([.bare .dot ⟨1, 1⟩, .bare .kwPrint ⟨1, 2⟩] ++ TokenList.nothingToPrintTwice) =
        (parseWith ⟨.panic, 0, true⟩ .nothingToPrintTwice).behind 2 ∧
      (parseWith ⟨.panic, 0, true⟩ .nothingToPrintTwice).errors.length = 2 :=
  ⟨by decide, by decide, (parse_behind ⟨.panic, 0, true⟩ (by decide) (by decide)).1, by cbv⟩

/-- A list reads as if the end of the input were behind its last token. Whatever is to be
    recognised, from its first token on, that token makes no difference to what comes of it. -/
theorem parse_terminated (options : Parser.Options) (ts : TokenList) :
    parseWith options ts.terminated = parseWith options ts ∧
      ∀ g : Goal,
        (Parser.recognize options g ts.terminated).isCompleted =
          (Parser.recognize options g ts).isCompleted ∧
        (Parser.recognize options g ts.terminated).outcome =
          (Parser.recognize options g ts).outcome ∧
        (Parser.recognize options g ts.terminated).parser.cursor.remaining =
          (Parser.recognize options g ts).parser.cursor.remaining := by
  have houtcome : ∀ g : Goal, (Parser.recognize options g ts.terminated).outcome =
      (Parser.recognize options g ts).outcome := by
    intro g
    rw [Parser.recognize_terminated, Parser.Ending.outcome_terminated]
  refine ⟨houtcome .program, fun g => ⟨?_, houtcome g, ?_⟩⟩
  · rw [Parser.recognize_terminated, Parser.Ending.isCompleted_map]
  · rw [Parser.recognize_terminated, Parser.Ending.parser_map]
    exact Cursor.remaining_terminated _

end TinyLang

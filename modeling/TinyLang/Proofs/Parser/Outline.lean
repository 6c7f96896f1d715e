import TinyLang.Proofs.Parser.ErrorOrder

/-!
# What a parser sees of its tokens

A parser sees the kinds of its tokens and nothing else. An outline is what becomes of a parser,
told with places instead of tokens (`Parser.Outline`); filled with a list of tokens it is a
parser of that list (`Parser.Outline.fill`). All that a parser does is done to the outline, by
the kinds of the tokens alone (`Parser.Outline.fill_accept`, `Parser.Outline.fill_note`, ...).

So parsers of two lists with the same kinds have one outline from the start to the end of their
runs (`Parser.Outline.run_fill`), and what comes of parsing the two lists differs in the tokens
that stand at the same places of them only (`parse_kinds_only`).
-/

namespace TinyLang

open KindSet

/-! ## Kinds of lists -/

/-- The kind that is found at a place of a list of kinds. -/
def Kind.atPlace (ks : List Kind) (i : Nat) : Kind := ks[i]?.getD .eof

/-- The number of kinds from a place on that are passed over on the way to a kind of `stops`. -/
def Kind.passed (ks : List Kind) (stops : KindSet) (i : Nat) : Nat :=
  ((ks.drop i).takeWhile fun k => k != .eof && !stops.contains k).length

namespace TokenList

theorem kind_tokenAt (ts : TokenList) (i : Nat) :
    (ts.tokenAt i).kind = Kind.atPlace ts.kinds i := by
  rw [tokenAt, Kind.atPlace, kinds, List.getElem?_map]
  cases ts[i]? <;> rfl

/-- Where no end of the input is found there is a token. -/
theorem getElem?_of_kind_ne {ts : TokenList} {i : Nat} (h : (ts.tokenAt i).kind ≠ .eof) :
    ts[i]? = some (ts.tokenAt i) := by
  rw [tokenAt] at h ⊢
  cases hi : ts[i]? with
  | none =>
    rw [hi] at h
    exact absurd rfl h
  | some t => rfl

theorem length_takeWhile_isSkipped (ts : TokenList) (stops : KindSet) (i : Nat) :
    ((ts.drop i).takeWhile (Cursor.isSkipped stops)).length = Kind.passed ts.kinds stops i := by
  rw [Kind.passed, kinds, ← List.map_drop, List.takeWhile_map, List.length_map]
  rfl

end TokenList

namespace Parser

/-- An error, with the place of the token that was found. -/
structure Fault where
  /-- What the rule wanted. -/
  expected : Expected
  /-- The rule. -/
  rule : Rule
  /-- What may come after what the rule was looking for. -/
  follow : KindSet
  /-- The place of the token that was there. -/
  place : Nat

/-- The error about the token of a list. -/
def Fault.error (ts : TokenList) (f : Fault) : SyntaxError :=
  ⟨f.expected, f.rule.name, ts.tokenAt f.place, f.follow⟩

/-- The match of the token at a place of a list, for a rule. -/
def matchAt (ts : TokenList) (m : Nat × Rule) : Match :=
  ⟨(ts.tokenAt m.1).kind, m.2.name, (ts.tokenAt m.1).position⟩

/-- A parser with places instead of tokens. -/
structure Outline where
  /-- How to parse. -/
  options : Options
  /-- Where the parser stands. -/
  index : Nat := 0
  /-- The places of the recorded matches, and the rules. -/
  matched : Array (Nat × Rule) := #[]
  /-- The errors. -/
  faults : Array Fault := #[]
  /-- The number of tokens before the program. -/
  skipped : Nat := 0
  /-- Where the last error was noted. -/
  lastErrorAt : Option Nat := none

namespace Outline

variable (ts us : TokenList) (ks : List Kind) (o : Outline)

/-- The parser of a list with that outline. -/
def fill : Parser where
  options := o.options
  cursor := (Cursor.ofList ts).skip o.index
  trace := o.matched.map (matchAt ts)
  errors := o.faults.map (Fault.error ts)
  skipped := o.skipped
  lastErrorAt := o.lastErrorAt

/-! ## What a parser does to its outline -/

/-- A token is matched. -/
def accept (rule : Rule) : Outline :=
  { o with
    index := if Kind.atPlace ks o.index = .eof then o.index else o.index + 1
    matched := if o.options.recordMatches then o.matched.push (o.index, rule) else o.matched }

/-- Tokens are passed over. -/
def recover (stops : KindSet) : Outline :=
  { o with index := o.index + Kind.passed ks stops o.index }

/-- An error is noted. -/
def note (expected : Expected) (rule : Rule) (follow : KindSet) : Outline :=
  if o.lastErrorAt = some o.index then o
  else
    { o with
      faults := o.faults.push ⟨expected, rule, follow, o.index⟩
      lastErrorAt := some o.index }

/-- What is behind an error is looked for. -/
def resume (rule : Rule) (follow : KindSet) : Option Kind → Outline
  | none => o.recover ks follow
  | some kind =>
    let q := o.recover ks (follow.insert kind)
    if Kind.atPlace ks q.index = kind then q.accept ks rule else q

/-- The program is looked for. -/
def seek : Outline :=
  { o.recover ks (single .kwProgram) with
    skipped := o.skipped + Kind.passed ks (single .kwProgram) o.index }

theorem current_fill : (o.fill ts).cursor.current = ts.tokenAt o.index :=
  Cursor.current_skip_ofList ts o.index

theorem kind_fill : (o.fill ts).kind = Kind.atPlace ts.kinds o.index := by
  rw [← TokenList.kind_tokenAt, ← current_fill]
  rfl

theorem index_fill : (o.fill ts).cursor.index = o.index :=
  Nat.zero_add _

theorem fill_accept (rule : Rule) :
    (o.fill ts).accept rule = (o.accept ts.kinds rule).fill ts := by
  have hcursor : (o.fill ts).cursor.advance =
      (Cursor.ofList ts).skip (o.accept ts.kinds rule).index := by
    have hkind : (o.fill ts).cursor.kind = Kind.atPlace ts.kinds o.index := kind_fill ts o
    rw [accept]
    split
    · next h => rw [Cursor.advance, if_pos (by simp [Cursor.atEnd, hkind, h])]; rfl
    · next h =>
      rw [Cursor.advance_eq_skip (by rw [hkind]; exact h)]
      exact Cursor.skip_skip _ _ _
  have htrace : (o.accept ts.kinds rule).matched.map (matchAt ts) =
      if o.options.recordMatches then
        (o.matched.map (matchAt ts)).push (matchAt ts (o.index, rule))
      else o.matched.map (matchAt ts) := by
    rw [← Array.map_push, ← apply_ite (Array.map (matchAt ts))]
    rfl
  have hfill : (o.accept ts.kinds rule).fill ts =
      { o.fill ts with
        cursor := (Cursor.ofList ts).skip (o.accept ts.kinds rule).index
        trace := (o.accept ts.kinds rule).matched.map (matchAt ts) } := rfl
  rw [Parser.accept, hcursor, current_fill, hfill, htrace]
  rfl

theorem fill_recover (stops : KindSet) :
    (o.fill ts).recover stops = (o.recover ts.kinds stops).fill ts := by
  have hrest : (o.fill ts).cursor.rest = ts.drop o.index := rfl
  have hcursor : (o.fill ts).cursor = (Cursor.ofList ts).skip o.index := rfl
  rw [Parser.recover, Cursor.synchronize_eq_skip, hrest, TokenList.length_takeWhile_isSkipped,
    hcursor, Cursor.skip_skip]
  rfl

theorem fill_note (expected : Expected) (rule : Rule) (follow : KindSet) :
    (o.fill ts).note expected rule follow = (o.note expected rule follow).fill ts := by
  have hlast : (o.fill ts).lastErrorAt = o.lastErrorAt := rfl
  rw [Parser.note, note, index_fill, hlast, current_fill]
  split
  · rfl
  · unfold fill
    dsimp only
    rw [Array.map_push]
    rfl

theorem options_note (expected : Expected) (rule : Rule) (follow : KindSet) :
    (o.note expected rule follow).options = o.options := by
  rw [note]
  split <;> rfl

theorem fill_resume (rule : Rule) (follow : KindSet) (missing : Option Kind) :
    (o.fill ts).resume rule follow missing = (o.resume ts.kinds rule follow missing).fill ts := by
  cases missing with
  | none => exact fill_recover ts o follow
  | some kind =>
    rw [Parser.resume, fill_recover, acceptIf, kind_fill, fill_accept, ← apply_ite (fill ts)]
    rfl

theorem fill_seek : (o.fill ts).seek = (o.seek ts.kinds).fill ts := by
  have hskipped : (o.fill ts).skipped = o.skipped := rfl
  rw [Parser.seek, fill_recover, Cursor.distance, index_fill, index_fill, hskipped, seek]
  unfold fill recover
  dsimp only
  rw [Nat.add_sub_cancel_left]

theorem mustStop_fill : (o.fill ts).mustStop = (o.fill us).mustStop := by
  unfold mustStop fill
  dsimp only
  rw [Array.size_map, Array.size_map]

/-! ## Runs -/

variable {ts us}

/-- Parsers of two lists with the same kinds that have one outline end with one outline, and in
    the same way. -/
theorem run_fill (hkinds : ts.kinds = us.kinds) (o : Outline) (gs : List Goal) :
    ∃ o' : Outline, ((o.fill ts).run gs).parser = o'.fill ts ∧
      ((o.fill us).run gs).parser = o'.fill us ∧
        ((o.fill ts).run gs).isCompleted = ((o.fill us).run gs).isCompleted := by
  -- the induction is on the run over the first list; the outline tells both runs the kind that
  -- is ahead, so they make the same moves
  obtain ⟨p, hp⟩ : ∃ p, p = o.fill ts := ⟨_, rfl⟩
  induction p, gs using run_induction generalizing o with
  | done p =>
    rw [run_nil, run_nil]
    exact ⟨o, rfl, rfl, rfl⟩
  | expand p g gs goals hmove ih =>
    subst hp
    have hmove' : g.move (o.fill us).kind = .expand goals := by
      rwa [kind_fill, ← hkinds, ← kind_fill]
    rw [run_expand gs hmove, run_expand gs hmove']
    exact ih o rfl
  | shift p g gs rule goals hmove ih =>
    subst hp
    have hmove' : g.move (o.fill us).kind = .shift rule goals := by
      rwa [kind_fill, ← hkinds, ← kind_fill]
    rw [run_shift gs hmove, run_shift gs hmove', fill_accept, fill_accept, ← hkinds]
    exact ih _ (fill_accept ts o rule)
  | refuse p g gs expected rule follow missing hmove ih =>
    subst hp
    have hmove' : g.move (o.fill us).kind = .refuse expected rule follow missing := by
      rwa [kind_fill, ← hkinds, ← kind_fill]
    rw [run_refuse gs hmove, run_refuse gs hmove', fill_note, fill_note, mustStop_fill us ts]
    split
    · exact ⟨_, rfl, rfl, rfl⟩
    · rw [fill_resume, fill_resume, ← hkinds]
      exact ih _ (by rw [fill_note, fill_resume])
  | seek p g gs goals hmove ih =>
    subst hp
    have hmove' : g.move (o.fill us).kind = .seek goals := by
      rwa [kind_fill, ← hkinds, ← kind_fill]
    rw [run_seek gs hmove, run_seek gs hmove', fill_seek, fill_seek, kind_fill, kind_fill,
      ← hkinds]
    split
    · exact ih _ (fill_seek ts o)
    · rw [fill_note, fill_note]
      exact ⟨_, rfl, rfl, rfl⟩

theorem fill_ofList (options : Options) (ts : TokenList) :
    fill ts { options } = ofList options ts := by
  simp [fill, ofList]

theorem remaining_fill (ts : TokenList) (o : Outline) :
    (o.fill ts).cursor.remaining = (ts.kinds.drop o.index).countP fun k => k != .eof := by
  rw [TokenList.kinds, ← List.map_drop, List.countP_map]
  rfl

end Outline

/-- The end of the input is never matched. -/
theorem kind_ne_eof_of_mem_trace (options : Options) (ts : TokenList) :
    ∀ m ∈ (parseWith options ts).trace, m.kind ≠ .eof := by
  refine Acts.invariant (I := fun p => ∀ m ∈ p.trace.toList, m.kind ≠ .eof) ?_
    (recognize_acts options ts) (List.forall_mem_nil _)
  intro p q hact hp
  cases hact with
  | accept rule hk =>
    rw [accept]
    dsimp only
    split
    · rw [Array.toList_push]
      exact List.forall_mem_append.2 ⟨hp, List.forall_mem_singleton.2 hk⟩
    · exact hp
  | note expected rule follow _ =>
    rw [note]
    split <;> exact hp
  | recover => exact hp

end Parser

/-- Whether what came of parsing two lists differs in nothing but the tokens that stand at the
    same places of the lists. -/
structure Outcome.Alike (ts us : TokenList) (o o' : Outcome) : Prop where
  summary : o.summary = o'.summary
  /-- The matches are of the same kinds, by the same rules. -/
  trace : o.trace.map (fun m => (m.kind, m.rule)) = o'.trace.map fun m => (m.kind, m.rule)
  /-- The errors are the same, but for the values and the positions of the tokens. -/
  errors : o.errors.map (fun e => (e.expected, e.rule, e.follow, e.found.kind)) =
    o'.errors.map fun e => (e.expected, e.rule, e.follow, e.found.kind)
  /-- The matches are at the same places of the two lists. -/
  matched : ∃ places : List Nat, (∀ i ∈ places, i < ts.length) ∧
    o.trace.map Match.position = places.map (fun i => (ts.tokenAt i).position) ∧
      o'.trace.map Match.position = places.map fun i => (us.tokenAt i).position
  /-- The errors are about the tokens at the same places of the two lists. -/
  found : ∃ places : List Nat,
    o.errors.map SyntaxError.found = places.map ts.tokenAt ∧
      o'.errors.map SyntaxError.found = places.map us.tokenAt

namespace Parser

open Outline

variable {ts us : TokenList}

theorem trace_outcome {e : Ending} {o : Outline} (h : e.parser = o.fill ts) :
    e.outcome.trace = o.matched.toList.map (matchAt ts) := by
  rw [Ending.outcome, h]
  exact Array.toList_map

theorem errors_outcome {e : Ending} {o : Outline} (h : e.parser = o.fill ts) :
    e.outcome.errors = o.faults.toList.map (Fault.error ts) := by
  rw [Ending.outcome, h]
  exact Array.toList_map

theorem kind_tokenAt_eq (hkinds : ts.kinds = us.kinds) (i : Nat) :
    (ts.tokenAt i).kind = (us.tokenAt i).kind := by
  rw [TokenList.kind_tokenAt, TokenList.kind_tokenAt, hkinds]

/-- Endings with one outline, in the same way, are alike. -/
theorem alike_of_outline (hkinds : ts.kinds = us.kinds) {e e' : Ending} {o : Outline}
    (he : e.parser = o.fill ts) (he' : e'.parser = o.fill us)
    (hcompleted : e.isCompleted = e'.isCompleted)
    (heof : ∀ m ∈ e.outcome.trace, m.kind ≠ .eof) :
    Outcome.Alike ts us e.outcome e'.outcome := by
  have htrace := trace_outcome he
  rw [htrace] at heof
  refine ⟨?_, ?_, ?_, ⟨o.matched.toList.map Prod.fst, ?_, ?_, ?_⟩,
    ⟨o.faults.toList.map Fault.place, ?_, ?_⟩⟩
  · rw [Ending.outcome, Ending.outcome, he, he', hcompleted, remaining_fill, remaining_fill,
      hkinds]
    rfl
  · simp [htrace, trace_outcome he', matchAt, kind_tokenAt_eq hkinds]
  · simp [errors_outcome he, errors_outcome he', Fault.error, kind_tokenAt_eq hkinds]
  · intro i hi
    obtain ⟨m, hm, rfl⟩ := List.mem_map.1 hi
    have hkind : (ts.tokenAt m.1).kind ≠ .eof := heof _ (List.mem_map_of_mem hm)
    exact (List.getElem?_eq_some_iff.1 (TokenList.getElem?_of_kind_ne hkind)).1
  · rw [htrace, List.map_map, List.map_map]
    rfl
  · rw [trace_outcome he', List.map_map, List.map_map]
    rfl
  · rw [errors_outcome he, List.map_map, List.map_map]
    rfl
  · rw [errors_outcome he', List.map_map, List.map_map]
    rfl

end Parser

/-- Of its tokens a parser sees the kinds only. So what comes of parsing two lists with the same
    kinds is the same, but for the values and the positions of the tokens, and these are those
    of the tokens at the same places of each list. -/
theorem parse_kinds_only (options : Parser.Options) {ts us : TokenList}
    (hkinds : ts.kinds = us.kinds) :
    Outcome.Alike ts us (parseWith options ts) (parseWith options us) := by
  obtain ⟨o, he, he', hcompleted⟩ := Parser.Outline.run_fill hkinds { options } [.program]
  rw [Parser.Outline.fill_ofList, Parser.Outline.fill_ofList] at *
  exact Parser.alike_of_outline hkinds he he' hcompleted
    (Parser.kind_ne_eof_of_mem_trace options ts)

/-- Other tokens of the kinds of those that print nothing in particular twice. -/
def TokenList.nothingToPrintOnLines : TokenList :=
  [.bare .kwProgram ⟨1, 1⟩, .of .ident "lines" ⟨1, 9⟩, .bare .colon ⟨1, 14⟩,
    .bare .kwPrint ⟨2, 1⟩, .bare .semicolon ⟨2, 6⟩, .bare .kwPrint ⟨3, 1⟩, .bare .dot ⟨3, 6⟩]

/-- The two lists are parsed alike, though a name and the lines are not the same. -/
theorem alike_nothingToPrintOnLines :
    TokenList.nothingToPrintTwice ≠ .nothingToPrintOnLines ∧
      TokenList.nothingToPrintTwice.kinds = TokenList.nothingToPrintOnLines.kinds ∧
      Outcome.Alike .nothingToPrintTwice .nothingToPrintOnLines
        (parseWith ⟨.panic, 0, true⟩ .nothingToPrintTwice)
        (parseWith ⟨.panic, 0, true⟩ .nothingToPrintOnLines) :=
  ⟨by decide, by decide, parse_kinds_only ⟨.panic, 0, true⟩ (by decide)⟩

end TinyLang

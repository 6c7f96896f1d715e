import TinyLang.Proofs.Parser.Input

/-!
# Recovery

What a parser does about errors makes no difference before the first one
(`Parser.upToError_of_fresh`), and behind it a parser that goes on only adds to its
errors and matches and never goes back (`Parser.extends_run`). So a parser that goes
on tells what one that stops tells, and possibly more (`parse_panic_continues_halt`).
-/

namespace TinyLang

open KindSet

namespace Parser

/-! ## Going on -/

/-- The parser `q` is further on than `p` in the same list of tokens. -/
structure Extends (p q : Parser) : Prop where
  errors : p.errors.toList <+: q.errors.toList
  trace : p.trace.toList <+: q.trace.toList
  index : p.cursor.index ≤ q.cursor.index
  skipped : q.skipped = p.skipped

namespace Extends

theorem refl (p : Parser) : Extends p p :=
  ⟨List.prefix_rfl, List.prefix_rfl, Nat.le_refl _, rfl⟩

theorem trans {p q r : Parser} (h : Extends p q) (h' : Extends q r) : Extends p r :=
  ⟨h.errors.trans h'.errors, h.trace.trans h'.trace, Nat.le_trans h.index h'.index,
    h'.skipped.trans h.skipped⟩

end Extends

theorem extends_accept (p : Parser) (rule : Rule) : Extends p (p.accept rule) := by
  refine ⟨List.prefix_rfl, ?_, ?_, rfl⟩
  · rw [accept]
    dsimp only
    split
    · rw [Array.toList_push]
      exact List.prefix_append _ _
    · exact List.prefix_rfl
  · show p.cursor.index ≤ p.cursor.advance.index
    rw [Cursor.advance]
    split
    · exact Nat.le_refl _
    · exact Nat.le_succ _

theorem extends_recover (p : Parser) (stops : KindSet) : Extends p (p.recover stops) :=
  ⟨List.prefix_rfl, List.prefix_rfl, Nat.le_add_right _ _, rfl⟩

theorem extends_note (p : Parser) (expected : Expected) (rule : Rule) (follow : KindSet) :
    Extends p (p.note expected rule follow) := by
  rw [note]
  split
  · exact .refl p
  · refine ⟨?_, List.prefix_rfl, Nat.le_refl _, rfl⟩
    rw [Array.toList_push]
    exact List.prefix_append _ _

theorem extends_resume (p : Parser) (rule : Rule) (follow : KindSet) (missing : Option Kind) :
    Extends p (p.resume rule follow missing) := by
  cases missing with
  | none => exact extends_recover p follow
  | some kind =>
    refine (extends_recover p (follow.insert kind)).trans ?_
    rw [resume, acceptIf]
    split
    · exact extends_accept _ rule
    · exact .refl _

/-- The whole program is not in the goals after a move if it is not before. -/
theorem program_notMem_append {g : Goal} {gs : List Goal} {k : Kind} {m : Move}
    (hmove : g.move k = m) (hgs : .program ∉ g :: gs) : .program ∉ m.goals ++ gs := by
  rw [← hmove]
  exact fun h => (List.mem_append.1 h).elim (g.program_notMem_move k)
    (List.not_mem_of_not_mem_cons hgs)

/-- A run only goes on. The one exception is the look for the start of the program. -/
theorem extends_run (p : Parser) (gs : List Goal) (hgs : .program ∉ gs) :
    Extends p (p.run gs).parser := by
  induction p, gs using run_induction with
  | done p =>
    rw [run_nil]
    exact .refl p
  | expand p g gs goals hmove ih =>
    rw [run_expand gs hmove]
    exact ih (program_notMem_append hmove hgs)
  | shift p g gs rule goals hmove ih =>
    rw [run_shift gs hmove]
    exact (extends_accept p rule).trans (ih (program_notMem_append hmove hgs))
  | refuse p g gs expected rule follow missing hmove ih =>
    have hnote := extends_note p expected rule follow
    rw [run_refuse gs hmove]
    split
    · exact hnote
    · exact (hnote.trans (extends_resume _ rule follow missing)).trans
        (ih (List.not_mem_of_not_mem_cons hgs))
  | seek p g gs goals hmove _ =>
    obtain ⟨rfl, _⟩ := Goal.move_eq_seek hmove
    exact absurd List.mem_cons_self hgs

/-! ## Up to the first error -/

/-- The parser with other options. -/
def under (options : Options) (p : Parser) : Parser := { p with options }

theorem extends_under (options : Options) (p : Parser) : Extends p (p.under options) :=
  ⟨List.prefix_rfl, List.prefix_rfl, Nat.le_refl _, rfl⟩

theorem accept_under {options : Options} {p : Parser}
    (h : options.recordMatches = p.options.recordMatches) (rule : Rule) :
    (p.under options).accept rule = (p.accept rule).under options := by
  simp only [accept, under, h]

theorem note_under (options : Options) (p : Parser) (expected : Expected) (rule : Rule)
    (follow : KindSet) :
    (p.under options).note expected rule follow = (p.note expected rule follow).under options := by
  rw [note, note, apply_ite (under options)]
  rfl

/-- How a parser without errors fares up to the first one. Options make a difference
    only to whether it goes on from there. -/
inductive UpToError (p : Parser) (gs : List Goal) : Prop
  /-- There is no error. -/
  | none (q : Parser) : Fresh q →
      (∀ options : Options, options.recordMatches = p.options.recordMatches →
        (p.under options).run gs = .completed (q.under options)) → UpToError p gs
  /-- There is one, and it is noted by `q`. -/
  | error (q : Parser) (expected : Expected) (rule : Rule) (follow : KindSet)
      (missing : Option Kind) (hs : List Goal) : Fresh q → .program ∉ hs →
      (∀ options : Options, options.recordMatches = p.options.recordMatches →
        (p.under options).run gs =
          if ((q.note expected rule follow).under options).mustStop then
            .halted ((q.note expected rule follow).under options)
          else (((q.note expected rule follow).under options).resume rule follow missing).run hs) →
      UpToError p gs

/-- What holds after a step that options make no difference to holds before it. -/
theorem UpToError.of_run {p q : Parser} {gs hs : List Goal}
    (hq : q.options.recordMatches = p.options.recordMatches)
    (hrun : ∀ options : Options, options.recordMatches = p.options.recordMatches →
      (p.under options).run gs = (q.under options).run hs) (h : UpToError q hs) :
    UpToError p gs := by
  cases h with
  | none r hr h =>
    exact .none r hr fun options ho => (hrun options ho).trans (h options (ho.trans hq.symm))
  | error r expected rule follow missing hs' hr hhs h =>
    exact .error r expected rule follow missing hs' hr hhs fun options ho =>
      (hrun options ho).trans (h options (ho.trans hq.symm))

theorem upToError_of_fresh (p : Parser) (gs : List Goal) (hp : Fresh p) (hgs : .program ∉ gs) :
    UpToError p gs := by
  -- A move hangs on the goal and the token only, so a parser with other options makes
  -- the same one. The first refusal ends the induction.
  induction p, gs using run_induction with
  | done p => exact .none p hp fun options _ => run_nil _
  | expand p g gs goals hmove ih =>
    refine .of_run rfl (fun options _ => ?_) (ih hp (program_notMem_append hmove hgs))
    exact run_expand (p := p.under options) gs hmove
  | shift p g gs rule goals hmove ih =>
    refine .of_run (q := p.accept rule) rfl (fun options ho => ?_)
      (ih ⟨hp.errors, hp.lastErrorAt⟩ (program_notMem_append hmove hgs))
    rw [run_shift (p := p.under options) gs hmove, accept_under ho]
  | refuse p g gs expected rule follow missing hmove _ =>
    refine .error p expected rule follow missing gs hp (List.not_mem_of_not_mem_cons hgs)
      fun options _ => ?_
    rw [run_refuse (p := p.under options) gs hmove, note_under]
  | seek p g gs goals hmove _ =>
    obtain ⟨rfl, _⟩ := Goal.move_eq_seek hmove
    exact absurd List.mem_cons_self hgs

/-! ## Outcomes -/

/-- What a parser without errors notes is the only error. -/
theorem toList_errors_note {p : Parser} (hp : Fresh p) (expected : Expected) (rule : Rule)
    (follow : KindSet) :
    (p.note expected rule follow).errors.toList =
      [⟨expected, rule.name, p.cursor.current, follow⟩] := by
  rw [errors_note _ _ _ hp]

theorem fresh_seek (options : Options) (ts : TokenList) : Fresh (ofList options ts).seek :=
  ⟨rfl, rfl⟩

theorem recognize_program (options : Options) (ts : TokenList) :
    recognize options .program ts =
      if (ofList options ts).seek.kind = .kwProgram then
        (ofList options ts).seek.run Goal.programParts
      else .halted ((ofList options ts).seek.note (.token .kwProgram) .program ∅) := by
  rw [recognize, run_seek [] rfl, List.append_nil]

end Parser

/-- The outcome `o'` is that of a parser that goes on where `o` is that of one that
    stopped at an error. -/
structure Outcome.Continues (o o' : Outcome) : Prop where
  errors : ∃ e, o.errors = [e] ∧ o'.errors.head? = some e
  skipped : o.summary.skipped = o'.summary.skipped
  consumed : o.summary.consumed ≤ o'.summary.consumed
  trace : o.trace <+: o'.trace

namespace Parser

theorem continues_of_extends {p : Parser} (hp : Fresh p) {expected : Expected} {rule : Rule}
    {follow : KindSet} {e : Ending} (h : Extends (p.note expected rule follow) e.parser) :
    (Ending.halted (p.note expected rule follow)).outcome.Continues e.outcome := by
  have hnote := toList_errors_note hp expected rule follow
  refine ⟨⟨_, hnote, ?_⟩, h.skipped.symm, h.index, h.trace⟩
  obtain ⟨es, hes⟩ := h.errors
  show e.parser.errors.toList.head? = _
  rw [← hes, hnote]
  rfl

/-- One error is enough for a parser that stops at the first one, or at one. -/
theorem mustStop_of_note {p : Parser} (hp : Fresh p) (expected : Expected) (rule : Rule)
    (follow : KindSet) {options : Options}
    (h : options.recovery = .halt ∨ options.errorLimit = 1) :
    ((p.note expected rule follow).under options).mustStop = true := by
  obtain ⟨recovery, errorLimit, recordMatches⟩ := options
  cases recovery with
  | halt => rfl
  | panic =>
    obtain rfl : errorLimit = 1 := h.resolve_left nofun
    have hsize : (p.note expected rule follow).errors.size = 1 := by
      rw [errors_note _ _ _ hp]
      rfl
    simp [mustStop, under, hsize]

/-- Every way to parse a list of tokens starts alike: all come to one outcome without
    errors, or all continue one with an error. -/
theorem exists_outcome (recordMatches : Bool) (ts : TokenList) :
    ∃ o : Outcome,
      (o.errors = [] ∧ ∀ options : Options, options.recordMatches = recordMatches →
        parseWith options ts = o) ∨
      ∀ options : Options, options.recordMatches = recordMatches →
        o.Continues (parseWith options ts) ∧
          (options.recovery = .halt ∨ options.errorLimit = 1 → parseWith options ts = o) := by
  -- the parser without its options is the same in all runs
  let p := (ofList { recordMatches } ts).seek
  have hp : Fresh p := fresh_seek _ ts
  have hrun : ∀ options : Options, recognize options .program ts =
      if p.kind = .kwProgram then (p.under options).run Goal.programParts
      else .halted ((p.under options).note (.token .kwProgram) .program ∅) :=
    fun options => recognize_program options ts
  by_cases hk : p.kind = .kwProgram
  · cases upToError_of_fresh p Goal.programParts hp (by simp [Goal.programParts]) with
    | none q hq h =>
      refine ⟨(Ending.completed q).outcome, .inl ⟨congrArg Array.toList hq.errors, fun options ho => ?_⟩⟩
      rw [parseWith, hrun, if_pos hk, h options ho]
      rfl
    | error q expected rule follow missing hs hq hhs h =>
      refine ⟨(Ending.halted (q.note expected rule follow)).outcome, .inr fun options ho => ?_⟩
      rw [parseWith, hrun, if_pos hk, h options ho]
      refine ⟨continues_of_extends hq ?_, fun hstop => ?_⟩
      · refine (extends_under options _).trans ?_
        split
        · exact .refl _
        · exact (extends_resume _ rule follow missing).trans (extends_run _ hs hhs)
      · rw [if_pos (mustStop_of_note hq _ _ _ hstop)]
        rfl
  · refine ⟨(Ending.halted (p.note (.token .kwProgram) .program ∅)).outcome,
      .inr fun options _ => ?_⟩
    rw [parseWith, hrun, if_neg hk, note_under]
    exact ⟨continues_of_extends hp (extends_under options _), fun _ => rfl⟩

end Parser

/-- A parser that goes on after errors finds errors exactly where one that stops does,
    and else comes to the same outcome. Its first error is the one at which the other
    stops. If it stops at one error, there is no difference. -/
theorem parse_panic_continues_halt (ts : TokenList) (recordMatches : Bool) (limit limit' : Nat) :
    let halt := parseWith ⟨.halt, limit, recordMatches⟩ ts
    let panic := parseWith ⟨.panic, limit', recordMatches⟩ ts
    (halt.errors = [] ↔ panic.errors = []) ∧ (halt.errors = [] → halt = panic) ∧
      (halt.errors ≠ [] → halt.Continues panic) ∧
      parseWith ⟨.panic, 1, recordMatches⟩ ts = halt := by
  intro halt panic
  -- both parsers come to `o`, or the one that stops does and the other continues it
  obtain ⟨o, ⟨ho, hall⟩ | hall⟩ := Parser.exists_outcome recordMatches ts
  · have hhalt : halt = o := hall _ rfl
    have hpanic : panic = o := hall _ rfl
    rw [hhalt, hpanic]
    exact ⟨Iff.rfl, fun _ => rfl, fun h => absurd ho h, hall _ rfl⟩
  · have hhalt : halt = o := (hall _ rfl).2 (.inl rfl)
    have hcontinues : o.Continues panic := (hall _ rfl).1
    obtain ⟨e, he, hhead⟩ := hcontinues.errors
    have hne : panic.errors ≠ [] := fun h => by simp [h] at hhead
    rw [hhalt]
    refine ⟨by simp [he, hne], fun h => ?_, fun _ => hcontinues, (hall _ rfl).2 (.inr rfl)⟩
    rw [he] at h
    cases h

/-- The tokens of a program that lacks an expression twice. -/
def TokenList.nothingToPrintTwice : TokenList :=
  [.bare .kwProgram ⟨1, 1⟩, .of .ident "p" ⟨1, 9⟩, .bare .colon ⟨1, 10⟩, .bare .kwPrint ⟨1, 12⟩,
    .bare .semicolon ⟨1, 17⟩, .bare .kwPrint ⟨1, 19⟩, .bare .dot ⟨1, 24⟩]

/-- The second error is found by a parser that goes on only. -/
theorem continues_nothingToPrintTwice :
    (parseWith ⟨.panic, 10, true⟩ .nothingToPrintTwice).errors.length = 2 ∧
      (parseWith ⟨.halt, 10, true⟩ .nothingToPrintTwice).Continues
        (parseWith ⟨.panic, 10, true⟩ .nothingToPrintTwice) := by
  have hne : (parseWith ⟨.halt, 10, true⟩ .nothingToPrintTwice).errors ≠ [] := by
    cbv
    exact List.cons_ne_nil _ _
  refine ⟨by cbv, ?_⟩
  exact (parse_panic_continues_halt .nothingToPrintTwice true 10 10).2.2.1 hne

end TinyLang

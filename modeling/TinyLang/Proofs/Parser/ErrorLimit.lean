import TinyLang.Proofs.Parser.Recovery

/-!
# The error limit

A limit to the number of errors only cuts parsing short (`parse_limit_truncates`): up to the
error at which a parser with a limit stops, it does what one without a limit does
(`Parser.limits_run`), and from there on the latter only goes on. A parser with a limit
notes no error beyond it, so it stops at exactly as many errors as it may have.
-/

namespace TinyLang

open KindSet

/-- The outcome `o` is that of a parser that stops at `n` errors where `o'` is that of one
    that does not stop. -/
structure Outcome.Truncates (n : Nat) (o o' : Outcome) : Prop where
  errors : o.errors = o'.errors.take n
  skipped : o.summary.skipped = o'.summary.skipped
  trace : o.trace <+: o'.trace
  consumed : o.summary.consumed ≤ o'.summary.consumed
  eq_of_lt : o'.errors.length < n → o = o'

theorem Outcome.truncates_of_length_le {n : Nat} {o : Outcome} (h : o.errors.length ≤ n) :
    o.Truncates n o :=
  ⟨(List.take_of_length_le h).symm, rfl, List.prefix_rfl, Nat.le_refl _, fun _ => rfl⟩

namespace Parser

/-- The parser that goes on after errors, up to `n` of them; zero stands for no limit. -/
def limited (n : Nat) (p : Parser) : Parser := p.under ⟨.panic, n, p.options.recordMatches⟩

section Limited

variable (n : Nat) (p : Parser) (expected : Expected) (rule : Rule) (follow : KindSet)

theorem accept_limited : (p.limited n).accept rule = (p.accept rule).limited n := by
  have hrecord : (⟨.panic, n, p.options.recordMatches⟩ : Options).recordMatches =
      p.options.recordMatches := rfl
  exact accept_under hrecord rule

theorem note_limited :
    (p.limited n).note expected rule follow = (p.note expected rule follow).limited n := by
  rw [limited, note_under, limited, options_note]

theorem resume_limited (missing : Option Kind) :
    (p.limited n).resume rule follow missing = (p.resume rule follow missing).limited n := by
  cases missing with
  | none => rfl
  | some kind =>
    rw [resume, resume, acceptIf, acceptIf, apply_ite (limited n), ← accept_limited]
    rfl

theorem mustStop_limited_zero : (p.limited 0).mustStop = false := rfl

theorem mustStop_limited_iff (hn : 1 ≤ n) : (p.limited n).mustStop = true ↔ n ≤ p.errors.size := by
  have hne : (n != 0) = true := bne_iff_ne.2 (Nat.ne_of_gt hn)
  have hstop : (p.limited n).mustStop = (n != 0 && decide (n ≤ p.errors.size)) := rfl
  rw [hstop, hne, Bool.true_and, decide_eq_true_iff]

theorem size_errors_note_le : (p.note expected rule follow).errors.size ≤ p.errors.size + 1 := by
  rw [note]
  split
  · exact Nat.le_succ _
  · exact (Array.size_push _).le

theorem errors_resume (missing : Option Kind) :
    (p.resume rule follow missing).errors = p.errors := by
  cases missing with
  | none => rfl
  | some kind =>
    rw [resume, acceptIf]
    split <;> rfl

end Limited

/-- The run `e` stops at `n` errors where the run `e'` does not. -/
inductive Limits (n : Nat) : Ending → Ending → Prop
  /-- There are fewer errors. -/
  | completed {q : Parser} : q.errors.size < n →
      Limits n (.completed (q.limited n)) (.completed (q.limited 0))
  /-- There are as many, and the run without a limit goes on. -/
  | halted {q : Parser} {e' : Ending} : q.errors.size = n → Extends q e'.parser →
      Limits n (.halted (q.limited n)) e'

/-- A run with a limit does what the run without one does, and stops at its limit. -/
theorem limits_run {n : Nat} (hn : 1 ≤ n) (p : Parser) (gs : List Goal) (hp : p.errors.size < n)
    (hgs : .program ∉ gs) : Limits n ((p.limited n).run gs) ((p.limited 0).run gs) := by
  -- both runs make the same moves; the number of errors so far is below the limit until
  -- the refusal at which it is reached
  induction p, gs using run_induction with
  | done p =>
    rw [run_nil, run_nil]
    exact .completed hp
  | expand p g gs goals hmove ih =>
    rw [run_expand (p := p.limited n) gs hmove, run_expand (p := p.limited 0) gs hmove]
    exact ih hp (program_notMem_append hmove hgs)
  | shift p g gs rule goals hmove ih =>
    rw [run_shift (p := p.limited n) gs hmove, run_shift (p := p.limited 0) gs hmove,
      accept_limited, accept_limited]
    exact ih hp (program_notMem_append hmove hgs)
  | refuse p g gs expected rule follow missing hmove ih =>
    have hgs := List.not_mem_of_not_mem_cons hgs
    have hle := size_errors_note_le p expected rule follow
    rw [run_refuse (p := p.limited n) gs hmove, run_refuse (p := p.limited 0) gs hmove,
      note_limited, note_limited, mustStop_limited_zero, if_neg Bool.false_ne_true]
    by_cases hstop : n ≤ (p.note expected rule follow).errors.size
    · rw [if_pos ((mustStop_limited_iff n _ hn).2 hstop)]
      refine .halted (Nat.le_antisymm (by omega) hstop) ?_
      exact ((extends_under _ _).trans (extends_resume _ rule follow missing)).trans
        (extends_run _ gs hgs)
    · rw [if_neg fun h => hstop ((mustStop_limited_iff n _ hn).1 h), resume_limited,
        resume_limited]
      refine ih ?_ hgs
      rw [errors_resume]
      exact Nat.lt_of_not_le hstop
  | seek p g gs goals hmove _ =>
    obtain ⟨rfl, _⟩ := Goal.move_eq_seek hmove
    exact absurd List.mem_cons_self hgs

theorem Limits.truncates {n : Nat} {e e' : Ending} (h : Limits n e e') :
    e.outcome.Truncates n e'.outcome := by
  cases h with
  | completed hlt => exact Outcome.truncates_of_length_le hlt.le
  | @halted q e' hsize hextends =>
    have hlen : q.errors.toList.length = n := hsize
    refine ⟨?_, hextends.skipped.symm, hextends.trace, hextends.index, fun hlt => ?_⟩
    · have := List.prefix_iff_eq_take.1 hextends.errors
      rwa [hlen] at this
    · have hle := hextends.errors.length_le
      rw [hlen] at hle
      exact absurd hlt (Nat.not_lt.2 hle)

theorem Limits.isCompleted_eq_false_iff {n : Nat} {e e' : Ending} (h : Limits n e e') :
    e.isCompleted = false ↔ e.outcome.errors.length = n := by
  cases h with
  | @completed q hlt => exact iff_of_false Bool.noConfusion hlt.ne
  | @halted q e' hsize _ => exact iff_of_true rfl hsize

/-- The program is found if there is one before the end of the input. -/
theorem kind_seek_of_mem_input (options : Options) {ts : TokenList}
    (h : .kwProgram ∈ ts.input) : (ofList options ts).seek.kind = .kwProgram := by
  obtain ⟨w, hinput, hnot, -⟩ := seek_eq (ofList options ts)
  refine (kind_seek _).resolve_right fun heof => hnot ?_
  rw [input_eq_nil heof, List.append_nil] at hinput
  exact hinput ▸ h

end Parser

/-- A limit cuts parsing short at that many errors and makes no difference if there are
    fewer. If there is a program, a parser with a limit stops if and only if it has as many
    errors as it may have. -/
theorem parse_limit_truncates (ts : TokenList) (recordMatches : Bool) {n : Nat} (hn : 1 ≤ n) :
    (parseWith ⟨.panic, n, recordMatches⟩ ts).Truncates n
      (parseWith ⟨.panic, 0, recordMatches⟩ ts) ∧
    (.kwProgram ∈ ts.input →
      ((Parser.recognize ⟨.panic, n, recordMatches⟩ .program ts).isCompleted = false ↔
        (parseWith ⟨.panic, n, recordMatches⟩ ts).errors.length = n)) := by
  -- the parser at the start of the program, up to its limit the same in both runs
  let p := (Parser.ofList { recordMatches } ts).seek
  have hrun : ∀ n, Parser.recognize ⟨.panic, n, recordMatches⟩ .program ts =
      if p.kind = .kwProgram then (p.limited n).run Goal.programParts
      else .halted ((p.limited n).note (.token .kwProgram) .program ∅) :=
    fun n => Parser.recognize_program _ ts
  rw [parseWith, parseWith, hrun, hrun]
  by_cases hk : p.kind = .kwProgram
  · have h : Parser.Limits n ((p.limited n).run Goal.programParts)
        ((p.limited 0).run Goal.programParts) :=
      Parser.limits_run hn p _ hn (by simp [Goal.programParts])
    rw [if_pos hk, if_pos hk]
    exact ⟨h.truncates, fun _ => h.isCompleted_eq_false_iff⟩
  · rw [if_neg hk, if_neg hk]
    refine ⟨Outcome.truncates_of_length_le hn, fun hmem => ?_⟩
    exact absurd (Parser.kind_seek_of_mem_input _ hmem) hk

/-- Of two errors a parser that may have one notes the first and stops. -/
theorem truncates_nothingToPrintTwice :
    (parseWith ⟨.panic, 0, true⟩ .nothingToPrintTwice).errors.length = 2 ∧
      (parseWith ⟨.panic, 1, true⟩ .nothingToPrintTwice).Truncates 1
        (parseWith ⟨.panic, 0, true⟩ .nothingToPrintTwice) ∧
      (Parser.recognize ⟨.panic, 1, true⟩ .program .nothingToPrintTwice).isCompleted = false := by
  have hlength : (parseWith ⟨.panic, 1, true⟩ .nothingToPrintTwice).errors.length = 1 := by cbv
  obtain ⟨htruncates, hstops⟩ := parse_limit_truncates .nothingToPrintTwice true (Nat.le_refl 1)
  exact ⟨by cbv, htruncates, (hstops (by decide)).2 hlength⟩

end TinyLang

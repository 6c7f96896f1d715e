import TinyLang.Proofs.Parser.Input

/-!
# Follow sets of expressions

What a parser does about a part of an expression does not depend on what may come after it:
moves on goals that differ in that only do so themselves (`Goal.bare_move`). So a parser that
stops at the first error does the same on agendas that differ in that only
(`Parser.run_of_bare_eq`), up to the follow set that it notes with the error.
-/

namespace TinyLang

namespace Goal

/-- The goal without what may come after it, if it is a part of an expression or a token. -/
def bare : Goal → Goal
  | expression _ => expression ∅
  | comparison _ => comparison ∅
  | simpleExpression _ => simpleExpression ∅
  | moreTerms _ => moreTerms ∅
  | term _ => term ∅
  | moreFactors _ => moreFactors ∅
  | factor _ => factor ∅
  | operand wanted _ => operand wanted ∅
  | relationalOperator _ => relationalOperator ∅
  | unaryOperator _ => unaryOperator ∅
  | token kind rule _ => token kind rule ∅
  | g => g

end Goal

/-- The move without what may come after the parts of expressions that it leaves. -/
def Move.bare : Move → Move
  | expand goals => expand (goals.map Goal.bare)
  | shift rule goals => shift rule (goals.map Goal.bare)
  | refuse expected rule _ missing => refuse expected rule ∅ missing
  | seek goals => seek (goals.map Goal.bare)

namespace Goal

theorem bare_operandMove (wanted follow : KindSet) (k : Kind) :
    (operandMove wanted follow k).bare = (operandMove wanted ∅ k).bare := by
  cases k <;> rfl

/-- The move on a part of an expression does not depend on what may come after it. -/
theorem bare_move (g : Goal) (k : Kind) : (g.bare.move k).bare = (g.move k).bare := by
  cases g with
  | operand wanted follow => exact (bare_operandMove wanted follow k).symm
  | factor follow =>
    rw [bare, move, move]
    split
    · rfl
    · exact (bare_operandMove _ follow k).symm
  | comparison | moreTerms | moreFactors =>
    rw [bare, move, move]
    split <;> rfl
  | relationalOperator | unaryOperator | token =>
    simp only [bare, move, oneOfMove, tokenMove]
    split <;> rfl
  | expression | simpleExpression | term => rfl
  | program | body | declarations | moreDeclarations | declaration | moreNames | statements
  | moreStatements | statement | otherCase => rfl

theorem bare_move_eq {g g' : Goal} (h : g'.bare = g.bare) (k : Kind) :
    (g'.move k).bare = (g.move k).bare := by
  rw [← bare_move g', h, bare_move]

end Goal

namespace Move

variable {m : Move} {goals : List Goal}

theorem bare_eq_expand (h : m.bare = (expand goals).bare) :
    ∃ goals', m = expand goals' ∧ goals.map Goal.bare = goals'.map Goal.bare := by
  cases m with
  | expand goals' => exact ⟨goals', rfl, (expand.inj h).symm⟩
  | shift | refuse | seek => cases h

theorem bare_eq_shift {rule : Rule} (h : m.bare = (shift rule goals).bare) :
    ∃ goals', m = shift rule goals' ∧ goals.map Goal.bare = goals'.map Goal.bare := by
  cases m with
  | shift rule' goals' =>
    obtain ⟨rfl, hgoals⟩ := shift.inj h
    exact ⟨goals', rfl, hgoals.symm⟩
  | expand | refuse | seek => cases h

theorem bare_eq_seek (h : m.bare = (seek goals).bare) :
    ∃ goals', m = seek goals' ∧ goals.map Goal.bare = goals'.map Goal.bare := by
  cases m with
  | seek goals' => exact ⟨goals', rfl, (seek.inj h).symm⟩
  | expand | shift | refuse => cases h

theorem bare_eq_refuse {expected : Expected} {rule : Rule} {follow : KindSet}
    {missing : Option Kind} (h : m.bare = (refuse expected rule follow missing).bare) :
    ∃ follow', m = refuse expected rule follow' missing := by
  cases m <;> cases h
  exact ⟨_, rfl⟩

end Move

namespace Parser

/-- Whether two runs end with the same parser, but for the follow set of an error that it
    noted last. -/
inductive Ending.Like : Ending → Ending → Prop
  | completed (p : Parser) : Like (.completed p) (.completed p)
  | halted (p : Parser) (expected : Expected) (rule : Rule) (follow follow' : KindSet) :
      Like (.halted (p.note expected rule follow)) (.halted (p.note expected rule follow'))

/-- A parser that stops at the first error does the same on agendas that differ in what may come
    after parts of expressions only. -/
theorem run_of_bare_eq (p : Parser) (gs gs' : List Goal) (hp : p.options.recovery = .halt)
    (h : gs.map Goal.bare = gs'.map Goal.bare) : (p.run gs).Like (p.run gs') := by
  induction p, gs using run_induction generalizing gs' with
  | done p =>
    obtain rfl : gs' = [] := List.map_eq_nil_iff.1 h.symm
    rw [run_nil]
    exact .completed p
  | expand p g gs goals hmove ih =>
    obtain ⟨g', gs', rfl, hg, hgs⟩ := List.map_eq_cons_iff.1 h.symm
    obtain ⟨goals', hmove', hgoals⟩ := Move.bare_eq_expand (hmove ▸ Goal.bare_move_eq hg p.kind)
    rw [run_expand gs hmove, run_expand gs' hmove']
    exact ih _ hp (by rw [List.map_append, List.map_append, hgoals, hgs])
  | shift p g gs rule goals hmove ih =>
    obtain ⟨g', gs', rfl, hg, hgs⟩ := List.map_eq_cons_iff.1 h.symm
    obtain ⟨goals', hmove', hgoals⟩ := Move.bare_eq_shift (hmove ▸ Goal.bare_move_eq hg p.kind)
    rw [run_shift gs hmove, run_shift gs' hmove']
    exact ih _ hp (by rw [List.map_append, List.map_append, hgoals, hgs])
  | refuse p g gs expected rule follow missing hmove _ =>
    -- the error stops both, so what may follow is noted, but nothing is looked for behind it
    obtain ⟨g', gs', rfl, hg, -⟩ := List.map_eq_cons_iff.1 h.symm
    obtain ⟨follow', hmove'⟩ := Move.bare_eq_refuse (hmove ▸ Goal.bare_move_eq hg p.kind)
    rw [run_refuse gs hmove, run_refuse gs' hmove', if_pos (mustStop_note _ _ _ hp),
      if_pos (mustStop_note _ _ _ hp)]
    exact .halted p expected rule follow follow'
  | seek p g gs goals hmove ih =>
    obtain ⟨g', gs', rfl, hg, hgs⟩ := List.map_eq_cons_iff.1 h.symm
    obtain ⟨goals', hmove', hgoals⟩ := Move.bare_eq_seek (hmove ▸ Goal.bare_move_eq hg p.kind)
    rw [run_seek gs hmove, run_seek gs' hmove']
    split
    · exact ih _ hp (by rw [List.map_append, List.map_append, hgoals, hgs])
    · exact .halted _ _ _ _ _

end Parser

end TinyLang

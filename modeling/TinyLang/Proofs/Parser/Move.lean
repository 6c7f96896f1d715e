import TinyLang.Parser.Outcome

/-!
# Moves

What a parser does about the first goal of its agenda hangs on that goal and on
the kind of the token ahead alone (`Goal.move`): it replaces the goal, matches
the token, refuses it, or looks for the program. A run makes the moves one after
the other (`run_cons`), where choices that look at the same token without
matching it count as one move.

A statement about all runs is proved move by move (`run_induction`).
-/

namespace TinyLang

open KindSet

/-- What a parser does about a goal. -/
inductive Move where
  /-- Other goals take the place of the goal. -/
  | expand (goals : List Goal)
  /-- The token is matched, and goals are left in the place of the goal. -/
  | shift (rule : Rule) (goals : List Goal)
  /-- The token is not wanted. Where a single kind was, that one is looked for. -/
  | refuse (expected : Expected) (rule : Rule) (follow : KindSet) (missing : Option Kind)
  /-- The start of a program is looked for. -/
  | seek (goals : List Goal)

/-- The move with further goals behind those it leaves. -/
def Move.push (more : List Goal) : Move → Move
  | expand goals => expand (goals ++ more)
  | shift rule goals => shift rule (goals ++ more)
  | seek goals => seek (goals ++ more)
  | refuse expected rule follow missing => refuse expected rule follow missing

/-- The goals that a move leaves. -/
def Move.goals : Move → List Goal
  | expand goals | shift _ goals | seek goals => goals
  | refuse .. => []

namespace Goal

/-- What a program consists of. -/
def programParts : List Goal :=
  let follow := (bodyStart.insert .colon).insert .dot
  [.token .kwProgram .program follow, .token .ident .program follow,
    .token .colon .program follow, .body (single .dot), .token .dot .program (single .eof)]

/-- The move on one token. -/
def tokenMove (kind : Kind) (rule : Rule) (follow : KindSet) (k : Kind) : Move :=
  if k = kind then .shift rule [] else .refuse (.token kind) rule follow (some kind)

/-- The move on one token out of several kinds. -/
def oneOfMove (kinds : KindSet) (rule : Rule) (follow : KindSet) (k : Kind) : Move :=
  if kinds.contains k then .shift rule [] else .refuse (.oneOf kinds) rule follow none

/-- The move on a declaration. -/
def declarationMove (follow : KindSet) (k : Kind) : Move :=
  if declarationStart.contains k then
    .shift .declaration
      [.token .ident .declaration ((follow.insert .comma).insert .semicolon),
        .moreNames ((follow.insert .comma).insert .semicolon),
        .token .semicolon .declaration follow]
  else .refuse (.oneOf declarationStart) .declaration follow (some .semicolon)

/-- The move on a statement. -/
def statementMove (follow : KindSet) : Kind → Move
  | .ident =>
    .shift .statement [.token .assign .statement (follow ∪ factorStart), .expression follow]
  | .kwIf =>
    .shift .statement
      [.expression (follow.insert .kwThen), .token .kwThen .statement (follow ∪ bodyStart),
        .body caseClosers, .otherCase, .token .kwEnd .statement follow]
  | .kwWhile =>
    .shift .statement
      [.expression (follow.insert .kwDo), .token .kwDo .statement (follow ∪ statementStart),
        .statements (single .kwEnd), .token .kwEnd .statement follow]
  | .kwPrint => .shift .statement [.expression follow]
  | .dot => .shift .statement []
  | _ => .refuse (.oneOf statementForms) .statement follow none

/-- The move on an operand where any of `wanted` could come. -/
def operandMove (wanted follow : KindSet) : Kind → Move
  | .lparen =>
    .shift .factor [.expression (follow.insert .rparen), .token .rparen .factor follow]
  | .ident | .num => .shift .factor []
  | .kwMod => .shift .factor [.factor follow]
  | _ => .refuse (.oneOf wanted) .factor follow none

/-- The move on a goal with a token of kind `k` ahead. -/
def move (k : Kind) : Goal → Move
  | .program => .seek programParts
  | .body follow =>
    if declarationStart.contains k then
      .expand [.declarations (follow ∪ statementStart), .statements follow]
    else .expand [.statements follow]
  | .declarations follow =>
    .expand [.declaration (follow ∪ declarationStart),
      .moreDeclarations (follow ∪ declarationStart)]
  | .moreDeclarations follow =>
    if declarationStart.contains k then
      (declarationMove follow k).push [.moreDeclarations follow]
    else .expand []
  | .declaration follow => declarationMove follow k
  | .moreNames follow =>
    if k = .comma then
      .shift .declaration [.token .ident .declaration follow, .moreNames follow]
    else .expand []
  | .statements follow =>
    if statementStart.contains k then
      (statementMove ((follow ∪ statementStart).insert .semicolon) k).push
        [.moreStatements follow]
    else .expand []
  | .moreStatements follow =>
    if k = .semicolon then .shift .statements [.statements follow]
    else if (follow ∪ listClosers).contains k then
      -- without a semicolon another statement comes only if `follow` says that it may
      if statementStart.contains k then .expand [.statements follow] else .expand []
    else
      .expand [.token .semicolon .statements (follow ∪ statementStart), .statements follow]
  | .statement follow => statementMove follow k
  | .otherCase =>
    if k = .kwElse then .shift .statement [.body caseClosers] else .expand []
  | .expression follow =>
    .expand [.simpleExpression (follow ∪ relationalOps), .comparison follow]
  | .comparison follow =>
    if relationalOps.contains k then
      .expand [.relationalOperator (follow ∪ factorStart), .simpleExpression follow]
    else .expand []
  | .simpleExpression follow =>
    .expand [.term (follow ∪ additiveOps), .moreTerms (follow ∪ additiveOps)]
  | .moreTerms follow =>
    if additiveOps.contains k then
      .shift .simpleExpression [.term follow, .moreTerms follow]
    else .expand []
  | .term follow =>
    .expand [.factor (follow ∪ multiplicativeOps), .moreFactors (follow ∪ multiplicativeOps)]
  | .moreFactors follow =>
    if multiplicativeOps.contains k then
      .shift .term [.factor follow, .moreFactors follow]
    else .expand []
  | .factor follow =>
    if unaryOps.contains k then
      .expand [.unaryOperator (follow ∪ operandStart), .operand operandStart follow]
    else operandMove factorStart follow k
  | .operand wanted follow => operandMove wanted follow k
  | .relationalOperator follow => oneOfMove relationalOps .relationalOperator follow k
  | .unaryOperator follow => oneOfMove unaryOps .unaryOperator follow k
  | .token kind rule follow => tokenMove kind rule follow k

theorem declarationMove_of_start {follow : KindSet} {k : Kind}
    (h : declarationStart.contains k = true) :
    ∃ goals, declarationMove follow k = .shift .declaration goals :=
  ⟨_, if_pos h⟩

theorem statementMove_of_start {follow : KindSet} {k : Kind}
    (h : statementStart.contains k = true) :
    ∃ goals, statementMove follow k = .shift .statement goals := by
  cases k <;> first | exact ⟨_, rfl⟩ | exact absurd h (by decide)

/-- Only the whole program is looked for. -/
theorem move_eq_seek {g : Goal} {k : Kind} {goals : List Goal} (h : g.move k = .seek goals) :
    g = .program ∧ goals = programParts := by
  cases g with
  | program => exact ⟨rfl, (Move.seek.inj h).symm⟩
  | statement follow => cases k <;> cases h
  | operand wanted follow => cases k <;> cases h
  | factor follow =>
    rw [move] at h
    split at h
    · cases h
    · cases k <;> cases h
  | statements follow =>
    rw [move] at h
    split at h
    · next hk =>
      obtain ⟨_, hs⟩ := statementMove_of_start hk
      rw [hs] at h
      cases h
    · cases h
  | moreDeclarations follow =>
    rw [move] at h
    split at h
    · next hk =>
      obtain ⟨_, hs⟩ := declarationMove_of_start hk
      rw [hs] at h
      cases h
    · cases h
  | declaration | relationalOperator | unaryOperator | token =>
    simp only [move, declarationMove, oneOfMove, tokenMove] at h
    split at h <;> cases h
  | body | moreNames | otherCase | comparison | moreTerms | moreFactors =>
    rw [move] at h
    split at h <;> cases h
  | declarations | expression | simpleExpression | term => cases h
  | moreStatements follow =>
    rw [move] at h
    repeat' split at h
    all_goals cases h

theorem program_notMem_statementMove (follow : KindSet) (k : Kind) :
    .program ∉ (statementMove follow k).goals := by
  cases k <;> simp [statementMove, Move.goals]

theorem program_notMem_operandMove (wanted follow : KindSet) (k : Kind) :
    .program ∉ (operandMove wanted follow k).goals := by
  cases k <;> simp [operandMove, Move.goals]

theorem program_notMem_declarationMove (follow : KindSet) (k : Kind) :
    .program ∉ (declarationMove follow k).goals := by
  rw [declarationMove]
  split <;> simp [Move.goals]

theorem program_notMem_push {m : Move} {more : List Goal} (hm : .program ∉ m.goals)
    (hmore : .program ∉ more) : .program ∉ (m.push more).goals := by
  cases m with
  | refuse => exact hm
  | expand goals | shift rule goals | seek goals =>
    exact fun h => (List.mem_append.1 h).elim hm hmore

/-- No move leaves the whole program. -/
theorem program_notMem_move (g : Goal) (k : Kind) : .program ∉ (g.move k).goals := by
  cases g with
  | program => simp [move, programParts, Move.goals]
  | statement follow => exact program_notMem_statementMove follow k
  | operand wanted follow => exact program_notMem_operandMove wanted follow k
  | declaration follow => exact program_notMem_declarationMove follow k
  | declarations | expression | simpleExpression | term => simp [move, Move.goals]
  | body | moreNames | otherCase | comparison | moreTerms | moreFactors =>
    rw [move]
    split <;> simp [Move.goals]
  | relationalOperator | unaryOperator | token =>
    simp only [move, oneOfMove, tokenMove]
    split <;> simp [Move.goals]
  | factor follow =>
    rw [move]
    split
    · simp [Move.goals]
    · exact program_notMem_operandMove _ follow k
  | moreStatements follow =>
    rw [move]
    repeat' split
    all_goals simp [Move.goals]
  | moreDeclarations follow =>
    rw [move]
    split
    · exact program_notMem_push (program_notMem_declarationMove follow k) (by simp)
    · simp [Move.goals]
  | statements follow =>
    rw [move]
    split
    · exact program_notMem_push (program_notMem_statementMove _ k) (by simp)
    · simp [Move.goals]

end Goal

namespace Parser

/-! ## Runs as moves -/

/-- The parser at the first token of the program, or at the end of the input if
    there is none. -/
def seek (p : Parser) : Parser :=
  { p.recover (single .kwProgram) with
    skipped := p.skipped + p.cursor.distance (p.recover (single .kwProgram)).cursor }

/-- The parser after it passed over the tokens up to where it can resume. -/
def resume (rule : Rule) (follow : KindSet) (p : Parser) : Option Kind → Parser
  | none => p.recover follow
  | some kind => (p.recover (follow.insert kind)).acceptIf kind rule

/-- The step that a move amounts to. -/
def make (p : Parser) : Move → Step
  | .expand goals => .go p goals
  | .shift rule goals => .go (p.accept rule) goals
  | .refuse expected rule follow missing =>
    p.mismatch expected rule follow fun q => q.resume rule follow missing
  | .seek goals =>
    if p.seek.kind = .kwProgram then .go p.seek goals
    else .halted (p.seek.note (.token .kwProgram) .program ∅)

/-- The run that goes on after a step, with further goals behind those it leaves. -/
def Step.finish (gs : List Goal) : Step → Ending
  | halted p => .halted p
  | go p goals => p.run (goals ++ gs)

@[simp]
theorem run_nil (p : Parser) : p.run [] = .completed p := by
  rw [run]

theorem run_cons_step (p : Parser) (g : Goal) (gs : List Goal) :
    p.run (g :: gs) = (p.step g).finish gs := by
  rw [run]
  split <;> simp_all [Step.finish]

section Table

variable (p : Parser)

theorem make_tokenMove (kind : Kind) (rule : Rule) (follow : KindSet) :
    p.make (Goal.tokenMove kind rule follow p.kind) = p.stepToken kind rule follow := by
  rw [Goal.tokenMove, stepToken]
  split <;> rfl

theorem make_oneOfMove (kinds : KindSet) (rule : Rule) (follow : KindSet) :
    p.make (Goal.oneOfMove kinds rule follow p.kind) = p.stepOneOf kinds rule follow := by
  rw [Goal.oneOfMove, stepOneOf]
  split <;> rfl

theorem make_declarationMove (follow : KindSet) :
    p.make (Goal.declarationMove follow p.kind) = p.stepDeclaration follow := by
  rw [Goal.declarationMove, stepDeclaration]
  split <;> rfl

theorem make_statementMove (follow : KindSet) :
    p.make (Goal.statementMove follow p.kind) = p.stepStatement follow := by
  rw [stepStatement]
  generalize p.kind = k
  cases k <;> rfl

theorem make_operandMove (wanted follow : KindSet) :
    p.make (Goal.operandMove wanted follow p.kind) = p.stepOperand wanted follow := by
  rw [stepOperand]
  generalize p.kind = k
  cases k <;> rfl

/-- A move that matches a token amounts to a step that leaves the same further goals behind. -/
theorem make_push_of_shift {m : Move} {rule : Rule} {goals : List Goal}
    (h : m = .shift rule goals) (more : List Goal) :
    p.make (m.push more) = (p.make m).push more := by
  subst h
  rfl

end Table

/-- A step makes the move on its goal. The two goals left out are those where a
    move is more than one step. -/
theorem step_eq_make (p : Parser) {g : Goal} (hf : ∀ follow, g ≠ .factor follow)
    (hm : ∀ follow, g ≠ .moreStatements follow) : p.step g = p.make (g.move p.kind) := by
  cases g with
  | factor follow => exact absurd rfl (hf follow)
  | moreStatements follow => exact absurd rfl (hm follow)
  | program | declarations | expression | simpleExpression | term => rfl
  | body | moreNames | otherCase | comparison | moreTerms | moreFactors =>
    rw [step, Goal.move]
    split <;> rfl
  | declaration follow => exact (p.make_declarationMove follow).symm
  | statement follow => exact (p.make_statementMove follow).symm
  | operand wanted follow => exact (p.make_operandMove wanted follow).symm
  | relationalOperator follow => exact (p.make_oneOfMove _ _ follow).symm
  | unaryOperator follow => exact (p.make_oneOfMove _ _ follow).symm
  | token kind rule follow => exact (p.make_tokenMove kind rule follow).symm
  | moreDeclarations follow =>
    rw [step, Goal.move]
    split
    · next h =>
      obtain ⟨goals, hg⟩ := Goal.declarationMove_of_start h
      rw [make_push_of_shift p hg, make_declarationMove]
    · rfl
  | statements follow =>
    rw [step, Goal.move]
    split
    · next h =>
      obtain ⟨goals, hg⟩ := Goal.statementMove_of_start h
      rw [make_push_of_shift p hg, make_statementMove]
    · rfl

/-- A run makes the move on the first goal and goes on. -/
theorem run_cons (p : Parser) (g : Goal) (gs : List Goal) :
    p.run (g :: gs) = (p.make (g.move p.kind)).finish gs := by
  -- a factor without operator and a list of statements that ends are two steps of the
  -- parser but one move, the second step being made on the same token
  by_cases hf : ∃ follow, g = .factor follow
  · obtain ⟨follow, rfl⟩ := hf
    rw [run_cons_step, step, Goal.move]
    split
    · rfl
    · rw [make_operandMove]
      exact run_cons_step p _ gs
  by_cases hm : ∃ follow, g = .moreStatements follow
  · obtain ⟨follow, rfl⟩ := hm
    rw [run_cons_step, step, stepMoreStatements, Goal.move]
    split
    · rfl
    split
    · split
      · rfl
      · next h =>
        show p.run (.statements follow :: gs) = p.run gs
        rw [run_cons_step, step, if_neg h]
        rfl
    · rfl
  rw [run_cons_step, step_eq_make p (fun follow h => hf ⟨follow, h⟩) fun follow h => hm ⟨follow, h⟩]

section Run

variable {p : Parser} {g : Goal} {goals : List Goal} (gs : List Goal)

theorem run_expand (h : g.move p.kind = .expand goals) :
    p.run (g :: gs) = p.run (goals ++ gs) := by
  rw [run_cons, h]
  rfl

theorem run_shift {rule : Rule} (h : g.move p.kind = .shift rule goals) :
    p.run (g :: gs) = (p.accept rule).run (goals ++ gs) := by
  rw [run_cons, h]
  rfl

theorem run_refuse {expected : Expected} {rule : Rule} {follow : KindSet}
    {missing : Option Kind} (h : g.move p.kind = .refuse expected rule follow missing) :
    p.run (g :: gs) =
      if (p.note expected rule follow).mustStop then .halted (p.note expected rule follow)
      else ((p.note expected rule follow).resume rule follow missing).run gs := by
  rw [run_cons, h, make, mismatch]
  split <;> rfl

theorem run_seek (h : g.move p.kind = .seek goals) :
    p.run (g :: gs) =
      if p.seek.kind = .kwProgram then p.seek.run (goals ++ gs)
      else .halted (p.seek.note (.token .kwProgram) .program ∅) := by
  rw [run_cons, h, make]
  split <;> rfl

end Run

/-! ## Induction on runs -/

theorem left_resume_le (rule : Rule) (follow : KindSet) (missing : Option Kind) (p : Parser) :
    (p.resume rule follow missing).left ≤ p.left := by
  cases missing with
  | none => exact left_recover_le p follow
  | some kind => exact left_recover_acceptIf_le _ kind rule p

theorem left_seek_le (p : Parser) : p.seek.left ≤ p.left :=
  left_recover_le p _

theorem Step.Descends.mono {p : Parser} {r : Step} {m n : Nat} (h : r.Descends p m)
    (hmn : m ≤ n) : r.Descends p n := by
  cases r with
  | halted _ => trivial
  | go q goals => exact h.imp id fun ⟨h₁, h₂⟩ => ⟨h₁, Nat.lt_of_lt_of_le h₂ hmn⟩

/-- Every move goes down, as every step does. -/
theorem descends_make (p : Parser) (g : Goal) : (p.make (g.move p.kind)).Descends p g.weight := by
  by_cases hf : ∃ follow, g = .factor follow
  · obtain ⟨follow, rfl⟩ := hf
    rw [Goal.move]
    split
    · exact descends_goals (by simp [Goal.weight])
    · rw [make_operandMove]
      exact (descends_stepOperand p _ _).mono (by simp [Goal.weight])
  by_cases hm : ∃ follow, g = .moreStatements follow
  · obtain ⟨follow, rfl⟩ := hm
    rw [Goal.move]
    split
    · next h => exact descends_accept (by simp [h]) _ _ _
    split
    · split <;> exact descends_goals (by simp [Goal.weight])
    · exact descends_goals (by simp [Goal.weight])
  rw [← step_eq_make p (fun follow h => hf ⟨follow, h⟩) fun follow h => hm ⟨follow, h⟩]
  exact descends_step p g

/-- A parser and an agenda after a move are less than before it. -/
theorem lt_of_descends {p q : Parser} {g : Goal} {goals : List Goal} (gs : List Goal)
    (h : (Step.go q goals).Descends p g.weight) :
    Prod.Lex (· < ·) (· < ·) (q.left, Goal.totalWeight (goals ++ gs))
      (p.left, Goal.totalWeight (g :: gs)) := by
  rw [Prod.lex_def]
  rcases h with h | ⟨h, hw⟩
  · exact .inl h
  · rcases Nat.lt_or_eq_of_le h with h | h
    · exact .inl h
    · exact .inr ⟨h, by simpa using hw⟩

/-- What holds of every parser without goals, and of a parser with a first goal
    if it holds after the move on that goal, holds of every parser and agenda. -/
theorem run_induction {motive : Parser → List Goal → Prop}
    (done : ∀ p, motive p [])
    (expand : ∀ p g gs goals, g.move p.kind = .expand goals → motive p (goals ++ gs) →
      motive p (g :: gs))
    (shift : ∀ p g gs rule goals, g.move p.kind = .shift rule goals →
      motive (p.accept rule) (goals ++ gs) → motive p (g :: gs))
    (refuse : ∀ p g gs expected rule follow missing,
      g.move p.kind = .refuse expected rule follow missing →
      motive ((p.note expected rule follow).resume rule follow missing) gs → motive p (g :: gs))
    (seek : ∀ p g gs goals, g.move p.kind = .seek goals →
      motive p.seek (goals ++ gs) → motive p (g :: gs)) :
    ∀ p gs, motive p gs
  | p, [] => done p
  | p, g :: gs => by
    -- what a move leaves is less, by the tokens that are left or by the weight of the
    -- goals, so the recursion is that of the run
    have hd := descends_make p g
    cases hg : g.move p.kind with
    | expand goals =>
      rw [hg] at hd
      have := lt_of_descends gs hd
      exact expand p g gs goals hg (run_induction done expand shift refuse seek p _)
    | shift rule goals =>
      rw [hg] at hd
      have := lt_of_descends gs hd
      exact shift p g gs rule goals hg (run_induction done expand shift refuse seek _ _)
    | refuse expected rule follow missing =>
      have hle := left_resume_le rule follow missing (p.note expected rule follow)
      rw [left_note] at hle
      have hd : (Step.go _ []).Descends p g.weight := .inr ⟨hle, g.weight_pos⟩
      have := lt_of_descends gs hd
      exact refuse p g gs expected rule follow missing hg
        (run_induction done expand shift refuse seek _ gs)
    | seek goals =>
      obtain ⟨hp, hparts⟩ := Goal.move_eq_seek hg
      have hd : (Step.go p.seek goals).Descends p g.weight :=
        .inr ⟨left_seek_le p, by rw [hp, hparts]; decide⟩
      have := lt_of_descends gs hd
      exact seek p _ gs _ hg (run_induction done expand shift refuse seek _ _)
termination_by p gs => (p.left, Goal.totalWeight gs)
decreasing_by all_goals assumption

/-- The ending that comes of working through more goals behind those of a run. -/
def Ending.andThen (e : Ending) (gs : List Goal) : Ending :=
  match e with
  | completed p => p.run gs
  | halted p => halted p

/-- Goals are worked through one behind the other, and none behind an error that stops the
    parser. -/
theorem run_append (p : Parser) (gs hs : List Goal) :
    p.run (gs ++ hs) = (p.run gs).andThen hs := by
  induction p, gs using run_induction with
  | done p =>
    rw [run_nil]
    rfl
  | expand p g gs goals hmove ih =>
    rw [List.cons_append, run_expand _ hmove, run_expand _ hmove, ← List.append_assoc, ih]
  | shift p g gs rule goals hmove ih =>
    rw [List.cons_append, run_shift _ hmove, run_shift _ hmove, ← List.append_assoc, ih]
  | refuse p g gs expected rule follow missing hmove ih =>
    rw [List.cons_append, run_refuse _ hmove, run_refuse _ hmove, ih]
    split <;> rfl
  | seek p g gs goals hmove ih =>
    rw [List.cons_append, run_seek _ hmove, run_seek _ hmove, ← List.append_assoc, ih]
    split <;> rfl

theorem Ending.andThen_eq_completed {e : Ending} {gs : List Goal} {q : Parser}
    (h : e.andThen gs = .completed q) : ∃ r, e = .completed r ∧ r.run gs = .completed q := by
  cases e with
  | completed r => exact ⟨r, rfl, h⟩
  | halted r => cases h

/-- A run leaves no more tokens than there were before it. -/
theorem left_run_le (p : Parser) (gs : List Goal) : (p.run gs).parser.left ≤ p.left := by
  induction p, gs using run_induction with
  | done p =>
    rw [run_nil]
    exact Nat.le_refl _
  | expand p g gs goals hmove ih =>
    rw [run_expand _ hmove]
    exact ih
  | shift p g gs rule goals hmove ih =>
    rw [run_shift _ hmove]
    exact Nat.le_trans ih (left_accept_le p rule)
  | refuse p g gs expected rule follow missing hmove ih =>
    have hle := left_resume_le rule follow missing (p.note expected rule follow)
    rw [left_note] at hle
    rw [run_refuse _ hmove]
    split
    · exact Nat.le_of_eq (left_note p expected rule follow)
    · exact Nat.le_trans ih hle
  | seek p g gs goals hmove ih =>
    rw [run_seek _ hmove]
    split
    · exact Nat.le_trans ih (left_seek_le p)
    · rw [Ending.parser, left_note]
      exact left_seek_le p

end Parser

end TinyLang

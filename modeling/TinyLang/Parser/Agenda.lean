import TinyLang.Parser.Goal

/-!
# Parsing

A parser works on its agenda one goal at a time (`Parser.step`) until nothing is
left to recognise or an error stops it (`Parser.run`). A step either matches a
token or replaces a goal by lighter ones (`descends_step`), so a parser ends on
every list of tokens, however deeply its phrases are nested, and whatever it
does about errors.
-/

namespace TinyLang

namespace Parser

open KindSet

/-- What a step does: it stops the parser, or leaves goals in the place of the
    one it was made on. -/
inductive Step where
  /-- The parser stops. -/
  | halted (p : Parser)
  /-- The parser goes on with `goals` first. -/
  | go (p : Parser) (goals : List Goal)

/-- The step with further goals behind those it leaves. -/
def Step.push (more : List Goal) : Step → Step
  | halted p => halted p
  | go p goals => go p (goals ++ more)

/-- A token that is not wanted: the error is noted, and unless the parser has to
    stop, `resume` brings it to where it can go on. -/
def mismatch (expected : Expected) (rule : Rule) (follow : KindSet)
    (resume : Parser → Parser) (p : Parser) : Step :=
  let p := p.note expected rule follow
  if p.mustStop then .halted p else .go (resume p) []

/-! ## Steps -/

/-- One token. After an error the token may still be found further on. -/
def stepToken (kind : Kind) (rule : Rule) (follow : KindSet) (p : Parser) : Step :=
  if p.kind = kind then .go (p.accept rule) []
  else
    p.mismatch (.token kind) rule follow fun p =>
      (p.recover (follow.insert kind)).acceptIf kind rule

/-- One token out of several kinds. -/
def stepOneOf (kinds : KindSet) (rule : Rule) (follow : KindSet) (p : Parser) : Step :=
  if kinds.contains p.kind then .go (p.accept rule) []
  else p.mismatch (.oneOf kinds) rule follow (recover follow)

/-- What comes before the program is passed over. Without a program there is
    nothing to resume at, so the parser stops. -/
def stepProgram (p : Parser) : Step :=
  let q := p.recover (single .kwProgram)
  let q := { q with skipped := p.skipped + p.cursor.distance q.cursor }
  let follow := (bodyStart.insert .colon).insert .dot
  if q.kind = .kwProgram then
    .go q [.token .kwProgram .program follow, .token .ident .program follow,
      .token .colon .program follow, .body (single .dot), .token .dot .program (single .eof)]
  else .halted (q.note (.token .kwProgram) .program ∅)

/-- A declaration. One that does not start is passed over up to its semicolon. -/
def stepDeclaration (follow : KindSet) (p : Parser) : Step :=
  if declarationStart.contains p.kind then
    let names := (follow.insert .comma).insert .semicolon
    .go (p.accept .declaration)
      [.token .ident .declaration names, .moreNames names,
        .token .semicolon .declaration follow]
  else
    p.mismatch (.oneOf declarationStart) .declaration follow fun p =>
      (p.recover (follow.insert .semicolon)).acceptIf .semicolon .declaration

/-- A statement. A lone dot is taken for an empty one. -/
def stepStatement (follow : KindSet) (p : Parser) : Step :=
  match p.kind with
  | .ident =>
    .go (p.accept .statement)
      [.token .assign .statement (follow ∪ factorStart), .expression follow]
  | .kwIf =>
    .go (p.accept .statement)
      [.expression (follow.insert .kwThen), .token .kwThen .statement (follow ∪ bodyStart),
        .body caseClosers, .otherCase, .token .kwEnd .statement follow]
  | .kwWhile =>
    .go (p.accept .statement)
      [.expression (follow.insert .kwDo), .token .kwDo .statement (follow ∪ statementStart),
        .statements (single .kwEnd), .token .kwEnd .statement follow]
  | .kwPrint => .go (p.accept .statement) [.expression follow]
  | .dot => .go (p.accept .statement) []
  | _ => p.mismatch (.oneOf statementForms) .statement follow (recover follow)

/-- What separates statements. The semicolon may be left out where the
    statements end. -/
def stepMoreStatements (follow : KindSet) (p : Parser) : Step :=
  if p.kind = .semicolon then .go (p.accept .statements) [.statements follow]
  else if (follow ∪ listClosers).contains p.kind then .go p [.statements follow]
  else .go p [.token .semicolon .statements (follow ∪ statementStart), .statements follow]

/-- An operand. -/
def stepOperand (wanted follow : KindSet) (p : Parser) : Step :=
  match p.kind with
  | .lparen =>
    .go (p.accept .factor)
      [.expression (follow.insert .rparen), .token .rparen .factor follow]
  | .ident | .num => .go (p.accept .factor) []
  | .kwMod => .go (p.accept .factor) [.factor follow]
  | _ => p.mismatch (.oneOf wanted) .factor follow (recover follow)

/-- A step on a goal. -/
def step (p : Parser) : Goal → Step
  | .program => p.stepProgram
  | .body follow =>
    if declarationStart.contains p.kind then
      .go p [.declarations (follow ∪ statementStart), .statements follow]
    else .go p [.statements follow]
  | .declarations follow =>
    .go p [.declaration (follow ∪ declarationStart),
      .moreDeclarations (follow ∪ declarationStart)]
  | .moreDeclarations follow =>
    if declarationStart.contains p.kind then
      (p.stepDeclaration follow).push [.moreDeclarations follow]
    else .go p []
  | .declaration follow => p.stepDeclaration follow
  | .moreNames follow =>
    if p.kind = .comma then
      .go (p.accept .declaration) [.token .ident .declaration follow, .moreNames follow]
    else .go p []
  | .statements follow =>
    if statementStart.contains p.kind then
      (p.stepStatement ((follow ∪ statementStart).insert .semicolon)).push
        [.moreStatements follow]
    else .go p []
  | .moreStatements follow => p.stepMoreStatements follow
  | .statement follow => p.stepStatement follow
  | .otherCase =>
    if p.kind = .kwElse then .go (p.accept .statement) [.body caseClosers]
    else .go p []
  | .expression follow =>
    .go p [.simpleExpression (follow ∪ relationalOps), .comparison follow]
  | .comparison follow =>
    if relationalOps.contains p.kind then
      .go p [.relationalOperator (follow ∪ factorStart), .simpleExpression follow]
    else .go p []
  | .simpleExpression follow =>
    .go p [.term (follow ∪ additiveOps), .moreTerms (follow ∪ additiveOps)]
  | .moreTerms follow =>
    if additiveOps.contains p.kind then
      .go (p.accept .simpleExpression) [.term follow, .moreTerms follow]
    else .go p []
  | .term follow =>
    .go p [.factor (follow ∪ multiplicativeOps), .moreFactors (follow ∪ multiplicativeOps)]
  | .moreFactors follow =>
    if multiplicativeOps.contains p.kind then
      .go (p.accept .term) [.factor follow, .moreFactors follow]
    else .go p []
  | .factor follow =>
    if unaryOps.contains p.kind then
      .go p [.unaryOperator (follow ∪ operandStart), .operand operandStart follow]
    else .go p [.operand factorStart follow]
  | .operand wanted follow => p.stepOperand wanted follow
  | .relationalOperator follow => p.stepOneOf relationalOps .relationalOperator follow
  | .unaryOperator follow => p.stepOneOf unaryOps .unaryOperator follow
  | .token kind rule follow => p.stepToken kind rule follow

/-! ## Steps descend -/

/-- A step goes down from a parser and a weight: it stops the parser, or it
    leaves fewer tokens, or no more of them and a lighter agenda. -/
def Step.Descends (p : Parser) (weight : Nat) : Step → Prop
  | halted _ => True
  | go q goals => q.left < p.left ∨ q.left ≤ p.left ∧ Goal.totalWeight goals < weight

theorem Step.Descends.of_left_lt {p : Parser} {weight : Nat} {r : Step}
    (h : r.Descends p 0) : r.Descends p weight := by
  cases r with
  | halted _ => trivial
  | go q goals => exact h.imp id fun ⟨_, h⟩ => absurd h (Nat.not_lt_zero _)

theorem Step.Descends.push {p : Parser} {r : Step} (h : r.Descends p 0) (more : List Goal) :
    (r.push more).Descends p 0 := by
  cases r with
  | halted _ => trivial
  | go q goals => exact .inl (h.elim id fun ⟨_, h⟩ => absurd h (Nat.not_lt_zero _))

theorem descends_accept {p : Parser} (h : p.kind ≠ .eof) (rule : Rule) (goals : List Goal)
    (weight : Nat) : (Step.go (p.accept rule) goals).Descends p weight :=
  .inl (left_accept_lt h rule)

theorem descends_goals {p : Parser} {weight : Nat} {goals : List Goal}
    (h : Goal.totalWeight goals < weight) : (Step.go p goals).Descends p weight :=
  .inr ⟨Nat.le_refl _, h⟩

theorem descends_mismatch {p : Parser} {weight : Nat} (hw : 0 < weight) (expected : Expected)
    (rule : Rule) (follow : KindSet) {resume : Parser → Parser}
    (hr : ∀ q : Parser, (resume q).left ≤ q.left) :
    (p.mismatch expected rule follow resume).Descends p weight := by
  unfold mismatch
  dsimp only
  split
  · trivial
  · refine .inr ⟨?_, hw⟩
    simpa using hr (p.note expected rule follow)

theorem left_recover_acceptIf_le (stops : KindSet) (kind : Kind) (rule : Rule) (p : Parser) :
    ((p.recover stops).acceptIf kind rule).left ≤ p.left :=
  Nat.le_trans (left_acceptIf_le _ kind rule) (left_recover_le p stops)

theorem kind_ne_eof_of_contains {s : KindSet} {p : Parser} (h : s.contains p.kind = true)
    (hs : s.contains .eof = false) : p.kind ≠ .eof := by
  intro hk
  rw [hk, hs] at h
  cases h

theorem descends_stepToken (p : Parser) (kind : Kind) (rule : Rule) (follow : KindSet) :
    (p.stepToken kind rule follow).Descends p 1 := by
  unfold stepToken
  split
  · exact .inr ⟨left_accept_le p rule, Nat.one_pos⟩
  · exact descends_mismatch Nat.one_pos _ _ _ (left_recover_acceptIf_le _ _ _)

theorem descends_stepOneOf (p : Parser) (kinds : KindSet) (rule : Rule) (follow : KindSet) :
    (p.stepOneOf kinds rule follow).Descends p 1 := by
  unfold stepOneOf
  split
  · exact .inr ⟨left_accept_le p rule, Nat.one_pos⟩
  · exact descends_mismatch Nat.one_pos _ _ _ fun q => left_recover_le q follow

theorem descends_stepProgram (p : Parser) : p.stepProgram.Descends p 10 := by
  unfold stepProgram
  dsimp only
  split
  · exact .inr ⟨left_recover_le p _, by simp [Goal.weight]⟩
  · trivial

/-- A declaration that starts matches a token. -/
theorem descends_stepDeclaration_of_start {p : Parser} {follow : KindSet}
    (h : declarationStart.contains p.kind = true) :
    (p.stepDeclaration follow).Descends p 0 := by
  rw [stepDeclaration, if_pos h]
  exact descends_accept (kind_ne_eof_of_contains h (by decide)) _ _ _

theorem descends_stepDeclaration (p : Parser) (follow : KindSet) :
    (p.stepDeclaration follow).Descends p 1 := by
  by_cases h : declarationStart.contains p.kind = true
  · exact (descends_stepDeclaration_of_start h).of_left_lt
  · rw [stepDeclaration, if_neg h]
    exact descends_mismatch Nat.one_pos _ _ _ (left_recover_acceptIf_le _ _ _)

/-- A statement that starts matches a token. -/
theorem descends_stepStatement_of_start {p : Parser} {follow : KindSet}
    (h : statementStart.contains p.kind = true) : (p.stepStatement follow).Descends p 0 := by
  have he : p.kind ≠ .eof := kind_ne_eof_of_contains h (by decide)
  unfold stepStatement
  split
  · exact descends_accept he _ _ _
  · exact descends_accept he _ _ _
  · exact descends_accept he _ _ _
  · exact descends_accept he _ _ _
  · exact descends_accept he _ _ _
  · next h₁ h₂ h₃ h₄ _ =>
    have hk : ∀ k, statementStart.contains k = true →
        k = .ident ∨ k = .kwIf ∨ k = .kwWhile ∨ k = .kwPrint := by
      intro k
      cases k <;> decide
    rcases hk p.kind h with hk | hk | hk | hk
    · exact absurd hk h₁
    · exact absurd hk h₂
    · exact absurd hk h₃
    · exact absurd hk h₄

theorem descends_stepStatement (p : Parser) (follow : KindSet) :
    (p.stepStatement follow).Descends p 1 := by
  unfold stepStatement
  split
  · next h => exact descends_accept (by simp [h]) _ _ _
  · next h => exact descends_accept (by simp [h]) _ _ _
  · next h => exact descends_accept (by simp [h]) _ _ _
  · next h => exact descends_accept (by simp [h]) _ _ _
  · next h => exact descends_accept (by simp [h]) _ _ _
  · exact descends_mismatch Nat.one_pos _ _ _ fun q => left_recover_le q follow

theorem descends_stepMoreStatements (p : Parser) (follow : KindSet) :
    (p.stepMoreStatements follow).Descends p 3 := by
  unfold stepMoreStatements
  split
  · next h => exact descends_accept (by simp [h]) _ _ _
  split
  · exact descends_goals (by simp [Goal.weight])
  · exact descends_goals (by simp [Goal.weight])

theorem descends_stepOperand (p : Parser) (wanted follow : KindSet) :
    (p.stepOperand wanted follow).Descends p 1 := by
  unfold stepOperand
  split
  · next h => exact descends_accept (by simp [h]) _ _ _
  · next h => exact descends_accept (by simp [h]) _ _ _
  · next h => exact descends_accept (by simp [h]) _ _ _
  · next h => exact descends_accept (by simp [h]) _ _ _
  · exact descends_mismatch Nat.one_pos _ _ _ fun q => left_recover_le q follow

/-- Every step matches a token or replaces its goal by lighter ones. -/
theorem descends_step (p : Parser) (g : Goal) : (p.step g).Descends p g.weight := by
  cases g with
  | program => exact descends_stepProgram p
  | body follow =>
    rw [step]
    split <;> exact descends_goals (by simp [Goal.weight])
  | declarations follow => exact descends_goals (by simp [Goal.weight])
  | moreDeclarations follow =>
    rw [step]
    split
    · next h => exact ((descends_stepDeclaration_of_start h).push _).of_left_lt
    · exact descends_goals (Goal.weight_pos _)
  | declaration follow => exact descends_stepDeclaration p follow
  | moreNames follow =>
    rw [step]
    split
    · next h => exact descends_accept (by simp [h]) _ _ _
    · exact descends_goals (Goal.weight_pos _)
  | statements follow =>
    rw [step]
    split
    · next h => exact ((descends_stepStatement_of_start h).push _).of_left_lt
    · exact descends_goals (Goal.weight_pos _)
  | moreStatements follow => exact descends_stepMoreStatements p follow
  | statement follow => exact descends_stepStatement p follow
  | otherCase =>
    rw [step]
    split
    · next h => exact descends_accept (by simp [h]) _ _ _
    · exact descends_goals (Goal.weight_pos _)
  | expression follow => exact descends_goals (by simp [Goal.weight])
  | comparison follow =>
    rw [step]
    split
    · exact descends_goals (by simp [Goal.weight])
    · exact descends_goals (Goal.weight_pos _)
  | simpleExpression follow => exact descends_goals (by simp [Goal.weight])
  | moreTerms follow =>
    rw [step]
    split
    · next h => exact descends_accept (kind_ne_eof_of_contains h (by decide)) _ _ _
    · exact descends_goals (Goal.weight_pos _)
  | term follow => exact descends_goals (by simp [Goal.weight])
  | moreFactors follow =>
    rw [step]
    split
    · next h => exact descends_accept (kind_ne_eof_of_contains h (by decide)) _ _ _
    · exact descends_goals (Goal.weight_pos _)
  | factor follow =>
    rw [step]
    split <;> exact descends_goals (by simp [Goal.weight])
  | operand wanted follow => exact descends_stepOperand p wanted follow
  | relationalOperator follow => exact descends_stepOneOf p _ _ follow
  | unaryOperator follow => exact descends_stepOneOf p _ _ follow
  | token kind rule follow => exact descends_stepToken p kind rule follow

/-! ## Runs -/

/-- How a run ends. -/
inductive Ending where
  /-- Nothing is left to recognise. -/
  | completed (p : Parser)
  /-- An error stopped the parser. -/
  | halted (p : Parser)

namespace Ending

/-- The parser at the end of its run. -/
def parser : Ending → Parser
  | completed p => p
  | halted p => p

/-- Whether nothing was left to recognise. -/
def isCompleted : Ending → Bool
  | completed _ => true
  | halted _ => false

end Ending

/-- Works through an agenda. -/
def run (p : Parser) : List Goal → Ending
  | [] => .completed p
  | g :: gs =>
    match _h : p.step g with
    | .halted q => .halted q
    | .go q goals => q.run (goals ++ gs)
termination_by gs => (p.left, Goal.totalWeight gs)
decreasing_by
  have h := descends_step p g
  rw [_h] at h
  rcases h with h | ⟨h, hw⟩
  · exact Prod.Lex.left _ _ h
  · rcases Nat.lt_or_eq_of_le h with h | h
    · exact Prod.Lex.left _ _ h
    · rw [h]
      exact Prod.Lex.right _ (by simpa using hw)

end Parser

end TinyLang

import TinyLang.Proofs.Parser.Accounting

/-!
# Termination

A parser is done with every goal, on every list of tokens and whatever it does about errors
(`recognize_terminates`). A goal may be left without a token being matched, so that the
tokens alone do not measure the way that is left: each step lowers a rank
(`Parser.rank_lt_of_step`) in which a token counts more than all the goals that matching it
can leave.

Between two rounds of a loop, and between a phrase and one of the same sort inside it, the
weight of the goals does not go down, so the tokens do (`Parser.index_lt_of_again`). This is
why every round of a loop and every recursion takes a token.
-/

namespace TinyLang

open KindSet

open Relation (ReflTransGen TransGen)

/-! ## Goals that come again -/

namespace Goal

/-- The goals that a parser comes back to until something else is ahead. -/
def IsLoop : Goal → Prop
  | moreDeclarations _ | moreNames _ | statements _ | moreTerms _ | moreFactors _ => True
  | _ => False

/-- The goal `h` is another round of the loop `g`, or a phrase of the same sort inside it,
    with any follow set. Inside a statement others are met as statements of a list. -/
inductive Again : Goal → Goal → Prop
  | moreDeclarations (f f' : KindSet) : Again (moreDeclarations f) (moreDeclarations f')
  | moreNames (f f' : KindSet) : Again (moreNames f) (moreNames f')
  | statements (f f' : KindSet) : Again (statements f) (statements f')
  | moreTerms (f f' : KindSet) : Again (moreTerms f) (moreTerms f')
  | moreFactors (f f' : KindSet) : Again (moreFactors f) (moreFactors f')
  | statement (f f' : KindSet) : Again (statement f) (statements f')
  | body (f f' : KindSet) : Again (body f) (body f')
  | expression (f f' : KindSet) : Again (expression f) (expression f')
  | factor (f f' : KindSet) : Again (factor f) (factor f')

theorem Again.weight_eq {g h : Goal} (hagain : g.Again h) : g.weight = h.weight := by
  cases hagain <;> rfl

theorem totalWeight_statementMove_le (follow : KindSet) (k : Kind) :
    totalWeight (statementMove follow k).goals ≤ 25 := by
  cases k <;> simp [statementMove, Move.goals, weight]

theorem totalWeight_operandMove_le (wanted follow : KindSet) (k : Kind) :
    totalWeight (operandMove wanted follow k).goals ≤ 25 := by
  cases k <;> simp [operandMove, Move.goals, weight]

theorem totalWeight_declarationMove_le (follow : KindSet) (k : Kind) :
    totalWeight (declarationMove follow k).goals ≤ 25 := by
  rw [declarationMove]
  split <;> simp [Move.goals, weight]

theorem totalWeight_push_le (m : Move) (more : List Goal) :
    totalWeight (m.push more).goals ≤ totalWeight m.goals + totalWeight more := by
  cases m <;> simp [Move.push, Move.goals]

/-- What the goals that a move leaves weigh at most, those of a conditional and of what
    comes behind it. -/
theorem totalWeight_move_le (g : Goal) (k : Kind) : totalWeight (g.move k).goals ≤ 28 := by
  have hpush : ∀ (m : Move) (h : Goal), totalWeight m.goals ≤ 25 → h.weight ≤ 3 →
      totalWeight (m.push [h]).goals ≤ 28 := by
    intro m h hm hh
    have := totalWeight_push_le m [h]
    simp only [totalWeight_cons, totalWeight_nil] at this
    omega
  cases g with
  | program => exact (by decide : totalWeight programParts ≤ 28)
  | statement follow => exact (totalWeight_statementMove_le follow k).trans (by decide)
  | operand wanted follow => exact (totalWeight_operandMove_le wanted follow k).trans (by decide)
  | declaration follow => exact (totalWeight_declarationMove_le follow k).trans (by decide)
  | declarations | expression | simpleExpression | term => simp [move, Move.goals, weight]
  | body | moreNames | otherCase | comparison | moreTerms | moreFactors =>
    rw [move]
    split <;> simp [Move.goals, weight]
  | relationalOperator | unaryOperator | token =>
    simp only [move, oneOfMove, tokenMove]
    split <;> simp [Move.goals]
  | factor follow =>
    rw [move]
    split
    · simp [Move.goals, weight]
    · exact (totalWeight_operandMove_le _ follow k).trans (by decide)
  | moreStatements follow =>
    rw [move]
    repeat' split
    all_goals simp [Move.goals, weight]
  | moreDeclarations follow =>
    rw [move]
    split
    · exact hpush _ _ (totalWeight_declarationMove_le follow k) (by simp [weight])
    · simp [Move.goals]
  | statements follow =>
    rw [move]
    split
    · exact hpush _ _ (totalWeight_statementMove_le _ k) (Nat.le_refl 3)
    · simp [Move.goals]

end Goal

namespace Cursor

variable {ts : TokenList} {c : Cursor}

/-- The tokens before the cursor and those that it can still pass are all that there are. -/
theorem StandsIn.index_add_left (h : c.StandsIn ts) : c.index + c.left = ts.length := by
  have hle := h.index_le
  rw [left, h.rest, List.length_drop]
  omega

/-- Passing over tokens takes them one by one. -/
theorem synchronize_eq (stops : KindSet) (c : Cursor) :
    c.synchronize stops =
      if c.kind = .eof ∨ stops.contains c.kind then c else (c.skip 1).synchronize stops := by
  cases c with
  | mk rest index finish =>
  cases rest with
  | nil => exact (if_pos (.inl rfl)).symm
  | cons t rest =>
    have hskipped : isSkipped stops t = true ↔
        ¬ (t.kind = .eof ∨ stops.contains t.kind = true) := by
      simp [isSkipped, Token.isEof]
    show _ = if t.kind = .eof ∨ stops.contains t.kind = true then _ else _
    split
    · next h =>
      have hstop : ¬ isSkipped stops t = true := fun hs => hskipped.1 hs h
      rw [synchronize, List.dropWhile_cons_of_neg hstop, List.takeWhile_cons_of_neg hstop]
      rfl
    · next h =>
      have hpass := hskipped.2 h
      rw [synchronize, List.dropWhile_cons_of_pos hpass, List.takeWhile_cons_of_pos hpass]
      simp [synchronize, skip, Nat.add_assoc, Nat.add_comm]

end Cursor

namespace Parser

variable {p q : Parser} {g : Goal} {goals gs hs : List Goal}

/-- A step is the move on its goal, or the first half of it: then another goal takes the
    place of the goal. -/
theorem step_cases (p : Parser) (g : Goal) :
    p.step g = p.make (g.move p.kind) ∨ ∃ h : Goal, h.weight = 1 ∧ p.step g = .go p [h] := by
  cases g with
  | factor follow =>
    rw [step, Goal.move]
    split
    · exact .inl rfl
    · exact .inr ⟨_, rfl, rfl⟩
  | moreStatements follow =>
    rw [step, stepMoreStatements, Goal.move]
    split
    · exact .inl rfl
    split
    · exact .inr ⟨_, rfl, rfl⟩
    · exact .inl rfl
  | _ => exact .inl (step_eq_make p (by simp) (by simp))

/-! ## The rank -/

/-- What every step lowers. A token weighs more than all that matching it can leave. -/
def rank (p : Parser) (gs : List Goal) : Nat := 29 * p.left + Goal.totalWeight gs

/-- A move leaves the same goals, whatever the parser does about it. -/
theorem goals_eq_of_make {m : Move} (h : p.make m = .go q goals) : goals = m.goals := by
  cases m with
  | expand | shift =>
    cases h
    rfl
  | refuse =>
    rw [make, mismatch] at h
    split at h
    · cases h
    · cases h
      rfl
  | seek =>
    rw [make] at h
    split at h
    · cases h
      rfl
    · cases h

theorem totalWeight_le_of_step (h : p.step g = .go q goals) : Goal.totalWeight goals ≤ 28 := by
  rcases step_cases p g with hmake | ⟨k, hk, hgo⟩
  · rw [hmake] at h
    rw [goals_eq_of_make h]
    exact Goal.totalWeight_move_le g p.kind
  · rw [hgo] at h
    cases h
    simp [hk]

/-- Every step lowers the rank. -/
theorem rank_lt_of_step (h : p.step g = .go q goals) (gs : List Goal) :
    q.rank (goals ++ gs) < p.rank (g :: gs) := by
  have hle := totalWeight_le_of_step h
  have hd := descends_step p g
  rw [h] at hd
  have hpos := g.weight_pos
  rw [rank, rank, Goal.totalWeight_append, Goal.totalWeight_cons]
  rcases hd with hd | ⟨hd, hw⟩ <;> omega

/-! ## Going forward -/

/-- The parser after a step. -/
def Step.parser : Step → Parser
  | halted p => p
  | go p _ => p

/-- The parser `q` stands in the list `ts` where the parser `p` does or further on, with no
    end of the input before it. -/
structure Follows (ts : TokenList) (p q : Parser) : Prop where
  standsIn : q.cursor.StandsIn ts
  index_le : p.cursor.index ≤ q.cursor.index

variable {ts : TokenList}

theorem Follows.trans {r : Parser} (h : Follows ts p q) (h' : Follows ts q r) :
    Follows ts p r :=
  ⟨h'.standsIn, h.index_le.trans h'.index_le⟩

theorem follows_accept (h : p.cursor.StandsIn ts) (rule : Rule) :
    Follows ts p (p.accept rule) := by
  by_cases hk : p.kind = .eof
  · have heq : (p.accept rule).cursor = p.cursor := if_pos (beq_iff_eq.2 hk)
    exact ⟨heq ▸ h, heq ▸ Nat.le_refl _⟩
  · exact ⟨h.advance hk, index_accept hk rule ▸ Nat.le_succ _⟩

theorem follows_recover (h : p.cursor.StandsIn ts) (stops : KindSet) :
    Follows ts p (p.recover stops) :=
  ⟨h.synchronize stops, Nat.le_add_right _ _⟩

theorem follows_note (h : p.cursor.StandsIn ts) (expected : Expected) (rule : Rule)
    (follow : KindSet) : Follows ts p (p.note expected rule follow) := by
  rw [note]
  split <;> exact ⟨h, Nat.le_refl _⟩

theorem follows_resume (h : p.cursor.StandsIn ts) (rule : Rule) (follow : KindSet)
    (missing : Option Kind) : Follows ts p (p.resume rule follow missing) := by
  cases missing with
  | none => exact follows_recover h follow
  | some kind =>
    have hrecover := follows_recover h (follow.insert kind)
    rw [resume, acceptIf]
    split
    · exact hrecover.trans (follows_accept hrecover.standsIn rule)
    · exact hrecover

theorem follows_make (h : p.cursor.StandsIn ts) (m : Move) : Follows ts p (p.make m).parser := by
  cases m with
  | expand goals => exact ⟨h, Nat.le_refl _⟩
  | shift rule goals => exact follows_accept h rule
  | refuse expected rule follow missing =>
    have hnote := follows_note h expected rule follow
    rw [make, mismatch]
    split
    · exact hnote
    · exact hnote.trans (follows_resume hnote.standsIn rule follow missing)
  | seek goals =>
    have hseek : Follows ts p p.seek := ⟨h.synchronize _, Nat.le_add_right _ _⟩
    rw [make]
    split
    · exact hseek
    · exact hseek.trans (follows_note hseek.standsIn _ _ _)

/-- A step does not go back, and does not pass an end of the input. -/
theorem follows_step (h : p.cursor.StandsIn ts) (g : Goal) : Follows ts p (p.step g).parser := by
  rcases step_cases p g with hmake | ⟨_, -, hgo⟩
  · rw [hmake]
    exact follows_make h _
  · rw [hgo]
    exact ⟨h, Nat.le_refl _⟩

/-! ## The steps of a run -/

/-- The parser `p` works through the agenda `gs` in `n` steps, to the ending `e`. -/
inductive Works : Nat → Parser → List Goal → Ending → Prop
  /-- Nothing is left. -/
  | done (p : Parser) : Works 0 p [] (.completed p)
  /-- The step on the first goal stops the parser. -/
  | stop {p q : Parser} {g : Goal} {gs : List Goal} : p.step g = .halted q →
      Works 1 p (g :: gs) (.halted q)
  /-- The step on the first goal leaves others in its place. -/
  | go {n : Nat} {p q : Parser} {g : Goal} {goals gs : List Goal} {e : Ending} :
      p.step g = .go q goals → Works n q (goals ++ gs) e → Works (n + 1) p (g :: gs) e

/-- Every agenda is worked through, in no more steps than its rank. -/
theorem exists_works (p : Parser) (gs : List Goal) :
    ∃ n ≤ p.rank gs, Works n p gs (p.run gs) := by
  -- the induction is on the rank, that of the agenda that a step leaves being lower
  induction hr : p.rank gs using Nat.strong_induction_on generalizing p gs with
  | h r ih =>
    cases gs with
    | nil => exact ⟨0, Nat.zero_le _, run_nil p ▸ .done p⟩
    | cons g gs =>
      rw [run_cons_step]
      cases hstep : p.step g with
      | halted q =>
        have hpos := g.weight_pos
        refine ⟨1, ?_, .stop hstep⟩
        rw [← hr, rank, Goal.totalWeight_cons]
        omega
      | go q goals =>
        have hlt : q.rank (goals ++ gs) < r := hr ▸ rank_lt_of_step hstep gs
        obtain ⟨n, hn, hworks⟩ := ih _ hlt q (goals ++ gs) rfl
        exact ⟨n + 1, by omega, .go hstep hworks⟩

theorem Works.follows {n : Nat} {e : Ending} (hworks : Works n p gs e)
    (h : p.cursor.StandsIn ts) : Follows ts p e.parser := by
  induction hworks with
  | done p => exact ⟨h, Nat.le_refl _⟩
  | @stop p q g gs hstep =>
    have := follows_step h g
    rwa [hstep] at this
  | @go n p q g goals gs e hstep _ ih =>
    have := follows_step h g
    rw [hstep] at this
    exact this.trans (ih this.standsIn)

/-- One step leads from a parser with its agenda to the next. -/
inductive Steps : Parser × List Goal → Parser × List Goal → Prop
  | go {p q : Parser} {g : Goal} {goals gs : List Goal} : p.step g = .go q goals →
      Steps (p, g :: gs) (q, goals ++ gs)

section Steps

variable {a b : Parser × List Goal}

theorem follows_of_steps (hsteps : ReflTransGen Steps a b) (h : a.1.cursor.StandsIn ts) :
    Follows ts a.1 b.1 := by
  induction hsteps with
  | refl => exact ⟨h, Nat.le_refl _⟩
  | tail _ hstep ih =>
    cases hstep with
    | @go p q g goals gs hgo =>
      have := follows_step ih.standsIn g
      rw [hgo] at this
      exact ih.trans this

theorem rank_lt_of_steps (hsteps : TransGen Steps a b) : b.1.rank b.2 < a.1.rank a.2 := by
  have hstep : ∀ {a b}, Steps a b → b.1.rank b.2 < a.1.rank a.2 := fun h =>
    match h with
    | .go hgo => rank_lt_of_step hgo _
  induction hsteps with
  | single h => exact hstep h
  | tail _ h ih => exact (hstep h).trans ih

/-- Until a goal comes again a token is taken. -/
theorem index_lt_of_again {h : Goal} (hsteps : TransGen Steps (p, [g]) (q, h :: hs))
    (hagain : g.Again h) (hp : p.cursor.StandsIn ts) : p.cursor.index < q.cursor.index := by
  -- the goal that comes again is as heavy as before, so the rank is lower by the tokens
  have hfollows : Follows ts p q := follows_of_steps hsteps.to_reflTransGen hp
  have hlt : q.rank (h :: hs) < p.rank [g] := rank_lt_of_steps hsteps
  have hweight := hagain.weight_eq
  have hadd := hp.index_add_left
  have hadd' := hfollows.standsIn.index_add_left
  have hle := hfollows.index_le
  rw [rank, rank, left, left, Goal.totalWeight_cons, Goal.totalWeight_cons,
    Goal.totalWeight_nil] at hlt
  omega

end Steps

/-! ## Rounds of loops -/

/-- A round of a loop starts with a token. -/
theorem step_of_isLoop (p : Parser) (hg : g.IsLoop) :
    p.step g = .go p [] ∨
      p.kind ≠ .eof ∧ ∃ rule goals, p.step g = .go (p.accept rule) goals := by
  cases g with
  | moreDeclarations follow =>
    rw [step]
    split
    · next h =>
      rw [stepDeclaration, if_pos h]
      exact .inr ⟨kind_ne_eof_of_contains h (by decide), _, _, rfl⟩
    · exact .inl rfl
  | statements follow =>
    rw [step]
    split
    · next h =>
      have hmove : ∀ f, ∃ goals, Goal.statementMove f p.kind = .shift .statement goals :=
        fun _ => Goal.statementMove_of_start h
      obtain ⟨goals, hmove⟩ := hmove ((follow ∪ statementStart).insert .semicolon)
      rw [← make_statementMove, hmove]
      exact .inr ⟨kind_ne_eof_of_contains h (by decide), _, _, rfl⟩
    · exact .inl rfl
  | moreNames follow =>
    rw [step]
    split
    · next h => exact .inr ⟨by simp [h], _, _, rfl⟩
    · exact .inl rfl
  | moreTerms follow | moreFactors follow =>
    rw [step]
    split
    · next h => exact .inr ⟨kind_ne_eof_of_contains h (by decide), _, _, rfl⟩
    · exact .inl rfl
  | _ => exact hg.elim

/-- The parser behind the token that it stands at, without a match. -/
def pass (p : Parser) : Parser := { p with cursor := p.cursor.skip 1 }

/-- A round of passing over tokens takes one. -/
theorem recover_eq (p : Parser) (stops : KindSet) :
    p.recover stops =
      if p.kind = .eof ∨ stops.contains p.kind then p else p.pass.recover stops := by
  have h := Cursor.synchronize_eq stops p.cursor
  change _ = if p.kind = .eof ∨ stops.contains p.kind = true then _ else _ at h
  rw [recover, h]
  split <;> rfl

/-- A round of looking for the program takes one token, which is counted. -/
theorem seek_eq_seek_pass (hk : p.kind ≠ .eof) (hprogram : p.kind ≠ .kwProgram) :
    p.seek = { p.pass with skipped := p.skipped + 1 }.seek := by
  have hstop : ¬ (p.kind = .eof ∨ (single .kwProgram).contains p.kind = true) := by
    simpa [hk] using hprogram.symm
  have hrecover := p.recover_eq (single .kwProgram)
  rw [if_neg hstop] at hrecover
  have hle : p.cursor.index + 1 ≤ (p.recover (single .kwProgram)).cursor.index := by
    rw [hrecover]
    exact Nat.le_add_right _ _
  have hskipped : p.skipped + p.cursor.distance (p.recover (single .kwProgram)).cursor =
      p.skipped + 1 + p.pass.cursor.distance (p.recover (single .kwProgram)).cursor := by
    show p.skipped + (_ - p.cursor.index) = p.skipped + 1 + (_ - (p.cursor.index + 1))
    omega
  rw [seek, hskipped, hrecover]
  rfl

theorem step_program_eq (hk : p.kind ≠ .eof) (hprogram : p.kind ≠ .kwProgram) :
    p.step .program = { p.pass with skipped := p.skipped + 1 }.step .program := by
  have hmake : ∀ p : Parser, p.step .program =
      if p.seek.kind = .kwProgram then .go p.seek Goal.programParts
      else .halted (p.seek.note (.token .kwProgram) .program ∅) := fun _ => rfl
  rw [hmake, hmake, seek_eq_seek_pass hk hprogram]

/-- How a parser that stands in the list `ts` deals with the goal `g`. -/
structure Proceeds (ts : TokenList) (p : Parser) (g : Goal) : Prop where
  /-- It is done after no more than 29 steps a token. -/
  works : ∃ n ≤ 29 * p.left + g.weight, Works n p [g] (p.run [g])
  /-- On the way it goes forward only, and passes no end of the input. -/
  follows : ∀ q hs, ReflTransGen Steps (p, [g]) (q, hs) → Follows ts p q
  follows_run : Follows ts p (p.run [g]).parser
  /-- Until a loop or a phrase comes again a token is taken. -/
  again : ∀ q h hs, TransGen Steps (p, [g]) (q, h :: hs) → g.Again h →
    p.cursor.index < q.cursor.index
  /-- A loop ends where the parser stands, or its round starts with a token. -/
  round : g.IsLoop → p.step g = .go p [] ∨
    p.kind ≠ .eof ∧ ∃ rule goals, p.step g = .go (p.accept rule) goals
  /-- Tokens are passed over one by one. -/
  passes : ∀ stops, p.recover stops =
    if p.kind = .eof ∨ stops.contains p.kind then p else p.pass.recover stops
  /-- So are those before the program. -/
  seeks : p.kind ≠ .eof → p.kind ≠ .kwProgram →
    p.step .program = { p.pass with skipped := p.skipped + 1 }.step .program

end Parser

/-- A parser that stands anywhere in a list of tokens is done with any goal. -/
theorem recognize_terminates {ts : TokenList} {p : Parser} (h : p.cursor.StandsIn ts) (g : Goal) :
    p.Proceeds ts g := by
  obtain ⟨n, hn, hworks⟩ := p.exists_works [g]
  exact ⟨⟨n, hn, hworks⟩, fun q hs hsteps => Parser.follows_of_steps hsteps h, hworks.follows h,
    fun q k hs hsteps hagain => Parser.index_lt_of_again hsteps hagain h, p.step_of_isLoop,
    p.recover_eq, Parser.step_program_eq⟩

/-- The tokens of an operand that lacks the number behind two `mod`. -/
def TokenList.modWithoutOperand : TokenList :=
  [.bare .kwMod ⟨1, 1⟩, .bare .kwMod ⟨1, 5⟩, .bare .rparen ⟨1, 9⟩]

/-- Inside the factor that starts with the first `mod` there is another one, a token further
    on. -/
theorem proceeds_modWithoutOperand :
    ∃ p q : Parser, p = .ofList ⟨.panic, 0, false⟩ .modWithoutOperand ∧
      TransGen Parser.Steps (p, [.factor ∅]) (q, [.factor ∅]) ∧
      p.cursor.index < q.cursor.index ∧ p.Proceeds .modWithoutOperand (.factor ∅) := by
  let p : Parser := .ofList ⟨.panic, 0, false⟩ .modWithoutOperand
  have h : p.Proceeds .modWithoutOperand (.factor ∅) :=
    recognize_terminates (Cursor.standsIn_ofList _) _
  have hoperand : p.step (.factor ∅) = .go p [.operand factorStart ∅] := if_neg (by decide)
  have hfactor : p.step (.operand factorStart ∅) = .go (p.accept .factor) [.factor ∅] := rfl
  have hsteps : TransGen Parser.Steps (p, [.factor ∅]) (p.accept .factor, [.factor ∅]) :=
    .head (.go hoperand) (.single (.go hfactor))
  exact ⟨p, p.accept .factor, rfl, hsteps, h.again _ _ _ hsteps (.factor ∅ ∅), h⟩

end TinyLang

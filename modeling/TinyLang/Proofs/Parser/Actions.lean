import TinyLang.Proofs.Parser.Recognition
import TinyLang.Proofs.Parser.Recovery

/-!
# Actions

Whatever a parser makes of a list of tokens is made of three actions (`Parser.Acts`): it
matches a token, notes an error, or passes over tokens. An error is about a token that is
not wanted (`Goal.unwanted_of_refuse`), and tokens are passed over only behind an error that
was noted there. The end of the input is never matched, since no goal asks for it and none
is looked for behind an error (`Goal.missing_ne_eof`).

A run is actions one after the other (`Parser.run_acts`), and so is parsing from the start
of the program on (`Parser.recognize_acts`). So what every action keeps is an invariant of
parsing (`Parser.Acts.invariant`).
-/

namespace TinyLang

open KindSet

namespace Goal

variable {l : Language Kind} {g : Goal} {k : Kind} {expected : Expected} {rule : Rule}
  {follow : KindSet} {missing : Option Kind}

/-! ## What is refused -/

/-- A goal for one token refuses every other kind and looks for its own behind the error.
    Any other goal refuses what is none of the kinds that it wants, and looks for nothing
    but a semicolon. -/
theorem refuse_cases (hfit : g.Fits l) (h : g.move k = .refuse expected rule follow missing) :
    (∃ kind, g = .token kind rule follow ∧ k ≠ kind ∧ expected = .token kind ∧
      missing = some kind) ∨
    ∃ kinds, expected = .oneOf kinds ∧ kinds.contains k = false ∧
      ∀ kind, missing = some kind → kind = .semicolon := by
  cases g with
  | token kind rule follow =>
    rw [move, tokenMove] at h
    split at h
    · cases h
    · next hk =>
      cases h
      exact .inl ⟨kind, rfl, hk, rfl, rfl⟩
  | declaration follow =>
    rw [move, declarationMove] at h
    split at h
    · cases h
    · next hk =>
      cases h
      exact .inr ⟨_, rfl, Bool.eq_false_iff.2 hk, fun _ hkind => (Option.some.inj hkind).symm⟩
  | relationalOperator | unaryOperator =>
    rw [move, oneOfMove] at h
    split at h
    · cases h
    · next hk =>
      cases h
      exact .inr ⟨_, rfl, Bool.eq_false_iff.2 hk, by simp⟩
  | statement follow =>
    cases k <;> cases h <;> exact .inr ⟨_, rfl, by decide, by simp⟩
  | operand wanted follow =>
    obtain rfl : wanted = operandStart := hfit
    cases k <;> cases h <;> exact .inr ⟨_, rfl, by decide, by simp⟩
  | factor follow =>
    rw [move] at h
    split at h
    · cases h
    · next hk =>
      -- an operand is refused where an operator before it could have come as well
      cases k <;> cases h
      case minus | kwNot => exact absurd rfl hk
      all_goals exact .inr ⟨_, rfl, by decide, by simp⟩
  | statements follow =>
    rw [move] at h
    split at h
    · next hk =>
      obtain ⟨_, hs⟩ := statementMove_of_start hk
      rw [hs] at h
      cases h
    · cases h
  | moreDeclarations follow =>
    rw [move] at h
    split at h
    · next hk =>
      obtain ⟨_, hs⟩ := declarationMove_of_start hk
      rw [hs] at h
      cases h
    · cases h
  | body | moreNames | otherCase | comparison | moreTerms | moreFactors =>
    rw [move] at h
    split at h <;> cases h
  | program | declarations | expression | simpleExpression | term => cases h
  | moreStatements follow =>
    rw [move] at h
    repeat' split at h
    all_goals cases h

/-- A kind that is refused is not one that is wanted. -/
theorem unwanted_of_refuse (hfit : g.Fits l)
    (h : g.move k = .refuse expected rule follow missing) : expected.contains k = false := by
  rcases refuse_cases hfit h with ⟨kind, -, hk, rfl, -⟩ | ⟨kinds, rfl, hk, -⟩
  · exact beq_eq_false_iff_ne.2 (Ne.symm hk)
  · exact hk

/-- The end of the input is not looked for behind an error. -/
theorem missing_ne_eof (hfit : g.Fits l) {kind : Kind}
    (h : g.move k = .refuse expected rule follow (some kind)) : kind ≠ .eof := by
  rcases refuse_cases hfit h with ⟨_, rfl, -, -, hmissing⟩ | ⟨_, -, -, hmissing⟩
  · cases hmissing
    exact hfit
  · rw [hmissing kind rfl]
    decide

end Goal

namespace Parser

/-- The parser `q` is the parser `p` after it did one thing. -/
inductive Acts : Parser → Parser → Prop
  /-- It matched a token. -/
  | accept {p : Parser} (rule : Rule) : p.kind ≠ .eof → Acts p (p.accept rule)
  /-- It noted an error, with the token where it stands not being wanted. -/
  | note {p : Parser} (expected : Expected) (rule : Rule) (follow : KindSet) :
      expected.contains p.kind = false → Acts p (p.note expected rule follow)
  /-- It passed over tokens, behind an error at the first of them. -/
  | recover {p : Parser} (stops : KindSet) : p.options.recovery = .panic →
      p.lastErrorAt = some p.cursor.index → Acts p (p.recover stops)

open Relation (ReflTransGen)

variable {p q : Parser}

/-- What every action keeps holds after any number of them. -/
theorem Acts.invariant {I : Parser → Prop} (step : ∀ p q, Acts p q → I p → I q)
    (h : ReflTransGen Acts p q) (hp : I p) : I q := by
  induction h with
  | refl => exact hp
  | tail _ hact ih => exact step _ _ hact ih

/-! ## Runs -/

/-- After a note the last error is at the token that the parser stands at. -/
theorem lastErrorAt_note (p : Parser) (expected : Expected) (rule : Rule) (follow : KindSet) :
    (p.note expected rule follow).lastErrorAt = some p.cursor.index := by
  rw [note]
  split
  · assumption
  · rfl

theorem recovery_eq_panic (h : ¬ p.mustStop = true) : p.options.recovery = .panic := by
  rw [mustStop] at h
  split at h
  · exact absurd rfl h
  · assumption

/-- A parser that noted an error and does not stop resumes by actions. -/
theorem resume_acts {expected : Expected} (hunwanted : expected.contains p.kind = false)
    (rule : Rule) (follow : KindSet) {missing : Option Kind}
    (hmissing : ∀ kind, missing = some kind → kind ≠ .eof)
    (hgo : ¬ (p.note expected rule follow).mustStop = true) :
    ReflTransGen Acts p ((p.note expected rule follow).resume rule follow missing) := by
  have hnote : Acts p (p.note expected rule follow) := .note expected rule follow hunwanted
  have hrecover : ∀ stops, ReflTransGen Acts p ((p.note expected rule follow).recover stops) := by
    intro stops
    refine .tail (.single hnote) (.recover stops (recovery_eq_panic hgo) ?_)
    rw [lastErrorAt_note, cursor_note]
  cases missing with
  | none => exact hrecover follow
  | some kind =>
    rw [resume, acceptIf]
    split
    · next hkind =>
      refine .tail (hrecover _) (.accept rule ?_)
      rw [hkind]
      exact hmissing kind rfl
    · exact hrecover _

/-- A run is actions, if every goal fits what is behind it. -/
theorem run_acts {l : Language Kind} (p : Parser) (gs : List Goal) (hfit : Goal.AllFit l gs) :
    ReflTransGen Acts p (p.run gs).parser := by
  -- goals that fit are needed only to tell that the end of the input is not matched
  induction p, gs using run_induction with
  | done p =>
    rw [run_nil]
    exact .refl
  | expand p g gs goals hmove ih =>
    have hs := Goal.suits_move hfit.1 p.kind
    rw [hmove] at hs
    rw [run_expand gs hmove]
    exact ih (Goal.allFit_append.2 ⟨hs.fits, hfit.2⟩)
  | shift p g gs rule goals hmove ih =>
    have hs := Goal.suits_move hfit.1 p.kind
    rw [hmove] at hs
    rw [run_shift gs hmove]
    exact .head (.accept rule (hs.shifts _ _ rfl))
      (ih (Goal.allFit_append.2 ⟨hs.fits, hfit.2⟩))
  | refuse p g gs expected rule follow missing hmove ih =>
    have hunwanted := Goal.unwanted_of_refuse hfit.1 hmove
    rw [run_refuse gs hmove]
    split
    · exact .single (.note expected rule follow hunwanted)
    · next hgo =>
      refine (resume_acts hunwanted rule follow ?_ hgo).trans (ih hfit.2)
      rintro kind rfl
      exact Goal.missing_ne_eof hfit.1 hmove
  | seek p g gs goals hmove _ =>
    obtain ⟨rfl, _⟩ := Goal.move_eq_seek hmove
    exact hfit.1.elim

/-- Parsing is actions from the start of the program on. -/
theorem recognize_acts (options : Options) (ts : TokenList) :
    ReflTransGen Acts (ofList options ts).seek (recognize options .program ts).parser := by
  rw [recognize_program]
  split
  · exact run_acts _ _ (allFit_programParts 1)
  · next hk => exact .single (.note _ _ _ (beq_eq_false_iff_ne.2 (Ne.symm hk)))

/-- Every error is by a rule of the grammar. -/
theorem exists_rule_of_mem_errors (options : Options) (ts : TokenList) :
    ∀ e ∈ (parseWith options ts).errors, ∃ rule : Rule, e.rule = rule.name := by
  refine Acts.invariant (I := fun p => ∀ e ∈ p.errors.toList, ∃ rule : Rule, e.rule = rule.name)
    ?_ (recognize_acts options ts) (List.forall_mem_nil _)
  intro p q hact hp
  cases hact with
  | note expected rule follow _ =>
    rw [note]
    split
    · exact hp
    · rw [Array.toList_push]
      exact List.forall_mem_append.2 ⟨hp, List.forall_mem_singleton.2 ⟨rule, rfl⟩⟩
  | accept | recover => exact hp

/-- Every match is by a rule of the grammar. -/
theorem exists_rule_of_mem_trace (options : Options) (ts : TokenList) :
    ∀ m ∈ (parseWith options ts).trace, ∃ rule : Rule, m.rule = rule.name := by
  refine Acts.invariant (I := fun p => ∀ m ∈ p.trace.toList, ∃ rule : Rule, m.rule = rule.name)
    ?_ (recognize_acts options ts) (List.forall_mem_nil _)
  intro p q hact hp
  cases hact with
  | accept rule _ =>
    rw [accept]
    dsimp only
    split
    · rw [Array.toList_push]
      exact List.forall_mem_append.2 ⟨hp, List.forall_mem_singleton.2 ⟨rule, rfl⟩⟩
    · exact hp
  | note expected rule follow _ =>
    rw [note]
    split <;> exact hp
  | recover => exact hp

end Parser

end TinyLang

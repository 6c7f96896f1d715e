import TinyLang.Proofs.Parser.Language

/-!
# Prediction

One token ahead is enough to tell what to do about a goal that fits what is
behind it (`Goal.suits_move`):

* the words of the goal that begin with that token are words of what the move
  leaves, so nothing is lost by the choice;
* the words of what the move leaves are words of the goal, so the choice never
  leads astray;
* where the token is refused, no word of the goal begins with it, and every kind
  that is said to be wanted begins one.
-/

namespace TinyLang

open KindSet

namespace Move

/-- The words of what a move matches, with the token `k` ahead, and leaves. -/
def language (k : Kind) : Move → Language Kind
  | expand goals => Goal.languages goals
  | shift _ goals => {[k]} * Goal.languages goals
  | refuse .. | seek _ => 0

/-- A move suits a goal that has the token `k` ahead and words of `l` behind. -/
structure Suits (k : Kind) (g : Goal) (l : Language Kind) (m : Move) : Prop where
  fits : Goal.AllFit l m.goals
  sound : m.language k ≤ g.language
  complete : ∀ w ∈ g.language * l, w.headD .eof = k → w ∈ m.language k * l
  shifts : ∀ rule goals, m = shift rule goals → k ≠ .eof
  wanted : ∀ expected rule follow missing, m = refuse expected rule follow missing →
    ∀ j, expected.contains j = true → ∃ u, j :: u ∈ g.language

variable {k : Kind} {g : Goal} {l : Language Kind}

/-! ## The three kinds of moves -/

theorem suits_expand {goals : List Goal} (hfit : Goal.AllFit l goals)
    (hsound : Goal.languages goals ≤ g.language)
    (hcomplete : ∀ w ∈ g.language * l, w.headD .eof = k → w ∈ Goal.languages goals * l) :
    (expand goals).Suits k g l :=
  ⟨hfit, hsound, hcomplete, fun _ _ h => Move.noConfusion h, fun _ _ _ _ h => Move.noConfusion h⟩

theorem suits_shift {rule : Rule} {goals : List Goal} (hk : k ≠ .eof)
    (hfit : Goal.AllFit l goals) (hsound : {[k]} * Goal.languages goals ≤ g.language)
    (hcomplete : ∀ w ∈ g.language * l, w.headD .eof = k →
      w ∈ {[k]} * (Goal.languages goals * l)) :
    (shift rule goals).Suits k g l :=
  ⟨hfit, hsound, fun w hw hwk => mul_assoc _ _ l ▸ hcomplete w hw hwk, fun _ _ _ => hk,
    fun _ _ _ _ h => Move.noConfusion h⟩

theorem suits_refuse {expected : Expected} {rule : Rule} {follow : KindSet}
    {missing : Option Kind} (hwanted : ∀ j, expected.contains j = true → ∃ u, j :: u ∈ g.language)
    (hcomplete : ∀ w ∈ g.language * l, w.headD .eof ≠ k) :
    (refuse expected rule follow missing).Suits k g l := by
  refine ⟨trivial, fun w hw => absurd hw (Language.notMem_zero w),
    fun w hw hwk => absurd hwk (hcomplete w hw), fun _ _ h => Move.noConfusion h, ?_⟩
  rintro _ _ _ _ ⟨⟩
  exact hwanted

/-! ## Goals that may be left out -/

section Option

variable {m : Language Kind} {q : Kind → Prop} {goals : List Goal}

/-- Words of a goal that may be left out belong to the goal if what is behind it
    does not begin as they do. -/
theorem mem_mul_of_option (hg : g.language = 1 + m) (hl : Begins q l) {w : List Kind}
    (hw : w ∈ g.language * l) (hk : ¬ q (w.headD .eof)) : w ∈ m * l := by
  rw [hg, add_mul, one_mul] at hw
  exact hw.resolve_left (hl.notMem hk)

/-- One of two alternatives is taken if the other does not begin with the token. -/
theorem suits_choose (hg : g.language = m + Goal.languages goals) (hm : Begins q (m * l))
    (hk : ¬ q k) (hfit : Goal.AllFit l goals) : (expand goals).Suits k g l := by
  refine suits_expand hfit ?_ ?_
  · rw [hg]
    exact le_sup_right
  · rintro w hw rfl
    rw [hg, add_mul] at hw
    exact hw.resolve_left (hm.notMem hk)

/-- The goal is left out. -/
theorem suits_skip (hg : g.language = 1 + m) (hm : Begins q (m * l)) (hk : ¬ q k) :
    (expand []).Suits k g l :=
  suits_choose (hg.trans (add_comm 1 m)) hm hk trivial

/-- The goal is taken, with the token that it begins with. -/
theorem suits_take {s : KindSet} {rule : Rule}
    (hg : g.language = 1 + s.language * Goal.languages goals) (hl : Begins q l) (hq : ¬ q k)
    (hks : k ∈ s) (hk : k ≠ .eof) (hfit : Goal.AllFit l goals) :
    (shift rule goals).Suits k g l := by
  refine suits_shift hk hfit ?_ ?_
  · rw [hg]
    exact le_trans (mul_le_mul' (kind_le_kinds hks) le_rfl) le_sup_right
  · intro w hw hwk
    have hw' := mem_mul_of_option hg hl hw (hwk ▸ hq)
    rw [mul_assoc] at hw'
    exact mem_kind_mul_of_kinds hw' hwk

end Option

/-- A token is matched that tells how the goal goes on. -/
theorem suits_shift_of_cons {rule : Rule} {goals : List Goal} (hk : k ≠ .eof)
    (hfit : Goal.AllFit l goals) (hnil : [] ∉ g.language)
    (hcons : ∀ u, k :: u ∈ g.language ↔ u ∈ Goal.languages goals) :
    (shift rule goals).Suits k g l := by
  refine suits_shift hk hfit ?_ ?_
  · intro w hw
    obtain ⟨u, hu, rfl⟩ := mem_kind_mul.1 hw
    exact (hcons u).2 hu
  · intro w hw hwk
    obtain ⟨u, hu, v, hv, rfl⟩ := Language.mem_mul.1 hw
    cases u with
    | nil => exact absurd hu hnil
    | cons j u =>
      obtain rfl : j = k := hwk
      exact mem_kind_mul.2 ⟨_, Language.append_mem_mul ((hcons u).1 hu) hv, rfl⟩

/-- A move that matches a token suits what is put together from its goal and
    others, if it suits the goal. -/
theorem Suits.push {m : Move} {h : Goal} {more : List Goal} (hm : ∃ rule goals, m = shift rule goals)
    (hs : m.Suits k g (Goal.languages more * l)) (hfit : Goal.AllFit l more)
    (hsound : g.language * Goal.languages more ≤ h.language)
    (hcomplete : ∀ w ∈ h.language * l, w.headD .eof = k →
      w ∈ g.language * (Goal.languages more * l)) : (m.push more).Suits k h l := by
  obtain ⟨rule, goals, rfl⟩ := hm
  refine suits_shift (hs.shifts _ _ rfl) (Goal.allFit_append.2 ⟨hs.fits, hfit⟩) ?_ ?_
  · rw [Goal.languages_append, ← mul_assoc]
    exact le_trans (mul_le_mul' hs.sound le_rfl) hsound
  · intro w hw hwk
    have := hs.complete w (hcomplete w hw hwk) hwk
    rwa [language, mul_assoc, ← mul_assoc (Goal.languages goals), ← Goal.languages_append] at this

end Move

namespace Goal

open Move

variable {k : Kind} {l : Language Kind}

/-! ## Tokens -/

theorem suits_tokenMove {kind : Kind} (hkind : kind ≠ .eof) (rule : Rule) (follow : KindSet) :
    (tokenMove kind rule follow k).Suits k (.token kind rule follow) l := by
  rw [tokenMove]
  split
  · next h =>
    subst h
    refine suits_shift hkind trivial ?_ fun w hw _ => ?_
    · rw [languages_nil, mul_one]
      exact le_rfl
    · rwa [languages_nil, one_mul]
  · next h =>
    refine suits_refuse ?_ ?_
    · intro j hj
      obtain rfl : kind = j := by simpa [Expected.contains] using hj
      exact ⟨[], rfl⟩
    · rintro w hw rfl
      exact h (Begins.kind_mul (q := (· = kind)) rfl l w hw)

/-- The move on a token of several kinds suits a goal whose words are those kinds. -/
theorem suits_oneOfMove {kinds : KindSet} {g : Goal} (hg : g.language = kinds.language)
    (heof : .eof ∉ kinds) (rule : Rule) (follow : KindSet) :
    (oneOfMove kinds rule follow k).Suits k g l := by
  rw [oneOfMove]
  split
  · next h =>
    refine suits_shift (ne_of_mem_of_not_mem h heof) trivial ?_ ?_
    · rw [languages_nil, mul_one, hg]
      exact kind_le_kinds h
    · intro w hw hwk
      rw [hg] at hw
      rw [languages_nil, one_mul]
      exact mem_kind_mul_of_kinds hw hwk
  · next h =>
    refine suits_refuse ?_ ?_
    · intro j hj
      rw [hg]
      exact ⟨[], j, hj, rfl⟩
    · rintro w hw rfl
      rw [hg] at hw
      exact h (Begins.kinds_mul (q := (· ∈ kinds)) (fun _ h => h) l w hw)

/-! ## Declarations -/

theorem suits_declarationMove (follow : KindSet) :
    (declarationMove follow k).Suits k (.declaration follow) l := by
  rw [declarationMove]
  split
  · next h =>
    have hk : k ∈ declarationStart := h
    refine suits_shift (ne_of_mem_of_not_mem hk (by decide)) ?_ ?_ ?_
    · simp only [AllFit, Fits, languages_cons, languages_nil, language, mul_one]
      exact ⟨by decide, .kind_mul (by decide) _, by decide, trivial⟩
    · simp only [language, Phrase.language_declaration, languages_cons, languages_nil, mul_one]
      exact mul_le_mul' (kind_le_kinds hk) le_rfl
    · intro w hw hwk
      simp only [language, Phrase.language_declaration, mul_assoc] at hw
      simpa [language, mul_assoc] using mem_kind_mul_of_kinds hw hwk
  · next h =>
    refine suits_refuse ?_ ?_
    · exact fun j hj => Phrase.exists_declaration hj
    · rintro w hw rfl
      exact h (Begins.phrase_mul (p := .declaration) rfl (fun _ h => h) l w hw)

theorem suits_moreDeclarations {follow : KindSet} (hfit : (moreDeclarations follow).Fits l) :
    ((moreDeclarations follow).move k).Suits k (.moreDeclarations follow) l := by
  have hg : (moreDeclarations follow).language = 1 + _ := Phrase.language_declarations
  have hl : Begins (· ∉ declarationStart) l := hfit
  rw [move]
  split
  · next h =>
    refine Suits.push ⟨_, declarationMove_of_start h⟩ (suits_declarationMove follow)
      ⟨by simpa using hfit, trivial⟩ ?_ ?_
    · rw [hg, languages_singleton]
      exact le_sup_right
    · rintro w hw rfl
      have := mem_mul_of_option hg hl hw (not_not.2 h)
      rwa [languages_singleton, ← mul_assoc]
  · next h =>
    refine suits_skip hg (q := (· ∈ declarationStart)) ?_ h
    rw [mul_assoc]
    exact .phrase_mul (p := .declaration) rfl (fun _ h => h) _

theorem suits_moreNames {follow : KindSet} (hfit : (moreNames follow).Fits l) :
    ((moreNames follow).move k).Suits k (.moreNames follow) l := by
  have hg : (moreNames follow).language =
      1 + {[.comma]} * languages [.token .ident .declaration follow, .moreNames follow] := by
    simp only [language, languages_cons, languages_nil, mul_one, ← mul_assoc]
    exact (Language.one_add_self_mul_kstar_eq_kstar _).symm
  rw [move]
  split
  · next h =>
    subst h
    rw [← language_single] at hg
    refine suits_take hg (q := (· ≠ .comma)) hfit (not_not.2 rfl) (by decide) (by decide) ?_
    simp only [AllFit, languages_nil, one_mul]
    exact ⟨(by decide : Kind.ident ≠ .eof), hfit, trivial⟩
  · next h =>
    refine suits_skip hg (q := (· = .comma)) ?_ h
    rw [mul_assoc]
    exact .kind_mul (by rfl) _

/-! ## Statements -/

theorem suits_statementMove {follow : KindSet} (hk : k ∈ statementStart)
    (hl : Begins (· ∉ binaryOps) l) : (statementMove follow k).Suits k (.statement follow) l := by
  have hcases : ∀ k ∈ statementStart, k = .ident ∨ k = .kwIf ∨ k = .kwWhile ∨ k = .kwPrint := by
    decide
  have hnil : [] ∉ (statement follow).language := fun h => by
    obtain ⟨_, _, h, _⟩ := Phrase.exists_cons_of_derives h rfl
    cases h
  -- the first kind tells which statement it is; each part of it ends at the next one,
  -- and only the last is followed by what is behind the statement
  rcases hcases k hk with rfl | rfl | rfl | rfl
  · refine suits_shift_of_cons (by decide) ?_ hnil fun u => ?_
    · simp only [AllFit, Fits, languages_nil, one_mul]
      exact ⟨by decide, hl, trivial⟩
    · simp only [languages_cons, languages_nil, mul_one]
      exact Phrase.derives_assignment
  · refine suits_shift_of_cons (by decide) ?_ hnil fun u => ?_
    · simp only [AllFit, Fits, languages_cons, languages_nil, language, mul_one, mul_assoc]
      exact ⟨.kind_mul (by decide) _, by decide,
        ⟨by decide, .option_mul (by rw [mul_assoc]; exact .kind_mul (by decide) _)
          (.kind_mul (by decide) _)⟩,
        .kind_mul (by rfl) _, by decide, trivial⟩
    · simp only [languages_cons, languages_nil, mul_one]
      exact Phrase.derives_conditional
  · refine suits_shift_of_cons (by decide) ?_ hnil fun u => ?_
    · simp only [AllFit, Fits, languages_cons, languages_nil, language, mul_one, mul_assoc]
      exact ⟨.kind_mul (by decide) _, by decide, ⟨by decide, .kind_mul (by decide) _⟩, by decide, trivial⟩
    · simp only [languages_cons, languages_nil, mul_one]
      exact Phrase.derives_loop
  · refine suits_shift_of_cons (by decide) ?_ hnil fun u => ?_
    · simp only [AllFit, Fits, languages_nil, one_mul]
      exact ⟨hl, trivial⟩
    · simp only [languages_singleton]
      exact Phrase.derives_print

/-- What follows statements begins as no statement goes on. -/
theorem begins_notMem_of_fits {follow s : KindSet} (hfit : (statements follow).Fits l)
    (hs : ∀ k ∈ statementEnds, k ∉ s) : Begins (· ∉ s) l :=
  hfit.2.mono fun k hk => hs k (hfit.1 k hk)

theorem suits_moreStatements {follow : KindSet} (hfit : (moreStatements follow).Fits l) :
    ((moreStatements follow).move k).Suits k (.moreStatements follow) l := by
  obtain ⟨hends, hl⟩ := hfit
  have hg : (moreStatements follow).language =
      1 + (single .semicolon).language * languages [.statements follow] := by
    rw [language_single, languages_singleton]
    rfl
  rw [move]
  split
  · next h =>
    subst h
    refine suits_take hg (q := (· ∈ follow)) hl (fun h => absurd (hends _ h) (by decide))
      (by decide) (by decide) ?_
    simp only [AllFit, languages_nil, one_mul]
    exact ⟨⟨hends, hl⟩, trivial⟩
  · next h =>
    split
    · next hclose =>
      -- a token that ends the statements starts none
      have hstart : ¬ statementStart.contains k = true := by
        have hnot : ∀ k ∈ statementEnds, k ∉ statementStart := by decide
        have hnot' : ∀ k ∈ listClosers, k ∉ statementStart := by decide
        rw [contains_union, Bool.or_eq_true] at hclose
        exact hclose.elim (fun hk => hnot k (hends k hk)) (hnot' k)
      rw [if_neg hstart]
      refine suits_skip hg (q := (· = .semicolon)) ?_ h
      rw [language_single, mul_assoc]
      exact .kind_mul (by rfl) _
    · next hclose =>
      have hk : k ∉ follow := fun hk => hclose (by simp [mem_iff.1 hk])
      refine suits_expand ?_ ?_ ?_
      · simp only [AllFit, languages_nil, one_mul]
        exact ⟨(by decide : Kind.semicolon ≠ .eof), ⟨hends, hl⟩, trivial⟩
      · rw [languages_cons, hg, language_single]
        exact le_sup_right
      · rintro w hw rfl
        have := mem_mul_of_option hg (q := (· ∈ follow)) hl hw hk
        rwa [language_single] at this

theorem suits_statements {follow : KindSet} (hfit : (statements follow).Fits l) :
    ((statements follow).move k).Suits k (.statements follow) l := by
  have hg : (statements follow).language = 1 + Phrase.statement.language *
      languages [.moreStatements follow] := by
    rw [languages_singleton]
    exact Phrase.language_statements
  rw [move]
  split
  · next h =>
    refine Suits.push ⟨_, statementMove_of_start h⟩ (suits_statementMove h ?_) ?_ ?_ ?_
    · -- a semicolon is behind the statement, or what is behind all of them
      rw [languages_singleton]
      refine .option_mul ?_ (begins_notMem_of_fits hfit (by decide))
      rw [mul_assoc]
      exact .kind_mul (by decide) _
    · simp only [AllFit, languages_nil, one_mul]
      exact ⟨hfit, trivial⟩
    · rw [hg]
      exact le_sup_right
    · rintro w hw rfl
      have := mem_mul_of_option hg (begins_notMem_of_fits (s := statementStart) hfit (by decide))
        hw (not_not.2 h)
      rwa [mul_assoc] at this
  · next h =>
    refine suits_skip hg (q := (· ∈ statementStart)) ?_ h
    rw [mul_assoc]
    exact .phrase_mul (p := .statement) rfl (fun _ h => h) _

theorem suits_body {follow : KindSet} (hfit : (body follow).Fits l) :
    ((body follow).move k).Suits k (.body follow) l := by
  have hg : (body follow).language = languages [.statements follow] +
      languages [.declarations (follow ∪ statementStart), .statements follow] := by
    rw [languages_cons, languages_cons, languages_cons, languages_nil, mul_one]
    show Phrase.body.language = _
    rw [Phrase.language_body, Phrase.language_declarations, add_mul, one_mul]
    rfl
  -- the statements may be left out, but what is behind them starts no declaration
  have hstatements : Begins (· ∉ declarationStart) (languages [.statements follow] * l) := by
    rw [languages_singleton]
    exact .nullable_mul (p := .statements) (by decide) (begins_notMem_of_fits hfit (by decide))
  rw [move]
  split
  · next h =>
    refine suits_choose hg hstatements (not_not.2 h) ?_
    simp only [AllFit, languages_nil, one_mul]
    exact ⟨hstatements, hfit, trivial⟩
  · next h =>
    refine suits_choose (q := (· ∈ declarationStart)) (hg.trans (add_comm _ _)) ?_ h ?_
    · rw [languages_cons, mul_assoc, language, mul_assoc]
      exact .phrase_mul (p := .declaration) rfl (fun _ h => h) _
    · simp only [AllFit, languages_nil, one_mul]
      exact ⟨hfit, trivial⟩

theorem suits_otherCase (hfit : otherCase.Fits l) :
    (otherCase.move k).Suits k .otherCase l := by
  have hg : otherCase.language =
      1 + (single .kwElse).language * languages [.body caseClosers] := by
    rw [language_single, languages_singleton]
    rfl
  have hl : Begins (· = .kwEnd) l := hfit
  rw [move]
  split
  · next h =>
    subst h
    refine suits_take hg hl (by decide) (by decide) (by decide) ?_
    simp only [AllFit, Fits, languages_nil, one_mul]
    exact ⟨⟨by decide, hl.mono (by decide)⟩, trivial⟩
  · next h =>
    refine suits_skip hg (q := (· = .kwElse)) ?_ h
    rw [language_single, mul_assoc]
    exact .kind_mul (by rfl) _

/-! ## Expressions -/

/-- The move on an operand suits a goal whose words that begin with the token are
    those of an operand. -/
theorem suits_operandMove {g : Goal} {wanted : KindSet} (follow : KindSet)
    (hnil : [] ∉ g.language) (hcons : ∀ u, k :: u ∈ g.language ↔ Phrase.operand.Derives (k :: u))
    (hwanted : ∀ j ∈ wanted, ∃ u, j :: u ∈ g.language) :
    (operandMove wanted follow k).Suits k g l := by
  by_cases hk : k ∈ operandStart
  · have hcases : ∀ k ∈ operandStart, k = .lparen ∨ k = .ident ∨ k = .num ∨ k = .kwMod := by
      decide
    rcases hcases k hk with rfl | rfl | rfl | rfl
    · refine suits_shift_of_cons (by decide) ?_ hnil fun u => (hcons u).trans ?_
      · simp only [AllFit, Fits, languages_cons, languages_nil, language, mul_one]
        exact ⟨.kind_mul (by decide) _, by decide, trivial⟩
      · simp only [languages_cons, languages_nil, mul_one]
        exact Phrase.derives_parentheses
    · exact suits_shift_of_cons (by decide) trivial hnil fun u => (hcons u).trans Phrase.derives_name
    · exact suits_shift_of_cons (by decide) trivial hnil fun u => (hcons u).trans Phrase.derives_number
    · refine suits_shift_of_cons (by decide) ⟨trivial, trivial⟩ hnil fun u => (hcons u).trans ?_
      simp only [languages_singleton]
      exact Phrase.derives_modulus
  · -- no operand begins with the token, so neither does a word of the goal
    have hmove : operandMove wanted follow k = .refuse (.oneOf wanted) .factor follow none := by
      cases k <;> first | rfl | exact absurd (by decide) hk
    rw [hmove]
    refine suits_refuse hwanted ?_
    rintro w hw rfl
    obtain ⟨u, hu, v, _, rfl⟩ := Language.mem_mul.1 hw
    cases u with
    | nil => exact hnil hu
    | cons j u => exact hk (Phrase.mem_first_of_cons ((hcons u).1 hu))

theorem suits_operand {wanted follow : KindSet} (hfit : (operand wanted follow).Fits l) :
    ((operand wanted follow).move k).Suits k (.operand wanted follow) l := by
  obtain rfl : wanted = operandStart := hfit
  refine suits_operandMove follow (fun h => ?_) (fun u => Iff.rfl) fun j => Phrase.exists_operand
  obtain ⟨_, _, h, _⟩ := Phrase.exists_cons_of_derives h rfl
  cases h

theorem suits_factor (follow : KindSet) :
    ((factor follow).move k).Suits k (.factor follow) l := by
  have hg : (factor follow).language =
      Phrase.operand.language +
        languages [.unaryOperator (follow ∪ operandStart), .operand operandStart follow] := by
    rw [languages_cons, languages_cons, languages_nil, mul_one]
    exact Phrase.language_factor
  have hoperand : Begins (· ∉ unaryOps) (Phrase.operand.language * l) :=
    .phrase_mul (p := .operand) rfl (by decide) l
  rw [move]
  split
  · next h =>
    exact suits_choose hg hoperand (not_not.2 h) ⟨trivial, rfl, trivial⟩
  · -- without an operator a factor is an operand, but more kinds are said to be wanted
    next h =>
    refine suits_operandMove follow (fun h => ?_) (fun u => ⟨fun hu => ?_, fun hu => .plain hu⟩)
      fun j => Phrase.exists_factor
    · obtain ⟨_, _, h, _⟩ := Phrase.exists_cons_of_derives h rfl
      cases h
    · cases hu with
      | plain ho => exact ho
      | unary hop _ => exact absurd (mem_unaryOps.2 hop) h

theorem suits_comparison {follow : KindSet} (hfit : (comparison follow).Fits l) :
    ((comparison follow).move k).Suits k (.comparison follow) l := by
  have hg : (comparison follow).language =
      1 + languages [.relationalOperator (follow ∪ factorStart), .simpleExpression follow] := by
    rw [languages_cons, languages_cons, languages_nil, mul_one]
    rfl
  have hl : Begins (· ∉ binaryOps) l := hfit
  rw [move]
  split
  · next h =>
    refine suits_choose hg (q := (· ∉ relationalOps)) ?_ (not_not.2 h) ?_
    · rw [one_mul]
      exact hl.mono (by decide)
    · simp only [AllFit, Fits, languages_nil, one_mul]
      exact ⟨trivial, hl.mono (by decide), trivial⟩
  · next h =>
    refine suits_skip hg (q := (· ∈ relationalOps)) ?_ h
    rw [languages_cons, mul_assoc]
    exact .kinds_mul (fun _ h => h) _

theorem suits_moreTerms {follow : KindSet} (hfit : (moreTerms follow).Fits l) :
    ((moreTerms follow).move k).Suits k (.moreTerms follow) l := by
  have hg : (moreTerms follow).language =
      1 + additiveOps.language * languages [.term follow, .moreTerms follow] := by
    rw [languages_cons, languages_cons, languages_nil, mul_one]
    exact congrArg (1 + additiveOps.language * ·) Phrase.language_simpleExpression
  have hl : Begins (· ∉ additiveOps ∪ multiplicativeOps) l := hfit
  rw [move]
  split
  · next h =>
    have hk : k ∈ additiveOps := h
    refine suits_take hg (hl.mono (r := (· ∉ additiveOps)) (by decide)) (not_not.2 hk) hk
      (ne_of_mem_of_not_mem hk (by decide)) ?_
    -- behind the term comes another operator between terms, or what is behind the goal
    simp only [AllFit, Fits, languages_cons, languages_nil, one_mul, mul_one]
    refine ⟨.option_mul ?_ (hl.mono (by decide)), hl, trivial⟩
    rw [mul_assoc]
    exact .kinds_mul (by decide) _
  · next h =>
    refine suits_skip hg (q := (· ∈ additiveOps)) ?_ h
    rw [mul_assoc]
    exact .kinds_mul (fun _ h => h) _

theorem suits_moreFactors {follow : KindSet} (hfit : (moreFactors follow).Fits l) :
    ((moreFactors follow).move k).Suits k (.moreFactors follow) l := by
  have hg : (moreFactors follow).language =
      1 + multiplicativeOps.language * languages [.factor follow, .moreFactors follow] := by
    rw [languages_cons, languages_cons, languages_nil, mul_one]
    exact congrArg (1 + multiplicativeOps.language * ·) Phrase.language_term
  have hl : Begins (· ∉ multiplicativeOps) l := hfit
  rw [move]
  split
  · next h =>
    have hk : k ∈ multiplicativeOps := h
    refine suits_take hg hl (not_not.2 hk) hk (ne_of_mem_of_not_mem hk (by decide)) ?_
    simp only [AllFit, languages_nil, one_mul]
    exact ⟨trivial, hl, trivial⟩
  · next h =>
    refine suits_skip hg (q := (· ∈ multiplicativeOps)) ?_ h
    rw [mul_assoc]
    exact .kinds_mul (fun _ h => h) _

/-- A goal that others put together may be replaced by them. -/
theorem suits_expand_of_eq {g : Goal} {goals : List Goal} (hg : g.language = languages goals)
    (hfit : AllFit l goals) : (Move.expand goals).Suits k g l :=
  suits_expand hfit hg.ge fun _ hw _ => hg ▸ hw

theorem suits_expression {follow : KindSet} (hfit : (expression follow).Fits l) :
    ((expression follow).move k).Suits k (.expression follow) l := by
  have hl : Begins (· ∉ binaryOps) l := hfit
  refine suits_expand_of_eq ?_ ?_
  · rw [languages_cons, languages_cons, languages_nil, mul_one]
    exact Phrase.language_expression
  · simp only [AllFit, Fits, languages_cons, languages_nil, language, one_mul, mul_one]
    refine ⟨.option_mul ?_ (hl.mono (by decide)), hl, trivial⟩
    rw [mul_assoc]
    exact .kinds_mul (by decide) _

theorem suits_simpleExpression {follow : KindSet} (hfit : (simpleExpression follow).Fits l) :
    ((simpleExpression follow).move k).Suits k (.simpleExpression follow) l := by
  have hl : Begins (· ∉ additiveOps ∪ multiplicativeOps) l := hfit
  refine suits_expand_of_eq ?_ ?_
  · rw [languages_cons, languages_cons, languages_nil, mul_one]
    exact Phrase.language_simpleExpression
  · simp only [AllFit, Fits, languages_cons, languages_nil, language, one_mul, mul_one]
    refine ⟨.option_mul ?_ (hl.mono (by decide)), hl, trivial⟩
    rw [mul_assoc]
    exact .kinds_mul (by decide) _

theorem suits_term {follow : KindSet} (hfit : (term follow).Fits l) :
    ((term follow).move k).Suits k (.term follow) l := by
  refine suits_expand_of_eq ?_ ?_
  · rw [languages_cons, languages_cons, languages_nil, mul_one]
    exact Phrase.language_term
  · simp only [AllFit, languages_nil, one_mul]
    exact ⟨trivial, hfit, trivial⟩

theorem suits_declarations {follow : KindSet} (hfit : (declarations follow).Fits l) :
    ((declarations follow).move k).Suits k (.declarations follow) l := by
  refine suits_expand_of_eq ?_ ?_
  · rw [languages_cons, languages_cons, languages_nil, mul_one]
    rfl
  · simp only [AllFit, languages_nil, one_mul]
    exact ⟨trivial, hfit, trivial⟩

/-! ## All goals -/

/-- The move on a goal suits it if it fits what is behind it. -/
theorem suits_move {g : Goal} (hfit : g.Fits l) (k : Kind) : (g.move k).Suits k g l := by
  cases g with
  | program | statement => exact hfit.elim
  | body follow => exact suits_body hfit
  | declarations follow => exact suits_declarations hfit
  | moreDeclarations follow => exact suits_moreDeclarations hfit
  | declaration follow => exact suits_declarationMove follow
  | moreNames follow => exact suits_moreNames hfit
  | statements follow => exact suits_statements hfit
  | moreStatements follow => exact suits_moreStatements hfit
  | otherCase => exact suits_otherCase hfit
  | expression follow => exact suits_expression hfit
  | comparison follow => exact suits_comparison hfit
  | simpleExpression follow => exact suits_simpleExpression hfit
  | moreTerms follow => exact suits_moreTerms hfit
  | term follow => exact suits_term hfit
  | moreFactors follow => exact suits_moreFactors hfit
  | factor follow => exact suits_factor follow
  | operand wanted follow => exact suits_operand hfit
  | relationalOperator follow => exact suits_oneOfMove rfl (by decide) _ follow
  | unaryOperator follow => exact suits_oneOfMove rfl (by decide) _ follow
  | token kind rule follow => exact suits_tokenMove hfit rule follow

end Goal

end TinyLang

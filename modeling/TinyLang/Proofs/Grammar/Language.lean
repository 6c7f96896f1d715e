import Mathlib
import TinyLang.Grammar
import TinyLang.KindSet

/-!
# Languages of phrases

The sequences of kinds that a phrase is written with are a language
(`Phrase.language`). The rules of the grammar are equations between these
languages, with union for choice and concatenation for sequence
(`language_statements`, `language_expression`, ...); a statement and an operand are
told apart by their first kind (`derives_assignment`, `derives_parentheses`, ...).
The types and the operators of the rules are the members of sets of kinds
(`KindSet.mem_additiveOps`, ...).
A word of a phrase that is not empty begins with a kind of `Phrase.first`
(`Phrase.Derives.nil_or_first`), and every one of these begins a word
(`Phrase.exists_derives_of_mem_first`). No program is within another one or begins
with one (`Phrase.eq_nil_of_derives_program`, `Phrase.eq_nil_of_derives_append`).
-/

namespace TinyLang

open Computability KindSet

/-- A statement about every kind is decided kind by kind. -/
instance Kind.decidableForall (q : Kind → Prop) [DecidablePred q] : Decidable (∀ k, q k) :=
  decidable_of_iff (∀ k ∈ Kind.all, q k) ⟨fun h k => h k k.mem_all, fun h k _ => h k⟩

/-! ## Types and operators

The sets of kinds that a parser goes by hold the types and operators of the rules.
-/

namespace KindSet

theorem mem_declarationStart {k : Kind} : k ∈ declarationStart ↔ k.IsType := by
  cases k <;> decide

theorem mem_relationalOps {k : Kind} : k ∈ relationalOps ↔ k.IsRelational := by
  cases k <;> decide

theorem mem_additiveOps {k : Kind} : k ∈ additiveOps ↔ k.IsAdditive := by
  cases k <;> decide

theorem mem_multiplicativeOps {k : Kind} : k ∈ multiplicativeOps ↔ k.IsMultiplicative := by
  cases k <;> decide

theorem mem_unaryOps {k : Kind} : k ∈ unaryOps ↔ k.IsUnary := by
  cases k <;> decide

end KindSet

/-! ## Words of one kind -/

/-- The words that are a single kind of a set. -/
def KindSet.language (s : KindSet) : Language Kind := {w | ∃ k ∈ s, w = [k]}

theorem mem_kind {k : Kind} {w : List Kind} : w ∈ ({[k]} : Language Kind) ↔ w = [k] := Iff.rfl

theorem mem_word_mul {v : List Kind} {l : Language Kind} {w : List Kind} :
    w ∈ ({v} : Language Kind) * l ↔ ∃ u ∈ l, w = v ++ u := by
  rw [Language.mem_mul]
  constructor
  · rintro ⟨_, rfl, u, hu, rfl⟩
    exact ⟨u, hu, rfl⟩
  · rintro ⟨u, hu, rfl⟩
    exact ⟨v, rfl, u, hu, rfl⟩

theorem mem_kind_mul {k : Kind} {l : Language Kind} {w : List Kind} :
    w ∈ ({[k]} : Language Kind) * l ↔ ∃ u ∈ l, w = k :: u := mem_word_mul

theorem mem_kinds_mul {s : KindSet} {l : Language Kind} {w : List Kind} :
    w ∈ s.language * l ↔ ∃ k ∈ s, ∃ u ∈ l, w = k :: u := by
  rw [Language.mem_mul]
  constructor
  · rintro ⟨_, ⟨k, hk, rfl⟩, u, hu, rfl⟩
    exact ⟨k, hk, u, hu, rfl⟩
  · rintro ⟨k, hk, u, hu, rfl⟩
    exact ⟨[k], ⟨k, hk, rfl⟩, u, hu, rfl⟩

/-- A word of a language that may be left out. -/
theorem mem_option {l : Language Kind} {w : List Kind} : w ∈ 1 + l ↔ w = [] ∨ w ∈ l :=
  Iff.rfl

/-- A word that an operator and another word may follow. -/
theorem mem_mul_option {s : KindSet} {l m : Language Kind} {w : List Kind} :
    w ∈ l * (1 + s.language * m) ↔ w ∈ l ∨ ∃ u ∈ l, ∃ k ∈ s, ∃ v ∈ m, w = u ++ k :: v := by
  rw [mul_add, mul_one, Language.mem_add, Language.mem_mul]
  refine or_congr_right ⟨?_, ?_⟩
  · rintro ⟨u, hu, _, h, rfl⟩
    obtain ⟨k, hk, v, hv, rfl⟩ := mem_kinds_mul.1 h
    exact ⟨u, hu, k, hk, v, hv, rfl⟩
  · rintro ⟨u, hu, k, hk, v, hv, rfl⟩
    exact ⟨u, hu, _, mem_kinds_mul.2 ⟨k, hk, v, hv, rfl⟩, rfl⟩

namespace Phrase

/-- The words that a phrase is written with. -/
def language (p : Phrase) : Language Kind := {w | p.Derives w}

theorem mem_language {p : Phrase} {w : List Kind} : w ∈ p.language ↔ p.Derives w := Iff.rfl

/-- Further names of a declaration, with a comma before each. -/
def names : Language Kind := ({[.comma]} * {[.ident]})∗

theorem mem_names {w : List Kind} :
    w ∈ names ↔ ∃ n, w = (List.replicate n [Kind.comma, .ident]).flatten := by
  have hone : ∀ y : List Kind, y ∈ ({[.comma]} * {[.ident]} : Language Kind) ↔
      y = [.comma, .ident] := by
    intro y
    rw [mem_kind_mul]
    constructor
    · rintro ⟨_, rfl, rfl⟩
      rfl
    · rintro rfl
      exact ⟨_, rfl, rfl⟩
  rw [names, Language.mem_kstar]
  constructor
  · rintro ⟨ys, rfl, hys⟩
    exact ⟨ys.length, congrArg _ (List.eq_replicate_iff.2 ⟨rfl, fun y hy => (hone y).1 (hys y hy)⟩)⟩
  · rintro ⟨n, rfl⟩
    exact ⟨_, rfl, fun y hy => (hone y).2 (List.eq_of_mem_replicate hy)⟩

/-! ## The rules as equations -/

theorem language_program :
    program.language =
      {[.kwProgram]} * ({[.ident]} * ({[.colon]} * (body.language * {[.dot]}))) := by
  ext w
  rw [mem_language]
  constructor
  · intro h
    cases h with
    | program hb =>
      exact mem_kind_mul.2 ⟨_, mem_kind_mul.2 ⟨_, mem_kind_mul.2
        ⟨_, Language.append_mem_mul hb (mem_kind.2 rfl), rfl⟩, rfl⟩, rfl⟩
  · intro h
    obtain ⟨_, h₁, rfl⟩ := mem_kind_mul.1 h
    obtain ⟨_, h₂, rfl⟩ := mem_kind_mul.1 h₁
    obtain ⟨_, h₃, rfl⟩ := mem_kind_mul.1 h₂
    obtain ⟨b, hb, _, rfl, rfl⟩ := Language.mem_mul.1 h₃
    exact .program hb

theorem language_body : body.language = declarations.language * statements.language := by
  ext w
  rw [mem_language, Language.mem_mul]
  constructor
  · intro h
    cases h with
    | body hd hs => exact ⟨_, hd, _, hs, rfl⟩
  · rintro ⟨_, hd, _, hs, rfl⟩
    exact .body hd hs

theorem language_declarations :
    declarations.language = 1 + declaration.language * declarations.language := by
  ext w
  rw [mem_language, mem_option, Language.mem_mul]
  constructor
  · intro h
    cases h with
    | noDeclarations => exact .inl rfl
    | moreDeclarations hd hds => exact .inr ⟨_, hd, _, hds, rfl⟩
  · rintro (rfl | ⟨_, hd, _, hds, rfl⟩)
    · exact .noDeclarations
    · exact .moreDeclarations hd hds

theorem language_declaration :
    declaration.language =
      declarationStart.language * ({[.ident]} * (names * {[.semicolon]})) := by
  ext w
  rw [mem_language, mem_kinds_mul]
  constructor
  · intro h
    cases h with
    | declaration n ht =>
      refine ⟨_, mem_declarationStart.2 ht, _, mem_kind_mul.2 ⟨_, ?_, rfl⟩, rfl⟩
      exact Language.append_mem_mul (mem_names.2 ⟨n, rfl⟩) (mem_kind.2 rfl)
  · rintro ⟨t, ht, _, h, rfl⟩
    obtain ⟨_, h₁, rfl⟩ := mem_kind_mul.1 h
    obtain ⟨_, hn, _, rfl, rfl⟩ := Language.mem_mul.1 h₁
    obtain ⟨n, rfl⟩ := mem_names.1 hn
    exact .declaration n (mem_declarationStart.1 ht)

theorem language_statements :
    statements.language =
      1 + statement.language * (1 + {[.semicolon]} * statements.language) := by
  ext w
  rw [mem_language, mem_option, Language.mem_mul]
  constructor
  · intro h
    cases h with
    | noStatements => exact .inl rfl
    | lastStatement hs => exact .inr ⟨_, hs, [], .inl rfl, List.append_nil _⟩
    | moreStatements hs hss => exact .inr ⟨_, hs, _, .inr (mem_kind_mul.2 ⟨_, hss, rfl⟩), rfl⟩
  · rintro (rfl | ⟨s, hs, _, hss, rfl⟩)
    · exact .noStatements
    · rcases hss with rfl | hss
      · rw [List.append_nil]
        exact .lastStatement hs
      · obtain ⟨ss, hss', rfl⟩ := mem_kind_mul.1 hss
        exact .moreStatements hs hss'

/-- What comes behind the first body of a conditional. -/
def caseEnd : Language Kind := (1 + {[.kwElse]} * body.language) * {[.kwEnd]}

theorem mem_caseEnd {w : List Kind} :
    w ∈ caseEnd ↔ w = [.kwEnd] ∨ ∃ c, body.Derives c ∧ w = .kwElse :: c ++ [.kwEnd] := by
  rw [caseEnd, Language.mem_mul]
  constructor
  · rintro ⟨_, rfl | hc, _, rfl, rfl⟩
    · exact .inl rfl
    · obtain ⟨c, hc', rfl⟩ := mem_kind_mul.1 hc
      exact .inr ⟨c, hc', rfl⟩
  · rintro (rfl | ⟨c, hc, rfl⟩)
    · exact ⟨[], .inl rfl, _, rfl, rfl⟩
    · exact ⟨_, .inr (mem_kind_mul.2 ⟨c, hc, rfl⟩), _, rfl, rfl⟩

theorem derives_assignment {u : List Kind} :
    statement.Derives (.ident :: u) ↔ u ∈ {[.assign]} * expression.language := by
  constructor
  · intro h
    cases h with
    | assignment he => exact mem_kind_mul.2 ⟨_, he, rfl⟩
  · intro h
    obtain ⟨e, he, rfl⟩ := mem_kind_mul.1 h
    exact .assignment he

theorem derives_conditional {u : List Kind} :
    statement.Derives (.kwIf :: u) ↔
      u ∈ expression.language * ({[.kwThen]} * (body.language * caseEnd)) := by
  -- the rules bracket a conditional to the left, the language does it to the right
  constructor
  · intro h
    cases h with
    | @oneCase e b he hb =>
      have h : e ++ Kind.kwThen :: (b ++ [Kind.kwEnd]) ∈ expression.language * _ :=
        Language.append_mem_mul he (mem_kind_mul.2
          ⟨_, Language.append_mem_mul (mem_language.2 hb) (mem_caseEnd.2 (.inl rfl)), rfl⟩)
      simpa using h
    | @twoCases e b c he hb hc =>
      have h : e ++ Kind.kwThen :: (b ++ (Kind.kwElse :: c ++ [Kind.kwEnd])) ∈
          expression.language * _ :=
        Language.append_mem_mul he (mem_kind_mul.2
          ⟨_, Language.append_mem_mul (mem_language.2 hb) (mem_caseEnd.2 (.inr ⟨c, hc, rfl⟩)), rfl⟩)
      simpa using h
  · intro h
    obtain ⟨e, he, _, h₁, rfl⟩ := Language.mem_mul.1 h
    obtain ⟨_, h₂, rfl⟩ := mem_kind_mul.1 h₁
    obtain ⟨b, hb, _, hend, rfl⟩ := Language.mem_mul.1 h₂
    rcases mem_caseEnd.1 hend with rfl | ⟨c, hc, rfl⟩
    · simpa using Derives.oneCase he hb
    · simpa using Derives.twoCases he hb hc

theorem derives_loop {u : List Kind} :
    statement.Derives (.kwWhile :: u) ↔
      u ∈ expression.language * ({[.kwDo]} * (statements.language * {[.kwEnd]})) := by
  constructor
  · intro h
    cases h with
    | @loop e ss he hss =>
      have h : e ++ Kind.kwDo :: (ss ++ [Kind.kwEnd]) ∈ expression.language * _ :=
        Language.append_mem_mul he (mem_kind_mul.2
          ⟨_, Language.append_mem_mul (mem_language.2 hss) (mem_kind.2 rfl), rfl⟩)
      simpa using h
  · intro h
    obtain ⟨e, he, _, h₁, rfl⟩ := Language.mem_mul.1 h
    obtain ⟨_, h₂, rfl⟩ := mem_kind_mul.1 h₁
    obtain ⟨ss, hss, _, rfl, rfl⟩ := Language.mem_mul.1 h₂
    simpa using Derives.loop he hss

theorem derives_print {u : List Kind} :
    statement.Derives (.kwPrint :: u) ↔ u ∈ expression.language := by
  constructor
  · intro h
    cases h with
    | print he => exact he
  · exact .print

theorem language_expression :
    expression.language =
      simpleExpression.language * (1 + relationalOps.language * simpleExpression.language) := by
  ext w
  rw [mem_language, mem_mul_option]
  constructor
  · intro h
    cases h with
    | sum hs => exact .inl hs
    | comparison hs hop ht => exact .inr ⟨_, hs, _, mem_relationalOps.2 hop, _, ht, rfl⟩
  · rintro (hs | ⟨s, hs, op, hop, t, ht, rfl⟩)
    · exact .sum hs
    · exact .comparison hs (mem_relationalOps.1 hop) ht

theorem language_simpleExpression :
    simpleExpression.language =
      term.language * (1 + additiveOps.language * simpleExpression.language) := by
  ext w
  rw [mem_language, mem_mul_option]
  constructor
  · intro h
    cases h with
    | lastTerm ht => exact .inl ht
    | moreTerms ht hop hs => exact .inr ⟨_, ht, _, mem_additiveOps.2 hop, _, hs, rfl⟩
  · rintro (ht | ⟨t, ht, op, hop, s, hs, rfl⟩)
    · exact .lastTerm ht
    · exact .moreTerms ht (mem_additiveOps.1 hop) hs

theorem language_term :
    term.language =
      factor.language * (1 + multiplicativeOps.language * term.language) := by
  ext w
  rw [mem_language, mem_mul_option]
  constructor
  · intro h
    cases h with
    | lastFactor hf => exact .inl hf
    | moreFactors hf hop ht => exact .inr ⟨_, hf, _, mem_multiplicativeOps.2 hop, _, ht, rfl⟩
  · rintro (hf | ⟨f, hf, op, hop, t, ht, rfl⟩)
    · exact .lastFactor hf
    · exact .moreFactors hf (mem_multiplicativeOps.1 hop) ht

theorem language_factor :
    factor.language = operand.language + unaryOps.language * operand.language := by
  ext w
  rw [mem_language, Language.mem_add, mem_kinds_mul]
  constructor
  · intro h
    cases h with
    | plain ho => exact .inl ho
    | unary hop ho => exact .inr ⟨_, mem_unaryOps.2 hop, _, ho, rfl⟩
  · rintro (ho | ⟨op, hop, o, ho, rfl⟩)
    · exact .plain ho
    · exact .unary (mem_unaryOps.1 hop) ho

theorem derives_parentheses {u : List Kind} :
    operand.Derives (.lparen :: u) ↔ u ∈ expression.language * {[.rparen]} := by
  constructor
  · intro h
    cases h with
    | parentheses he => exact Language.append_mem_mul he (mem_kind.2 rfl)
  · intro h
    obtain ⟨e, he, _, rfl, rfl⟩ := Language.mem_mul.1 h
    exact .parentheses he

theorem derives_name {u : List Kind} : operand.Derives (.ident :: u) ↔ u = [] := by
  constructor
  · intro h
    cases h with
    | name => rfl
  · rintro rfl
    exact .name

theorem derives_number {u : List Kind} : operand.Derives (.num :: u) ↔ u = [] := by
  constructor
  · intro h
    cases h with
    | number => rfl
  · rintro rfl
    exact .number

theorem derives_modulus {u : List Kind} :
    operand.Derives (.kwMod :: u) ↔ u ∈ factor.language := by
  constructor
  · intro h
    cases h with
    | modulus hf => exact hf
  · exact .modulus

/-! ## First kinds -/

/-- The kinds that a phrase begins with. -/
def first : Phrase → KindSet
  | program => single .kwProgram
  | body => bodyStart
  | declarations | declaration => declarationStart
  | statements | statement => statementStart
  | expression | simpleExpression | term | factor => factorStart
  | operand => operandStart

/-- Whether a phrase may be left out. -/
def nullable : Phrase → Bool
  | body | declarations | statements => true
  | _ => false

theorem first_append {s : KindSet} {u : List Kind} (h : ∃ k v, u = k :: v ∧ k ∈ s)
    (w : List Kind) : ∃ k v, u ++ w = k :: v ∧ k ∈ s := by
  obtain ⟨k, v, rfl, hk⟩ := h
  exact ⟨k, v ++ w, rfl, hk⟩

theorem first_mono {s t : KindSet} {u : List Kind} (hst : ∀ k ∈ s, k ∈ t)
    (h : ∃ k v, u = k :: v ∧ k ∈ s) : ∃ k v, u = k :: v ∧ k ∈ t := by
  obtain ⟨k, v, rfl, hk⟩ := h
  exact ⟨k, v, rfl, hst k hk⟩

/-- A word of a phrase is empty, which only some phrases allow, or begins with a
    first kind of the phrase. -/
theorem Derives.nil_or_first {p : Phrase} {w : List Kind} (h : p.Derives w) :
    (w = [] ∧ p.nullable = true) ∨ ∃ k u, w = k :: u ∧ k ∈ p.first := by
  -- a rule starts with a kind of its own or with a phrase, and only a body starts with
  -- one that may be left out
  induction h with
  | noDeclarations | noStatements => exact .inl ⟨rfl, rfl⟩
  | program | assignment | oneCase | twoCases | loop | print | parentheses | name | number
  | modulus => exact .inr ⟨_, _, rfl, by decide⟩
  | declaration n ht => exact .inr ⟨_, _, rfl, mem_declarationStart.2 ht⟩
  | body _ _ ihd ihs =>
    rcases ihd with ⟨rfl, _⟩ | ihd
    · rcases ihs with ⟨rfl, _⟩ | ihs
      · exact .inl ⟨rfl, rfl⟩
      · exact .inr (first_mono (by decide) ihs)
    · exact .inr (first_append (first_mono (by decide) ihd) _)
  | moreDeclarations _ _ ih _ =>
    exact .inr (first_append (ih.resolve_left fun h => nomatch h.2) _)
  | lastStatement _ ih => exact .inr (ih.resolve_left fun h => nomatch h.2)
  | moreStatements _ _ ih _ | comparison _ _ _ ih _ | moreTerms _ _ _ ih _
  | moreFactors _ _ _ ih _ =>
    exact .inr (first_append (ih.resolve_left fun h => nomatch h.2) _)
  | sum _ ih | lastTerm _ ih | lastFactor _ ih => exact .inr (ih.resolve_left fun h => nomatch h.2)
  | plain _ ih =>
    exact .inr (first_mono (by decide) (ih.resolve_left fun h => nomatch h.2))
  | unary hop _ _ =>
    exact .inr (first_mono (by decide) ⟨_, _, rfl, mem_unaryOps.2 hop⟩)

theorem mem_first_of_cons {p : Phrase} {k : Kind} {u : List Kind} (h : p.Derives (k :: u)) :
    k ∈ p.first := by
  rcases h.nil_or_first with ⟨h, _⟩ | ⟨_, _, h, hk⟩
  · cases h
  · cases h
    exact hk

theorem exists_cons_of_derives {p : Phrase} {w : List Kind} (h : p.Derives w)
    (hp : p.nullable = false) : ∃ k u, w = k :: u ∧ k ∈ p.first :=
  h.nil_or_first.resolve_left fun ⟨_, hn⟩ => by simp [hp] at hn

theorem exists_operand {k : Kind} (h : k ∈ operandStart) : ∃ u, operand.Derives (k :: u) := by
  have hk : ∀ k ∈ operandStart, k = .lparen ∨ k = .ident ∨ k = .num ∨ k = .kwMod := by decide
  rcases hk k h with rfl | rfl | rfl | rfl
  · exact ⟨_, .parentheses (.sum (.lastTerm (.lastFactor (.plain .name))))⟩
  · exact ⟨_, .name⟩
  · exact ⟨_, .number⟩
  · exact ⟨_, .modulus (.plain .name)⟩

theorem exists_factor {k : Kind} (h : k ∈ factorStart) : ∃ u, factor.Derives (k :: u) := by
  have hk : ∀ k ∈ factorStart, k ∈ operandStart ∨ k ∈ unaryOps := by decide
  rcases hk k h with hk | hk
  · obtain ⟨u, hu⟩ := exists_operand hk
    exact ⟨u, .plain hu⟩
  · exact ⟨_, .unary (mem_unaryOps.1 hk) .name⟩

theorem exists_expression {k : Kind} (h : k ∈ factorStart) :
    ∃ u, expression.Derives (k :: u) := by
  obtain ⟨u, hu⟩ := exists_factor h
  exact ⟨u, .sum (.lastTerm (.lastFactor hu))⟩

theorem exists_declaration {k : Kind} (h : k ∈ declarationStart) :
    ∃ u, declaration.Derives (k :: u) :=
  ⟨_, .declaration 0 (mem_declarationStart.1 h)⟩

theorem exists_statement {k : Kind} (h : k ∈ statementStart) :
    ∃ u, statement.Derives (k :: u) := by
  have hk : ∀ k ∈ statementStart, k = .ident ∨ k = .kwIf ∨ k = .kwWhile ∨ k = .kwPrint := by
    decide
  obtain ⟨e, he⟩ : ∃ e, expression.Derives (.ident :: e) := exists_expression (by decide)
  rcases hk k h with rfl | rfl | rfl | rfl
  · exact ⟨_, .assignment he⟩
  · exact ⟨_, .oneCase he (.body .noDeclarations .noStatements)⟩
  · exact ⟨_, .loop he .noStatements⟩
  · exact ⟨_, .print he⟩

/-- Every first kind of a phrase begins a word of it. -/
theorem exists_derives_of_mem_first {p : Phrase} {k : Kind} (h : k ∈ p.first) :
    ∃ u, p.Derives (k :: u) := by
  cases p with
  | program =>
    obtain rfl : .kwProgram = k := by simpa [first, mem_iff] using h
    exact ⟨_, .program (.body .noDeclarations .noStatements)⟩
  | body =>
    have hk : ∀ k ∈ bodyStart, k ∈ declarationStart ∨ k ∈ statementStart := by decide
    rcases hk k h with hk | hk
    · obtain ⟨u, hu⟩ := exists_declaration hk
      exact ⟨_, .body (.moreDeclarations hu .noDeclarations) .noStatements⟩
    · obtain ⟨u, hu⟩ := exists_statement hk
      exact ⟨_, .body .noDeclarations (.lastStatement hu)⟩
  | declarations =>
    obtain ⟨u, hu⟩ := exists_declaration h
    exact ⟨_, .moreDeclarations hu .noDeclarations⟩
  | declaration => exact exists_declaration h
  | statements =>
    obtain ⟨u, hu⟩ := exists_statement h
    exact ⟨_, .lastStatement hu⟩
  | statement => exact exists_statement h
  | expression => exact exists_expression h
  | simpleExpression =>
    obtain ⟨u, hu⟩ := exists_factor h
    exact ⟨_, .lastTerm (.lastFactor hu)⟩
  | term =>
    obtain ⟨u, hu⟩ := exists_factor h
    exact ⟨_, .lastFactor hu⟩
  | factor => exact exists_factor h
  | operand => exact exists_operand h

/-- Every phrase can be written. -/
theorem language_nonempty (p : Phrase) : ∃ w, w ∈ p.language := by
  -- a word that begins with a first kind of the phrase will do
  have hp : ∃ k, k ∈ p.first := by
    cases p
    case program => exact ⟨.kwProgram, by decide⟩
    case declarations | declaration => exact ⟨.kwInt, by decide⟩
    all_goals exact ⟨.ident, by decide⟩
  obtain ⟨k, hk⟩ := hp
  obtain ⟨u, hu⟩ := exists_derives_of_mem_first hk
  exact ⟨_, hu⟩

/-! ## Where programs start and end -/

/-- Whether a word can be completed to one of a phrase. -/
def Opens (p : Phrase) (w : List Kind) : Prop := ∃ u, p.Derives (w ++ u)

/-- A program holds `program` at its start only. -/
theorem eq_nil_of_derives_program {u v : List Kind}
    (h : Phrase.program.Derives (u ++ .kwProgram :: v)) : u = [] := by
  obtain ⟨x, hx⟩ : ∃ x, u ++ .kwProgram :: v = .kwProgram :: x ∧ .kwProgram ∉ x := by
    generalize u ++ .kwProgram :: v = w at h
    cases h with
    | program hb => exact ⟨_, rfl, by simp [hb.notMem nofun (.inl rfl)]⟩
  cases u with
  | nil => rfl
  | cons k u =>
    obtain rfl := (List.cons.inj hx.1).2
    exact absurd (by simp) hx.2

/-- No program begins with another one, as there is a dot at its end only. -/
theorem eq_nil_of_derives_append {w v : List Kind} (hw : Phrase.program.Derives w)
    (h : Phrase.program.Derives (w ++ v)) : v = [] := by
  obtain ⟨x, hx⟩ : ∃ x, w ++ v = x ++ [Kind.dot] ∧ Kind.dot ∉ x := by
    generalize w ++ v = w at h
    cases h with
    | program hb => exact ⟨_, rfl, by simp [hb.notMem nofun (.inr (.inl rfl))]⟩
  rcases List.eq_nil_or_concat v with rfl | ⟨u, k, rfl⟩
  · rfl
  · rw [List.concat_eq_append, ← List.append_assoc] at hx
    have hdot : Kind.dot ∈ w := by
      cases hw with
      | program => simp
    have heq : w ++ u = x := (List.append_inj' hx.1 rfl).1
    exact absurd (heq ▸ List.mem_append_left u hdot) hx.2

end Phrase

end TinyLang

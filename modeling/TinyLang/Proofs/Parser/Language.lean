import TinyLang.Proofs.Grammar.Language
import TinyLang.Proofs.Parser.Move

/-!
# Languages of goals

A goal stands for a language (`Goal.language`), and an agenda for the words that
are put together from words of its goals (`Goal.languages`). What comes behind a
goal must not be taken for a part of it: `Goal.Fits` says which languages may
follow a goal, and `Goal.AllFit` that every goal of an agenda fits what is behind
it. Both look at the first kinds of words only (`Begins`).
-/

namespace TinyLang

open KindSet

/-! ## Beginnings -/

/-- The words of a language begin with kinds that have a property, where the
    empty word begins with the end of the input. -/
def Begins (q : Kind → Prop) (l : Language Kind) : Prop := ∀ w ∈ l, q (w.headD .eof)

namespace Begins

variable {q r : Kind → Prop} {l m : Language Kind}

theorem mono (h : Begins q l) (hqr : ∀ k, q k → r k) : Begins r l :=
  fun w hw => hqr _ (h w hw)

/-- A word that begins with another kind is not in the language. -/
theorem notMem {w : List Kind} (h : Begins q l) (hw : ¬ q (w.headD .eof)) : w ∉ l :=
  fun hl => hw (h w hl)

theorem add (hl : Begins q l) (hm : Begins q m) : Begins q (l + m) :=
  fun w hw => hw.elim (hl w) (hm w)

theorem kind_mul {k : Kind} (h : q k) (l : Language Kind) : Begins q ({[k]} * l) := by
  intro w hw
  obtain ⟨u, _, rfl⟩ := mem_kind_mul.1 hw
  exact h

theorem kinds_mul {s : KindSet} (h : ∀ k ∈ s, q k) (l : Language Kind) :
    Begins q (s.language * l) := by
  intro w hw
  obtain ⟨k, hk, u, _, rfl⟩ := mem_kinds_mul.1 hw
  exact h k hk

theorem option_mul (hm : Begins q (m * l)) (hl : Begins q l) : Begins q ((1 + m) * l) := by
  rw [add_mul, one_mul]
  exact hl.add hm

/-- A phrase that cannot be left out comes first. -/
theorem phrase_mul {p : Phrase} (hp : p.nullable = false) (h : ∀ k ∈ p.first, q k)
    (l : Language Kind) : Begins q (p.language * l) := by
  intro w hw
  obtain ⟨u, hu, v, _, rfl⟩ := Language.mem_mul.1 hw
  obtain ⟨k, _, rfl, hk⟩ := Phrase.exists_cons_of_derives hu hp
  exact h k hk

/-- A phrase that can be left out comes first, or what is behind it does. -/
theorem nullable_mul {p : Phrase} (h : ∀ k ∈ p.first, q k) (hl : Begins q l) :
    Begins q (p.language * l) := by
  intro w hw
  obtain ⟨u, hu, v, hv, rfl⟩ := Language.mem_mul.1 hw
  rcases Phrase.Derives.nil_or_first hu with ⟨rfl, _⟩ | ⟨k, _, rfl, hk⟩
  · exact hl v hv
  · exact h k hk

end Begins

/-- The first kind of a word picks the member of a set that it begins with. -/
theorem mem_kind_mul_of_kinds {s : KindSet} {l : Language Kind} {w : List Kind} {k : Kind}
    (h : w ∈ s.language * l) (hk : w.headD .eof = k) : w ∈ ({[k]} : Language Kind) * l := by
  obtain ⟨_, _, u, hu, rfl⟩ := mem_kinds_mul.1 h
  exact mem_kind_mul.2 ⟨u, hu, by rw [← hk]; rfl⟩

theorem language_single (k : Kind) : (single k).language = {[k]} := by
  ext w
  constructor
  · rintro ⟨j, hj, rfl⟩
    obtain rfl : k = j := by simpa [mem_iff] using hj
    rfl
  · rintro rfl
    exact ⟨k, by simp [mem_iff], rfl⟩

theorem kind_le_kinds {s : KindSet} {k : Kind} (h : k ∈ s) :
    ({[k]} : Language Kind) ≤ s.language := by
  rintro _ rfl
  exact ⟨k, h, rfl⟩

/-- The operators that join two operands. -/
def KindSet.binaryOps : KindSet := relationalOps ∪ (additiveOps ∪ multiplicativeOps)

/-- What ends the statements of a program. -/
def KindSet.statementEnds : KindSet := ofList [.dot, .kwElse, .kwEnd]

namespace Goal

/-! ## Languages -/

/-- The words of a goal. -/
def language : Goal → Language Kind
  | program => Phrase.program.language
  | body _ => Phrase.body.language
  | declarations _ => Phrase.declaration.language * Phrase.declarations.language
  | moreDeclarations _ => Phrase.declarations.language
  | declaration _ => Phrase.declaration.language
  | moreNames _ => Phrase.names
  | statements _ => Phrase.statements.language
  | moreStatements _ => 1 + {[.semicolon]} * Phrase.statements.language
  | statement _ => Phrase.statement.language
  | otherCase => 1 + {[.kwElse]} * Phrase.body.language
  | expression _ => Phrase.expression.language
  | comparison _ => 1 + relationalOps.language * Phrase.simpleExpression.language
  | simpleExpression _ => Phrase.simpleExpression.language
  | moreTerms _ => 1 + additiveOps.language * Phrase.simpleExpression.language
  | term _ => Phrase.term.language
  | moreFactors _ => 1 + multiplicativeOps.language * Phrase.term.language
  | factor _ => Phrase.factor.language
  | operand _ _ => Phrase.operand.language
  | relationalOperator _ => relationalOps.language
  | unaryOperator _ => unaryOps.language
  | token kind _ _ => {[kind]}

/-- The words of an agenda: a word of each goal, one after the other. -/
def languages (gs : List Goal) : Language Kind := (gs.map language).prod

@[simp] theorem languages_nil : languages [] = 1 := rfl

@[simp]
theorem languages_cons (g : Goal) (gs : List Goal) :
    languages (g :: gs) = g.language * languages gs :=
  List.prod_cons

theorem languages_singleton (g : Goal) : languages [g] = g.language := List.prod_singleton

@[simp]
theorem languages_append (gs hs : List Goal) :
    languages (gs ++ hs) = languages gs * languages hs := by
  simp [languages]

/-- Every goal can be written. -/
theorem exists_mem_language (g : Goal) : ∃ w, w ∈ g.language := by
  cases g with
  | declarations =>
    obtain ⟨u, hu⟩ := Phrase.declaration.language_nonempty
    exact ⟨_, Language.append_mem_mul hu Phrase.Derives.noDeclarations⟩
  | moreNames => exact ⟨[], Language.nil_mem_kstar _⟩
  | moreStatements | otherCase | comparison | moreTerms | moreFactors => exact ⟨[], .inl rfl⟩
  | relationalOperator => exact ⟨[.eq], .eq, by decide, rfl⟩
  | unaryOperator => exact ⟨[.minus], .minus, by decide, rfl⟩
  | token kind => exact ⟨[kind], rfl⟩
  | program | body | moreDeclarations | declaration | statements | statement | expression
  | simpleExpression | term | factor | operand => exact Phrase.language_nonempty _

theorem exists_mem_languages (gs : List Goal) : ∃ w, w ∈ languages gs := by
  induction gs with
  | nil => exact ⟨[], rfl⟩
  | cons g gs ih =>
    obtain ⟨u, hu⟩ := g.exists_mem_language
    obtain ⟨w, hw⟩ := ih
    rw [languages_cons]
    exact ⟨_, Language.append_mem_mul hu hw⟩

/-! ## What may follow -/

/-- Whether the words of `l` may follow a goal. None of them may begin as if the
    goal went on. Statements need their own follow set: a semicolon is left out
    only before its members. -/
def Fits (l : Language Kind) : Goal → Prop
  | program | statement _ => False
  | body follow | statements follow | moreStatements follow =>
    (∀ k ∈ follow, k ∈ statementEnds) ∧ Begins (· ∈ follow) l
  | declarations _ | moreDeclarations _ => Begins (· ∉ declarationStart) l
  | moreNames _ => Begins (· ≠ .comma) l
  | otherCase => Begins (· = .kwEnd) l
  | expression _ | comparison _ => Begins (· ∉ binaryOps) l
  | simpleExpression _ | moreTerms _ => Begins (· ∉ additiveOps ∪ multiplicativeOps) l
  | term _ | moreFactors _ => Begins (· ∉ multiplicativeOps) l
  | operand wanted _ => wanted = operandStart
  | token kind _ _ => kind ≠ .eof
  | declaration _ | factor _ | relationalOperator _ | unaryOperator _ => True

/-- Whether every goal of an agenda fits what is behind it. -/
def AllFit (l : Language Kind) : List Goal → Prop
  | [] => True
  | g :: gs => g.Fits (languages gs * l) ∧ AllFit l gs

theorem allFit_singleton {l : Language Kind} {g : Goal} : AllFit l [g] ↔ g.Fits l := by
  rw [AllFit, languages_nil, one_mul]
  exact and_iff_left trivial

theorem allFit_append {l : Language Kind} {gs hs : List Goal} :
    AllFit l (gs ++ hs) ↔ AllFit (languages hs * l) gs ∧ AllFit l hs := by
  induction gs with
  | nil => simp [AllFit]
  | cons g gs ih => simp [AllFit, ih, and_assoc, mul_assoc]

end Goal

end TinyLang

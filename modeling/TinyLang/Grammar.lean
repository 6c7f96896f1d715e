import TinyLang.Kind

/-!
# The grammar

Which sequences of kinds are phrases of the language, told apart from any way to
recognise them. `Phrase.Derives` relates a kind of phrase to the sequences of
token kinds that it can be written with; a program is a sequence that
`Phrase.program` derives. The kinds that stand for each other in a rule, such as
the operators that join terms, are told one by one (`Kind.IsAdditive`).

No phrase holds the end of the input (`Phrase.Derives.eof_notMem`).
-/

namespace TinyLang

namespace Kind

/-- A type. -/
def IsType (k : Kind) : Prop := k = kwBool ∨ k = kwInt

/-- An operator that compares two sums. -/
def IsRelational (k : Kind) : Prop :=
  k = lt ∨ k = ltEq ∨ k = eq ∨ k = notEq ∨ k = gtEq ∨ k = gt

/-- An operator that joins terms. -/
def IsAdditive (k : Kind) : Prop := k = plus ∨ k = minus ∨ k = kwOr

/-- An operator that joins factors. -/
def IsMultiplicative (k : Kind) : Prop := k = star ∨ k = slash ∨ k = kwMod ∨ k = kwAnd

/-- An operator that stands before an operand. -/
def IsUnary (k : Kind) : Prop := k = minus ∨ k = kwNot

instance : DecidablePred IsType := fun _ => inferInstanceAs (Decidable (_ ∨ _))

instance : DecidablePred IsRelational := fun _ => inferInstanceAs (Decidable (_ ∨ _))

instance : DecidablePred IsAdditive := fun _ => inferInstanceAs (Decidable (_ ∨ _))

instance : DecidablePred IsMultiplicative := fun _ => inferInstanceAs (Decidable (_ ∨ _))

instance : DecidablePred IsUnary := fun _ => inferInstanceAs (Decidable (_ ∨ _))

end Kind

/-- The kinds of phrases. -/
inductive Phrase where
  | program
  | body
  | declarations
  | declaration
  | statements
  | statement
  | expression
  | simpleExpression
  | term
  | factor
  | operand
deriving DecidableEq, Repr

namespace Phrase

/-- The sequences of kinds that a phrase is written with. -/
inductive Derives : Phrase → List Kind → Prop
  /-- A program has a header, a body, and a dot. -/
  | program {b : List Kind} : Derives body b →
      Derives program ([.kwProgram, .ident, .colon] ++ b ++ [.dot])
  /-- A body is declarations and statements, either of which there may be none of. -/
  | body {ds ss : List Kind} : Derives declarations ds → Derives statements ss →
      Derives body (ds ++ ss)
  /-- There may be no declaration. -/
  | noDeclarations : Derives declarations []
  /-- One declaration comes after the other. -/
  | moreDeclarations {d ds : List Kind} : Derives declaration d → Derives declarations ds →
      Derives declarations (d ++ ds)
  /-- A declaration has a type, names with commas between, and a semicolon. -/
  | declaration {t : Kind} (n : Nat) : t.IsType →
      Derives declaration
        ([t, .ident] ++ (List.replicate n [Kind.comma, .ident]).flatten ++ [.semicolon])
  /-- There may be no statement. -/
  | noStatements : Derives statements []
  /-- The last statement needs no semicolon. -/
  | lastStatement {s : List Kind} : Derives statement s → Derives statements s
  /-- Any other statement has one behind it. -/
  | moreStatements {s ss : List Kind} : Derives statement s → Derives statements ss →
      Derives statements (s ++ .semicolon :: ss)
  /-- An assignment. -/
  | assignment {e : List Kind} : Derives expression e →
      Derives statement ([.ident, .assign] ++ e)
  /-- A conditional with one case. -/
  | oneCase {e b : List Kind} : Derives expression e → Derives body b →
      Derives statement ([.kwIf] ++ e ++ [.kwThen] ++ b ++ [.kwEnd])
  /-- A conditional with two cases. -/
  | twoCases {e b c : List Kind} : Derives expression e → Derives body b → Derives body c →
      Derives statement ([.kwIf] ++ e ++ [.kwThen] ++ b ++ [.kwElse] ++ c ++ [.kwEnd])
  /-- A loop. -/
  | loop {e ss : List Kind} : Derives expression e → Derives statements ss →
      Derives statement ([.kwWhile] ++ e ++ [.kwDo] ++ ss ++ [.kwEnd])
  /-- A print statement. -/
  | print {e : List Kind} : Derives expression e → Derives statement ([.kwPrint] ++ e)
  /-- An expression without comparison. -/
  | sum {s : List Kind} : Derives simpleExpression s → Derives expression s
  /-- A comparison of two sums. -/
  | comparison {s t : List Kind} {op : Kind} : Derives simpleExpression s →
      op.IsRelational → Derives simpleExpression t → Derives expression (s ++ op :: t)
  /-- A sum of one term. -/
  | lastTerm {t : List Kind} : Derives term t → Derives simpleExpression t
  /-- A sum of a term and a sum. -/
  | moreTerms {t s : List Kind} {op : Kind} : Derives term t → op.IsAdditive →
      Derives simpleExpression s → Derives simpleExpression (t ++ op :: s)
  /-- A term of one factor. -/
  | lastFactor {f : List Kind} : Derives factor f → Derives term f
  /-- A term of a factor and a term. -/
  | moreFactors {f t : List Kind} {op : Kind} : Derives factor f → op.IsMultiplicative →
      Derives term t → Derives term (f ++ op :: t)
  /-- A factor without operator. -/
  | plain {o : List Kind} : Derives operand o → Derives factor o
  /-- A factor with an operator before its operand. -/
  | unary {o : List Kind} {op : Kind} : op.IsUnary → Derives operand o →
      Derives factor (op :: o)
  /-- An expression in parentheses. -/
  | parentheses {e : List Kind} : Derives expression e →
      Derives operand ([.lparen] ++ e ++ [.rparen])
  /-- A name. -/
  | name : Derives operand [.ident]
  /-- A number. -/
  | number : Derives operand [.num]
  /-- A factor behind `mod`. -/
  | modulus {f : List Kind} : Derives factor f → Derives operand (.kwMod :: f)

/-- What a program starts and ends with is in no other phrase, nor is the end of the input. -/
theorem Derives.notMem {p : Phrase} {w : List Kind} {k : Kind} (h : Derives p w)
    (hp : p ≠ .program) (hk : k = .kwProgram ∨ k = .dot ∨ k = .eof) : k ∉ w := by
  have hne : ∀ op : Kind, op.IsType ∨ op.IsRelational ∨ op.IsAdditive ∨ op.IsMultiplicative ∨
      op.IsUnary → k ≠ op := by
    rintro op hop rfl
    rcases hk with rfl | rfl | rfl <;> exact absurd hop (by decide)
  induction h with
  | program => exact absurd rfl hp
  | parentheses _ ih | assignment _ ih | print _ ih | modulus _ ih =>
    rcases hk with rfl | rfl | rfl <;> simp [ih nofun]
  | body _ _ ih₁ ih₂ | moreDeclarations _ _ ih₁ ih₂ | moreStatements _ _ ih₁ ih₂
  | oneCase _ _ ih₁ ih₂ | loop _ _ ih₁ ih₂ =>
    rcases hk with rfl | rfl | rfl <;> simp [ih₁ nofun, ih₂ nofun]
  | twoCases _ _ _ ih₁ ih₂ ih₃ =>
    rcases hk with rfl | rfl | rfl <;> simp [ih₁ nofun, ih₂ nofun, ih₃ nofun]
  | declaration n ht =>
    have ht := hne _ (.inl ht)
    rcases hk with rfl | rfl | rfl <;> simp [ht]
  | noDeclarations | noStatements => exact List.not_mem_nil
  | name | number => rcases hk with rfl | rfl | rfl <;> decide
  | lastStatement _ ih | sum _ ih | lastTerm _ ih | lastFactor _ ih | plain _ ih => exact ih nofun
  | comparison _ hop _ ih₁ ih₂ => simp [ih₁ nofun, ih₂ nofun, hne _ (.inr (.inl hop))]
  | moreTerms _ hop _ ih₁ ih₂ => simp [ih₁ nofun, ih₂ nofun, hne _ (.inr (.inr (.inl hop)))]
  | moreFactors _ hop _ ih₁ ih₂ =>
    simp [ih₁ nofun, ih₂ nofun, hne _ (.inr (.inr (.inr (.inl hop))))]
  | unary hop _ ih => simp [ih nofun, hne _ (.inr (.inr (.inr (.inr hop))))]

/-- The end of the input is in no phrase. -/
theorem Derives.eof_notMem {p : Phrase} {w : List Kind} (h : Derives p w) : Kind.eof ∉ w := by
  by_cases hp : p = .program
  · subst hp
    cases h with
    | program hb => simp [hb.notMem nofun (.inr (.inr rfl))]
  · exact h.notMem hp (.inr (.inr rfl))

end Phrase

end TinyLang

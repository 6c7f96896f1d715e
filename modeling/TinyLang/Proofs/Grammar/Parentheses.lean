import TinyLang.Proofs.Grammar.Language

/-!
# Operators outside parentheses

A sum has no relational operator outside its parentheses, and a comparison has one
(`Phrase.outside_sum`, `Phrase.outside_comparison`). To find these operators a word is
read from left to right with a count of the parentheses that are open (`KindSet.outside`); a
word of an expression leaves that count as it was (`Phrase.Derives.passes`).
-/

namespace TinyLang

open KindSet

/-- The number of parentheses that are open behind a kind, if `depth` are before it. -/
def Kind.depthAfter (depth : Nat) : Kind → Nat
  | .lparen => depth + 1
  | .rparen => depth - 1
  | _ => depth

/-- Whether a kind of the set is outside the parentheses of a word, `depth` of which are open
    before it. -/
def KindSet.outside (s : KindSet) : Nat → List Kind → Bool
  | _, [] => false
  | depth, k :: w => (depth == 0 && s.contains k) || s.outside (k.depthAfter depth) w

theorem Kind.depthAfter_of_ne {k : Kind} (hl : k ≠ .lparen) (hr : k ≠ .rparen) (depth : Nat) :
    k.depthAfter depth = depth := by
  cases k with
  | lparen => exact absurd rfl hl
  | rparen => exact absurd rfl hr
  | _ => rfl

namespace Phrase

/-- A kind that is neither a parenthesis nor a relational operator is passed over. -/
theorem outside_cons_of_mem {s : KindSet} {k : Kind} (h : k ∈ s)
    (hs : ∀ k ∈ s, k ≠ .lparen ∧ k ≠ .rparen ∧ k ∉ relationalOps) (depth : Nat)
    (w : List Kind) : relationalOps.outside depth (k :: w) = relationalOps.outside depth w := by
  obtain ⟨hl, hr, hrel⟩ := hs k h
  have hcontains : relationalOps.contains k = false := Bool.eq_false_iff.2 hrel
  rw [KindSet.outside, Kind.depthAfter_of_ne hl hr, hcontains, Bool.and_false, Bool.false_or]

/-- Whether a word of a phrase makes no difference to what is outside parentheses behind it. For
    an expression this is so only where parentheses are open before it. -/
def Passes : Phrase → List Kind → Prop
  | expression, w => ∀ depth rest,
    relationalOps.outside (depth + 1) (w ++ rest) = relationalOps.outside (depth + 1) rest
  | simpleExpression, w | term, w | factor, w | operand, w => ∀ depth rest,
    relationalOps.outside depth (w ++ rest) = relationalOps.outside depth rest
  | _, _ => True

theorem Derives.passes {p : Phrase} {w : List Kind} (h : p.Derives w) : p.Passes w := by
  induction h with
  | program | body | noDeclarations | moreDeclarations | declaration | noStatements
  | lastStatement | moreStatements | assignment | oneCase | twoCases | loop | print => trivial
  | sum _ ih => exact fun depth rest => ih (depth + 1) rest
  | @comparison s t op _ hop _ ihs iht =>
    intro depth rest
    have hparens : ∀ op ∈ relationalOps, op ≠ .lparen ∧ op ≠ .rparen := by decide
    obtain ⟨hl, hr⟩ := hparens op (mem_relationalOps.2 hop)
    calc relationalOps.outside (depth + 1) (s ++ op :: t ++ rest)
        = relationalOps.outside (depth + 1) (op :: (t ++ rest)) := by
          rw [List.append_assoc, ihs, List.cons_append]
      _ = relationalOps.outside (depth + 1) (t ++ rest) := by
          rw [KindSet.outside, Kind.depthAfter_of_ne hl hr]
          rfl
      _ = relationalOps.outside (depth + 1) rest := iht (depth + 1) rest
  | lastTerm _ ih | lastFactor _ ih | plain _ ih => exact ih
  | moreTerms _ hop _ ih₁ ih₂ =>
    intro depth rest
    rw [List.append_assoc, ih₁, List.cons_append,
      outside_cons_of_mem (mem_additiveOps.2 hop) (by decide), ih₂]
  | moreFactors _ hop _ ih₁ ih₂ =>
    intro depth rest
    rw [List.append_assoc, ih₁, List.cons_append,
      outside_cons_of_mem (mem_multiplicativeOps.2 hop) (by decide), ih₂]
  | unary hop _ ih =>
    intro depth rest
    rw [List.cons_append, outside_cons_of_mem (mem_unaryOps.2 hop) (by decide), ih]
  | @parentheses e _ ih =>
    intro depth rest
    calc relationalOps.outside depth ([.lparen] ++ e ++ [.rparen] ++ rest)
        = relationalOps.outside (depth + 1) (e ++ .rparen :: rest) := by
          have hparen : relationalOps.contains .lparen = false := by decide
          rw [List.append_assoc, List.append_assoc, List.singleton_append, List.singleton_append,
            KindSet.outside, hparen, Bool.and_false, Bool.false_or]
          rfl
      _ = relationalOps.outside (depth + 1) (.rparen :: rest) := ih depth _
      _ = relationalOps.outside depth rest := rfl
  | name => exact outside_cons_of_mem (s := single .ident) (by decide) (by decide)
  | number => exact outside_cons_of_mem (s := single .num) (by decide) (by decide)
  | modulus _ ih =>
    intro depth rest
    rw [List.cons_append, outside_cons_of_mem (s := multiplicativeOps) (by decide) (by decide), ih]

/-- A sum has no relational operator outside its parentheses. -/
theorem outside_sum {s : List Kind} (h : simpleExpression.Derives s) :
    relationalOps.outside 0 s = false := by
  have hpasses := h.passes 0 []
  rwa [List.append_nil] at hpasses

/-- A comparison has one. -/
theorem outside_comparison {s : List Kind} {op : Kind} (h : simpleExpression.Derives s)
    (hop : op ∈ relationalOps) (t : List Kind) :
    relationalOps.outside 0 (s ++ op :: t) = true := by
  have hcontains : relationalOps.contains op = true := hop
  rw [h.passes 0 (op :: t), KindSet.outside, hcontains]
  rfl

end Phrase

end TinyLang

import TinyLang.Parser.State

/-!
# Goals

What a parser still has to recognise is a list of goals, its agenda. A goal is
a phrase of the grammar, a part of one, or a single token. Most goals carry the
kinds that may come after what they stand for; these are where a parser resumes
after an error.

A step on the first goal either stops the parser or replaces the goal by others
(`Parser.step`). The grammar of the phrases:

* a program is `program`, a name, a colon, a body and a dot;
* a body is declarations, if any, and statements;
* a declaration is `bool` or `int`, names with commas between, and a semicolon;
* a statement is a name, `:=` and an expression; or `if`, an expression, `then`
  and a body, `else` and a body if there is another case, and `end`; or
  `while`, an expression, `do`, statements and `end`; or `print` and an
  expression;
* a semicolon comes after a statement, but may be left out at the end of the
  statements;
* an expression is a sum, or two with a relational operator between;
* a sum is terms with additive operators between, a term is factors with
  multiplicative operators between;
* a factor is an operand with at most one unary operator before it; an operand
  is an expression in parentheses, a name, a number, or `mod` and a factor.
-/

namespace TinyLang

/-- Something that a parser has to recognise. -/
inductive Goal where
  /-- A program, after whatever comes before it. -/
  | program
  /-- Declarations, if any, and statements. -/
  | body (follow : KindSet)
  /-- At least one declaration. -/
  | declarations (follow : KindSet)
  /-- Any number of further declarations. -/
  | moreDeclarations (follow : KindSet)
  /-- One declaration. -/
  | declaration (follow : KindSet)
  /-- Any number of further names, with a comma before each. -/
  | moreNames (follow : KindSet)
  /-- Any number of statements. -/
  | statements (follow : KindSet)
  /-- What separates a statement from the next one, and further statements. -/
  | moreStatements (follow : KindSet)
  /-- One statement. -/
  | statement (follow : KindSet)
  /-- The other case of a conditional, if there is one. -/
  | otherCase
  /-- An expression. -/
  | expression (follow : KindSet)
  /-- A relational operator and a second sum, if there is one. -/
  | comparison (follow : KindSet)
  /-- A sum. -/
  | simpleExpression (follow : KindSet)
  /-- Any number of further terms, with an additive operator before each. -/
  | moreTerms (follow : KindSet)
  /-- A term. -/
  | term (follow : KindSet)
  /-- Any number of further factors, with a multiplicative operator before each. -/
  | moreFactors (follow : KindSet)
  /-- A factor. -/
  | factor (follow : KindSet)
  /-- An operand, where any of `wanted` could come. -/
  | operand (wanted follow : KindSet)
  /-- A relational operator. -/
  | relationalOperator (follow : KindSet)
  /-- A unary operator. -/
  | unaryOperator (follow : KindSet)
  /-- One token, for a rule. -/
  | token (kind : Kind) (rule : Rule) (follow : KindSet)
deriving DecidableEq, Repr

namespace Goal

/-- An upper bound for the number of steps that a goal takes without matching a
    token. -/
def weight : Goal → Nat
  | program => 10
  | body _ => 5
  | declarations _ => 3
  | moreStatements _ => 3
  | expression _ => 17
  | comparison _ => 9
  | simpleExpression _ => 7
  | term _ => 5
  | factor _ => 3
  | _ => 1

/-- The weight of an agenda. -/
def totalWeight : List Goal → Nat
  | [] => 0
  | g :: gs => g.weight + totalWeight gs

@[simp] theorem totalWeight_nil : totalWeight [] = 0 := rfl

@[simp]
theorem totalWeight_cons (g : Goal) (gs : List Goal) :
    totalWeight (g :: gs) = g.weight + totalWeight gs := rfl

@[simp]
theorem totalWeight_append (gs hs : List Goal) :
    totalWeight (gs ++ hs) = totalWeight gs + totalWeight hs := by
  induction gs with
  | nil => simp
  | cons g gs ih => simp [ih, Nat.add_assoc]

theorem weight_pos (g : Goal) : 0 < g.weight := by
  cases g <;> simp [weight]

end Goal

end TinyLang

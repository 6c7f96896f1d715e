import TinyLang.Kind

/-!
# Sets of kinds

A set of kinds is a word with one bit for each kind. No other bit of the word is
ever set, so two sets with the same members are equal (`KindSet.ext_contains`),
however they were built. A set is listed in the order of the kinds.
-/

namespace TinyLang

/-- A set of kinds: bit `k.index` is set iff `k` is a member. -/
structure KindSet where
  /-- The members, a bit for each. -/
  bits : BitVec 64
  /-- A bit behind those of the kinds is not set. -/
  clear : ∀ i, 35 ≤ i → bits.getLsbD i = false
deriving DecidableEq, Repr

namespace KindSet

/-- The set without members. -/
def empty : KindSet := ⟨0#64, fun _ _ => BitVec.getLsbD_zero⟩

instance : EmptyCollection KindSet := ⟨empty⟩

instance : Inhabited KindSet := ⟨empty⟩

/-- Whether a kind is a member. -/
def contains (s : KindSet) (k : Kind) : Bool := s.bits.getLsbD k.index

instance : Membership Kind KindSet := ⟨fun s k => s.contains k = true⟩

instance (k : Kind) (s : KindSet) : Decidable (k ∈ s) :=
  inferInstanceAs (Decidable (s.contains k = true))

/-- The set with one more member. -/
def insert (s : KindSet) (k : Kind) : KindSet where
  bits := s.bits ||| BitVec.twoPow 64 k.index
  clear i hi := by
    have hk := k.index_lt
    simp only [BitVec.getLsbD_or, BitVec.getLsbD_twoPow, s.clear i hi, Bool.false_or,
      Bool.and_eq_false_iff, decide_eq_false_iff_not]
    omega

/-- The set with one member. -/
def single (k : Kind) : KindSet := empty.insert k

/-- The members of either set. -/
def union (s t : KindSet) : KindSet where
  bits := s.bits ||| t.bits
  clear i hi := by rw [BitVec.getLsbD_or, s.clear i hi, t.clear i hi, Bool.or_false]

instance : Union KindSet := ⟨union⟩

/-- The set of the kinds in a list. -/
def ofList (ks : List Kind) : KindSet := ks.foldl insert empty

/-- The members, each once, in the order of the kinds. -/
def toList (s : KindSet) : List Kind := Kind.all.filter s.contains

/-- The number of members, that of the bits that are set. -/
def size (s : KindSet) : Nat := s.bits.cpop.toNat

/-- Whether there is no member. -/
def isEmpty (s : KindSet) : Bool := s.bits == 0#64

/-- A set is written for a reader as the tags of its members with `or` between. -/
def render (s : KindSet) : String := " or ".intercalate (s.toList.map Kind.tag)

/-- A set is described by the names of its members in braces. -/
def describe (s : KindSet) : String :=
  "\x7b" ++ ", ".intercalate (s.toList.map Kind.name) ++ "\x7d"

/-! ## Membership -/

theorem mem_iff {k : Kind} {s : KindSet} : k ∈ s ↔ s.contains k = true := Iff.rfl

@[simp]
theorem contains_empty (k : Kind) : empty.contains k = false := by
  simp [contains, empty]

@[simp]
theorem contains_insert (s : KindSet) (k l : Kind) :
    (s.insert k).contains l = (s.contains l || k == l) := by
  have hl : l.index < 64 := Nat.lt_trans l.index_lt (by decide)
  by_cases h : k = l
  · simp [contains, insert, h, hl]
  · simp [contains, insert, h, Ne.symm h, hl]

@[simp]
theorem contains_single (k l : Kind) : (single k).contains l = (k == l) := by
  simp [single]

@[simp]
theorem contains_union (s t : KindSet) (k : Kind) :
    (s ∪ t).contains k = (s.contains k || t.contains k) := by
  show (union s t).contains k = _
  simp [contains, union]

/-- Sets with the same members are equal. -/
theorem ext_contains {s t : KindSet} (h : ∀ k, s.contains k = t.contains k) : s = t := by
  obtain ⟨s, hs⟩ := s
  obtain ⟨t, ht⟩ := t
  congr 1
  apply BitVec.eq_of_getLsbD_eq
  intro i _
  by_cases hi : i < 35
  · obtain ⟨k, rfl⟩ := Kind.exists_index_eq hi
    exact h k
  · rw [hs i (Nat.le_of_not_lt hi), ht i (Nat.le_of_not_lt hi)]

@[simp]
theorem mem_toList {k : Kind} {s : KindSet} : k ∈ s.toList ↔ s.contains k = true := by
  simp [toList, Kind.mem_all]

/-- A set gives its members in the order of the kinds, so none of them twice. -/
theorem pairwise_toList (s : KindSet) : s.toList.Pairwise fun k l => k.index < l.index :=
  Kind.pairwise_all.filter _

/-- A set without bits that are set is the one without members. -/
theorem isEmpty_iff {s : KindSet} : s.isEmpty = true ↔ ∀ k, s.contains k = false := by
  refine ⟨fun h k => ?_, fun h => ?_⟩
  · rw [contains, beq_iff_eq.1 h]
    exact BitVec.getLsbD_zero
  · have hempty : s = empty := ext_contains fun k => by rw [h k, contains_empty]
    rw [hempty]
    rfl

end KindSet

/-! ## First sets

The kinds with which the phrases of the language begin, and the operators.
-/

namespace KindSet

/-- What starts a declaration. -/
def declarationStart : KindSet := ofList [.kwBool, .kwInt]

/-- What starts a statement in a list of statements. -/
def statementStart : KindSet := ofList [.ident, .kwIf, .kwWhile, .kwPrint]

/-- What starts a statement asked for on its own: a lone dot counts as one. -/
def statementForms : KindSet := statementStart.insert .dot

/-- The operators that compare two sums. -/
def relationalOps : KindSet := ofList [.lt, .ltEq, .eq, .notEq, .gtEq, .gt]

/-- The operators that join terms. -/
def additiveOps : KindSet := ofList [.plus, .minus, .kwOr]

/-- The operators that join factors. -/
def multiplicativeOps : KindSet := ofList [.star, .slash, .kwMod, .kwAnd]

/-- The operators that stand before an operand. -/
def unaryOps : KindSet := ofList [.minus, .kwNot]

/-- What starts an operand. -/
def operandStart : KindSet := ofList [.lparen, .ident, .num, .kwMod]

/-- What starts a factor: an operand, or an operator before one. -/
def factorStart : KindSet := operandStart ∪ unaryOps

/-- What starts a body that is not empty. -/
def bodyStart : KindSet := declarationStart ∪ statementStart

/-- What ends a case of a conditional. -/
def caseClosers : KindSet := ofList [.kwElse, .kwEnd]

/-- What ends any list of statements. -/
def listClosers : KindSet := ofList [.dot, .eof]

end KindSet

end TinyLang

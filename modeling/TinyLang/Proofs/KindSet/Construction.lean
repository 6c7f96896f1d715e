import Mathlib.Data.Finset.Card
import Mathlib.Data.List.Sort
import TinyLang.KindSet

/-!
# Sets of kinds as finite sets

A set of kinds is built from smaller ones, by putting kinds in, by taking what is in either of two
sets, or from a list. The word that it is stored in tells the kinds that were put in and nothing
else: not their order, not how often a kind was put in, not which sets were built on the way
(`kindSet_answersAs`).

What a set answers to a question about one kind is told by the bit of that kind. A question about
the whole word is told by the members because no bit is set but theirs: it counts as many bits as
there are members (`KindSet.size_eq_length_toList`), and two words with the same members are equal
(`KindSet.Represents.eq_iff`).
-/

namespace TinyLang

/-! ## Listings -/

namespace Kind

/-- A list has the members of a finite set, each once, in the order of the kinds. -/
structure Lists (l : List Kind) (ks : Finset Kind) : Prop where
  /-- The members are in the list, and nothing else is. -/
  mem_iff : ∀ k, k ∈ l ↔ k ∈ ks
  /-- What is listed first comes first in the order, so nothing is listed twice. -/
  ordered : l.Pairwise fun k k' => k.index < k'.index

variable {l l' : List Kind} {ks : Finset Kind}

theorem Lists.nodup (h : Lists l ks) : l.Nodup :=
  h.ordered.imp fun hlt heq => Nat.ne_of_lt hlt (congrArg index heq)

theorem Lists.length_eq (h : Lists l ks) : l.length = ks.card := by
  have hks : l.toFinset = ks := Finset.ext fun k => List.mem_toFinset.trans (h.mem_iff k)
  rw [← List.toFinset_card_of_nodup h.nodup, hks]

/-- There is one listing of a finite set only. -/
theorem Lists.unique (h : Lists l ks) (h' : Lists l' ks) : l = l' := by
  have hmem : ∀ k, k ∈ l ↔ k ∈ l' := fun k => (h.mem_iff k).trans (h'.mem_iff k).symm
  have hindex : l.map index = l'.map index :=
    (List.pairwise_map.2 h.ordered).eq_of_mem_iff (List.pairwise_map.2 h'.ordered) fun i => by
      simp only [List.mem_map, hmem]
  exact List.map_injective_iff.2 (fun _ _ => index_injective) hindex

end Kind

namespace KindSet

/-! ## The size of a set -/

/-- The bits below `n` that are set are counted one by one. -/
theorem cpopNatRec_eq_countP {w : Nat} (x : BitVec w) (n : Nat) :
    x.cpopNatRec n 0 = (List.range n).countP x.getLsbD := by
  induction n with
  | zero => rfl
  | succ n ih =>
    rw [BitVec.cpopNatRec_succ, BitVec.cpopNatRec_eq, ih, List.range_succ, List.countP_append]
    cases h : x.getLsbD n <;> simp [h]

/-- A set has as many bits set as it has members, since no other bit is set. -/
theorem size_eq_length_toList (s : KindSet) : s.size = s.toList.length := by
  -- the word has 29 bits behind those of the kinds
  have hclear : ((List.range 29).map (35 + ·)).countP s.bits.getLsbD = 0 := by
    refine List.countP_eq_zero.2 fun i hi => ?_
    obtain ⟨j, -, rfl⟩ := List.mem_map.1 hi
    rw [s.clear (35 + j) (Nat.le_add_right 35 j)]
    exact Bool.false_ne_true
  calc s.size = (List.range (35 + 29)).countP s.bits.getLsbD := by
        rw [size, BitVec.toNat_cpop, cpopNatRec_eq_countP]
    _ = (List.range 35).countP s.bits.getLsbD := by
        rw [List.range_add, List.countP_append, hclear, Nat.add_zero]
    _ = (Kind.all.map Kind.index).countP s.bits.getLsbD := by rw [Kind.map_index_all]
    _ = Kind.all.countP s.contains := List.countP_map
    _ = s.toList.length := List.countP_eq_length_filter

/-! ## The finite set that a set of kinds is -/

/-- A set of kinds has the members of a finite set. -/
def Represents (s : KindSet) (ks : Finset Kind) : Prop := ∀ k, s.contains k = true ↔ k ∈ ks

variable {s t : KindSet} {ks ls : Finset Kind}

theorem represents_empty : empty.Represents ∅ := fun k => by simp

theorem Represents.insert (h : s.Represents ks) (k : Kind) :
    (s.insert k).Represents (Insert.insert k ks) := fun l => by
  rw [contains_insert, Bool.or_eq_true, h l, beq_iff_eq, Finset.mem_insert, or_comm, eq_comm]

theorem Represents.union (h : s.Represents ks) (h' : t.Represents ls) :
    (s ∪ t).Represents (ks ∪ ls) := fun k => by
  rw [contains_union, Bool.or_eq_true, h k, h' k, Finset.mem_union]

theorem represents_single (k : Kind) : (single k).Represents {k} :=
  represents_empty.insert k

theorem Represents.foldl_insert (h : s.Represents ks) (l : List Kind) :
    (l.foldl KindSet.insert s).Represents (l.toFinset ∪ ks) := by
  induction l generalizing s ks with
  | nil => rwa [List.foldl_nil, List.toFinset_nil, Finset.empty_union]
  | cons k l ih =>
    rw [List.foldl_cons, List.toFinset_cons, Finset.insert_union, ← Finset.union_insert]
    exact ih (h.insert k)

theorem represents_ofList (l : List Kind) : (ofList l).Represents l.toFinset := by
  rw [ofList, ← Finset.union_empty l.toFinset]
  exact represents_empty.foldl_insert l

namespace Represents

theorem lists (h : s.Represents ks) : Kind.Lists s.toList ks :=
  ⟨fun k => mem_toList.trans (h k), s.pairwise_toList⟩

theorem isEmpty_iff (h : s.Represents ks) : s.isEmpty = true ↔ ks = ∅ := by
  simp only [KindSet.isEmpty_iff, ← Bool.not_eq_true, h _, Finset.eq_empty_iff_forall_notMem]

/-- Words are equal iff they have the same members, however they were built. -/
theorem eq_iff (h : s.Represents ks) (h' : t.Represents ls) : s = t ↔ ks = ls := by
  refine ⟨fun heq => Finset.ext fun k => ?_, fun heq => ext_contains fun k => ?_⟩
  · rw [← h k, ← h' k, heq]
  · rw [Bool.eq_iff_iff, h k, h' k, heq]

end Represents

/-- Whatever a set of kinds is asked, it answers what a finite set tells. -/
structure AnswersAs (s : KindSet) (ks : Finset Kind) : Prop where
  /-- A kind is a member iff it is one of the finite set. -/
  contains_iff : ∀ k, s.contains k = true ↔ k ∈ ks
  /-- It gives the members, each once, in the order of the kinds. -/
  lists : Kind.Lists s.toList ks
  /-- As many bits are set as there are members. -/
  size_eq : s.size = ks.card
  /-- No bit is set iff there is no member. -/
  isEmpty_iff : s.isEmpty = true ↔ ks = ∅
  /-- It is written as the tags of the members in the order of the kinds, with `or` between. -/
  render_eq : ∀ l, Kind.Lists l ks → s.render = " or ".intercalate (l.map Kind.tag)

theorem Represents.answersAs (h : s.Represents ks) : s.AnswersAs ks where
  contains_iff := h
  lists := h.lists
  size_eq := s.size_eq_length_toList.trans h.lists.length_eq
  isEmpty_iff := h.isEmpty_iff
  render_eq l hl := by rw [render, h.lists.unique hl]

/-! ## Constructions -/

/-- A way to build a set of kinds. A set that is used again stands in it again. -/
inductive Construction where
  /-- The set without members. -/
  | empty
  /-- A set with one member. -/
  | single (k : Kind)
  /-- One more member is put into a set. -/
  | insert (c : Construction) (k : Kind)
  /-- What is in either of two sets. -/
  | union (c d : Construction)
  /-- The kinds of a list, any of them any number of times. -/
  | ofList (l : List Kind)

namespace Construction

/-- The set that is built. -/
def build : Construction → KindSet
  | empty => .empty
  | single k => .single k
  | insert c k => c.build.insert k
  | union c d => c.build ∪ d.build
  | ofList l => .ofList l

/-- The kinds that are put in. -/
def members : Construction → Finset Kind
  | empty => ∅
  | single k => {k}
  | insert c k => Insert.insert k c.members
  | union c d => c.members ∪ d.members
  | ofList l => l.toFinset

theorem represents_build (c : Construction) : c.build.Represents c.members := by
  induction c with
  | empty => exact represents_empty
  | single k => exact represents_single k
  | insert c k ih => exact ih.insert k
  | union c d ihc ihd => exact ihc.union ihd
  | ofList l => exact represents_ofList l

end Construction

end KindSet

/-- However a set of kinds is built, it answers as the finite set of the kinds that were put in,
    and two sets are equal iff the same kinds were put in. -/
theorem kindSet_answersAs (c : KindSet.Construction) :
    c.build.AnswersAs c.members ∧
      ∀ d : KindSet.Construction, (c.build == d.build) = true ↔ c.members = d.members := by
  refine ⟨c.represents_build.answersAs, fun d => ?_⟩
  rw [beq_iff_eq]
  exact c.represents_build.eq_iff d.represents_build

example : KindSet.ofList [.kwEnd, .kwElse, .kwEnd] = .single .kwElse ∪ .single .kwEnd := by decide

end TinyLang

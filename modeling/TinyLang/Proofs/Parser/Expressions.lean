import TinyLang.Proofs.Grammar.Parentheses
import TinyLang.Proofs.Parser.ErrorOrder
import TinyLang.Proofs.Parser.FollowSets

/-!
# Recognition of expressions

A parser that stops at the first error recognises an expression, or an operand of one of its
operators (`Level`), exactly where a word of it stands that does not go on with the kind behind
it (`Level.Continues`), and so where the longest word of it ends (`expression_recognized`).

That a word does not go on is what the loops over factors and terms come to: none of the kinds
with which they go on is behind them (`Parser.run_loop`). That every such word is recognised
follows from `Parser.run_shows`, where the rest of the input may follow it. A comparison is the
one phrase that another operator of its own may follow, so it is told apart into its two sums
(`Parser.run_expression`, `Parser.run_comparison_of_mem`).
-/

namespace TinyLang

open KindSet

/-- The phrases that are expressions, or the operands of their operators. -/
inductive Level where
  | factor
  | term
  | simpleExpression
  | expression

namespace Level

/-- The phrase. -/
def phrase : Level → Phrase
  | factor => .factor
  | term => .term
  | simpleExpression => .simpleExpression
  | expression => .expression

/-- The goal to recognise the phrase. -/
def goal (follow : KindSet) : Level → Goal
  | factor => .factor follow
  | term => .term follow
  | simpleExpression => .simpleExpression follow
  | expression => .expression follow

/-- Whether a word of the phrase is taken to go on with a kind: with an operator that joins such
    phrases. An expression goes on with a relational operator only if it has none yet outside
    parentheses. -/
def Continues : Level → List Kind → Kind → Prop
  | factor, _, _ => False
  | term, _, k => k ∈ multiplicativeOps
  | simpleExpression, _, k => k ∈ multiplicativeOps ∨ k ∈ additiveOps
  | expression, w, k => k ∈ multiplicativeOps ∨ k ∈ additiveOps ∨
      k ∈ relationalOps ∧ relationalOps.outside 0 w = false

end Level

namespace Parser

variable {p q r : Parser} {follow : KindSet} {w rest : List Kind}

/-! ## What is behind an expression -/

/-- What holds before a goal that goes on with kinds of `s` holds after it, if it is kept by each
    part, and none of those kinds is behind it. -/
theorem run_loop {P : Parser → Prop} {s : KindSet} {rule : Rule} {x g : Goal}
    (hmove : ∀ k, g.move k = if s.contains k then .shift rule [x, g] else .expand [])
    (heof : .eof ∉ s)
    (hstep : ∀ p r, P p → p.kind ∈ s → (p.accept rule).run [x] = .completed r → P r)
    (p : Parser) (hp : P p) (h : p.run [g] = .completed q) : P q ∧ q.kind ∉ s := by
  by_cases hk : s.contains p.kind = true
  · have hshift : g.move p.kind = .shift rule ([x] ++ [g]) := by rw [hmove, if_pos hk]; rfl
    rw [run_shift [] hshift, List.append_nil, run_append] at h
    obtain ⟨r, hr, hrun⟩ := Ending.andThen_eq_completed h
    have hne : p.kind ≠ .eof := fun heq => heof (heq ▸ hk)
    have hlt : r.left < p.left := by
      have hle := left_run_le (p.accept rule) [x]
      rw [hr] at hle
      exact Nat.lt_of_le_of_lt hle (left_accept_lt hne rule)
    exact run_loop hmove heof hstep r (hstep p r hp hk hr) hrun
  · have hexpand : g.move p.kind = .expand [] := by rw [hmove, if_neg hk]
    rw [run_expand [] hexpand, List.append_nil, run_nil] at h
    cases h
    exact ⟨hp, hk⟩
termination_by p.left

/-- No multiplicative operator is behind a term. -/
theorem kind_of_run_term (h : p.run [.term follow] = .completed q) :
    q.kind ∉ multiplicativeOps := by
  rw [run_expand [] rfl, List.append_nil] at h
  rw [← List.singleton_append, run_append] at h
  obtain ⟨r, -, hrun⟩ := Ending.andThen_eq_completed h
  exact (run_loop (P := fun _ => True) (fun _ => rfl) (by decide) (fun _ _ _ _ _ => trivial) r
    trivial hrun).2

/-- No operator that joins terms or factors is behind a sum. -/
theorem kind_of_run_simpleExpression (h : p.run [.simpleExpression follow] = .completed q) :
    q.kind ∉ multiplicativeOps ∧ q.kind ∉ additiveOps := by
  rw [run_expand [] rfl, List.append_nil, ← List.singleton_append, run_append] at h
  obtain ⟨r, hr, hrun⟩ := Ending.andThen_eq_completed h
  exact run_loop (P := fun p => p.kind ∉ multiplicativeOps) (fun _ => rfl) (by decide)
    (fun _ _ _ _ h => kind_of_run_term h) r (kind_of_run_term hr) hrun

/-- A comparison goes on behind its operator as a sum does. -/
theorem run_comparison_of_mem (h : p.kind ∈ relationalOps) :
    p.run [.comparison follow] =
      (p.accept .relationalOperator).run [.simpleExpression follow] := by
  have hexpand : (Goal.comparison follow).move p.kind =
      .expand [.relationalOperator (follow ∪ factorStart), .simpleExpression follow] := if_pos h
  have hshift : (Goal.relationalOperator (follow ∪ factorStart)).move p.kind =
      .shift .relationalOperator [] := if_pos h
  rw [run_expand [] hexpand, List.append_nil, run_shift _ hshift, List.nil_append]

/-- An expression is a sum, which a comparison may follow. -/
theorem run_expression (p : Parser) (follow : KindSet) :
    p.run [.expression follow] =
      (p.run [.simpleExpression (follow ∪ relationalOps)]).andThen [.comparison follow] := by
  have hexpand : (Goal.expression follow).move p.kind =
      .expand ([.simpleExpression (follow ∪ relationalOps)] ++ [.comparison follow]) := rfl
  rw [run_expand [] hexpand, List.append_nil, run_append]

theorem run_comparison_of_notMem (h : p.kind ∉ relationalOps) :
    p.run [.comparison follow] = .completed p := by
  have hexpand : (Goal.comparison follow).move p.kind = .expand [] := if_neg h
  rw [run_expand [] hexpand, List.append_nil, run_nil]

/-! ## Single goals -/

section Single

variable {g : Goal}

/-- A run that completes a goal matched a word of it. -/
theorem Shows.exists_matched {l : Language Kind} (h : Shows l [g] p (.completed q)) :
    ∃ w, Matched w p q ∧ w ∈ g.language := by
  cases h with
  | @completed w _ hr =>
    have hsound := hr.sound
    rw [Goal.languages_singleton] at hsound
    exact ⟨w, hr.matched, hsound⟩

/-- A run completes its goals by matching a word of them that the rest of the input may follow. -/
theorem Shows.exists_completed {gs : List Goal} {e : Ending} (h : Shows {rest} gs p e)
    (hw : w ∈ Goal.languages gs) (hinput : p.input = w ++ rest) :
    ∃ q, e = .completed q ∧ Matched w p q := by
  have hmem : p.input ∈ Goal.languages gs * {rest} := by
    rw [hinput]
    exact Language.append_mem_mul hw rfl
  cases h with
  | @completed w' q hr =>
    have hrest : q.input = rest := hr.complete hmem
    have hinput' := hr.matched.input
    rw [hinput, hrest] at hinput'
    obtain rfl := List.append_cancel_right hinput'
    exact ⟨q, rfl, hr.matched⟩
  | @halted w' q expected rule follow hr =>
    rw [hr.matched.input] at hmem
    exact absurd hmem (hr.unwanted _ (headD_input _))

variable (hp : p.options.recovery = .halt)

include hp

/-- A parser that completes a goal matched a word of it. -/
theorem exists_matched (hfit : g.Fits 1) (h : p.run [g] = .completed q) :
    ∃ w, Matched w p q ∧ w ∈ g.language :=
  Shows.exists_matched (h ▸ run_shows p [g] hp (Goal.allFit_singleton.2 hfit))

/-- A parser completes a goal by matching a word of it that the rest of its input may follow. -/
theorem exists_completed (hfit : g.Fits {rest}) (hw : w ∈ g.language)
    (hinput : p.input = w ++ rest) : ∃ q, p.run [g] = .completed q ∧ Matched w p q := by
  rw [← Goal.languages_singleton] at hw
  exact (run_shows p [g] hp (Goal.allFit_singleton.2 hfit)).exists_completed hw hinput

end Single

/-- Behind a word that was matched stands what is behind it in the input. -/
theorem Matched.input_eq (h : Matched w p q) (hinput : p.input = w ++ rest) : q.input = rest :=
  List.append_cancel_left (h.input.symm.trans hinput)

theorem Matched.headD_eq (h : Matched w p q) (hinput : p.input = w ++ rest) :
    rest.headD .eof = q.kind := by
  rw [← headD_input, h.input_eq hinput]

/-- A parser stands at a first kind of the phrase that is ahead. -/
theorem kind_mem_first (φ : Phrase) (hφ : φ.nullable = false) (hw : φ.Derives w)
    (hinput : p.input = w ++ rest) : p.kind ∈ φ.first := by
  obtain ⟨k, u, rfl, hk⟩ := Phrase.exists_cons_of_derives hw hφ
  rwa [← headD_input, hinput]

theorem begins_one {P : Kind → Prop} (h : P .eof) : Begins P 1 := by
  rintro _ rfl
  exact h

theorem begins_singleton {P : Kind → Prop} (h : P (rest.headD .eof)) : Begins P {rest} := by
  rintro _ rfl
  exact h

/-! ## Expressions -/

section Level

variable (hp : p.options.recovery = .halt)

include hp

theorem exists_matched_sum (h : p.run [.simpleExpression follow] = .completed q) :
    ∃ s, Matched s p q ∧ Phrase.simpleExpression.Derives s ∧ q.kind ∉ multiplicativeOps ∧
      q.kind ∉ additiveOps := by
  have hfit : (Goal.simpleExpression follow).Fits 1 := by
    rw [Goal.Fits]
    exact begins_one (by decide)
  obtain ⟨s, hm, hs⟩ := exists_matched hp hfit h
  exact ⟨s, hm, hs, kind_of_run_simpleExpression h⟩

theorem exists_completed_sum (follow : KindSet) {s : List Kind}
    (hs : Phrase.simpleExpression.Derives s) (hinput : p.input = s ++ rest)
    (hmul : rest.headD .eof ∉ multiplicativeOps) (hadd : rest.headD .eof ∉ additiveOps) :
    ∃ q, p.run [.simpleExpression follow] = .completed q ∧ Matched s p q := by
  have hfit : (Goal.simpleExpression follow).Fits {rest} := by
    rw [Goal.Fits]
    refine begins_singleton ?_
    rw [mem_iff, contains_union, Bool.or_eq_true]
    exact not_or.2 ⟨hadd, hmul⟩
  exact exists_completed hp hfit hs hinput

/-- A parser that completes an expression, or an operand, matched a word of it that does not go
    on with what is behind. -/
theorem exists_matched_level (level : Level) (h : p.run [level.goal follow] = .completed q) :
    ∃ w, Matched w p q ∧ level.phrase.Derives w ∧ ¬ level.Continues w q.kind := by
  cases level with
  | factor =>
    have hfit : (Goal.factor follow).Fits 1 := trivial
    obtain ⟨w, hm, hw⟩ := exists_matched hp hfit h
    exact ⟨w, hm, hw, id⟩
  | term =>
    have hfit : (Goal.term follow).Fits 1 := by
      rw [Goal.Fits]
      exact begins_one (by decide)
    obtain ⟨w, hm, hw⟩ := exists_matched hp hfit h
    exact ⟨w, hm, hw, kind_of_run_term h⟩
  | simpleExpression =>
    obtain ⟨s, hm, hs, hmul, hadd⟩ := exists_matched_sum hp h
    exact ⟨s, hm, hs, not_or.2 ⟨hmul, hadd⟩⟩
  | expression =>
    have hsplit := run_expression p follow
    rw [Level.goal, hsplit] at h
    obtain ⟨r, hr, hrun⟩ := Ending.andThen_eq_completed h
    obtain ⟨s, hm, hs, hmul, hadd⟩ := exists_matched_sum hp hr
    -- what was matched is a comparison or a sum, as there is an operator behind the first sum
    by_cases hk : r.kind ∈ relationalOps
    · have hne : r.kind ≠ .eof := fun heq => absurd (heq ▸ hk) (by decide)
      have haccept := matched_accept hne .relationalOperator
      have hoptions := haccept.options.trans hm.options
      rw [run_comparison_of_mem hk] at hrun
      obtain ⟨t, hm', ht, hmul, hadd⟩ := exists_matched_sum (hoptions ▸ hp) hrun
      refine ⟨s ++ r.kind :: t, ?_, .comparison hs (mem_relationalOps.1 hk) ht, ?_⟩
      · have htrans := hm.trans (haccept.trans hm')
        exact htrans
      · rintro (h | h | ⟨-, h⟩)
        · exact hmul h
        · exact hadd h
        · rw [Phrase.outside_comparison hs hk] at h
          cases h
    · rw [run_comparison_of_notMem hk] at hrun
      cases hrun
      refine ⟨s, hm, .sum hs, ?_⟩
      rintro (h | h | ⟨h, -⟩)
      · exact hmul h
      · exact hadd h
      · exact hk h

/-- A parser completes an expression, or an operand, by matching a word of it that does not go
    on with what is behind. -/
theorem exists_completed_level (level : Level) (follow : KindSet)
    (hw : level.phrase.Derives w) (hrest : ¬ level.Continues w (rest.headD .eof))
    (hinput : p.input = w ++ rest) :
    ∃ q, p.run [level.goal follow] = .completed q ∧ Matched w p q := by
  cases level with
  | factor =>
    have hfit : (Goal.factor follow).Fits {rest} := trivial
    exact exists_completed hp hfit hw hinput
  | term =>
    have hfit : (Goal.term follow).Fits {rest} := by
      rw [Goal.Fits]
      exact begins_singleton hrest
    exact exists_completed hp hfit hw hinput
  | simpleExpression =>
    obtain ⟨hmul, hadd⟩ := not_or.1 hrest
    exact exists_completed_sum hp follow hw hinput hmul hadd
  | expression =>
    obtain ⟨hmul, hrest⟩ := not_or.1 hrest
    obtain ⟨hadd, hrel⟩ := not_or.1 hrest
    rw [Level.goal, run_expression]
    cases hw with
    | sum hs =>
      obtain ⟨q, hrun, hm⟩ := exists_completed_sum hp (follow ∪ relationalOps) hs hinput hmul hadd
      have hkind : q.kind ∉ relationalOps := by
        rw [← hm.headD_eq hinput]
        exact fun h => hrel ⟨h, Phrase.outside_sum hs⟩
      rw [hrun]
      exact ⟨q, run_comparison_of_notMem hkind, hm⟩
    | @comparison s t op hs hcompares ht =>
      have hop : op ∈ relationalOps := mem_relationalOps.2 hcompares
      -- the operator joins neither terms nor factors, so the first sum ends before it
      have hsplit : p.input = s ++ op :: (t ++ rest) := by
        rw [hinput, List.append_assoc, List.cons_append]
      have hmul' : ∀ op ∈ relationalOps, op ∉ multiplicativeOps := by decide
      have hadd' : ∀ op ∈ relationalOps, op ∉ additiveOps := by decide
      obtain ⟨r, hrun, hm⟩ :=
        exists_completed_sum hp (follow ∪ relationalOps) hs hsplit (hmul' op hop) (hadd' op hop)
      obtain rfl : op = r.kind := hm.headD_eq hsplit
      have hne : r.kind ≠ .eof := fun heq => absurd (heq ▸ hop) (by decide)
      have haccept := matched_accept hne .relationalOperator
      have hrest' : (r.accept .relationalOperator).input = t ++ rest :=
        haccept.input_eq (hm.input_eq hsplit)
      have hoptions := haccept.options.trans hm.options
      obtain ⟨q, hrun', hm'⟩ := exists_completed_sum (hoptions ▸ hp) follow ht hrest' hmul hadd
      refine ⟨q, ?_, hm.trans (haccept.trans hm')⟩
      rw [hrun, Ending.andThen, run_comparison_of_mem hop]
      exact hrun'

end Level

end Parser

/-! ## Expressions at the start of a list -/

/-- The first `n` tokens of a list are a word of the phrase, which does not go on with the token
    behind them. -/
structure Level.Stands (level : Level) (ts : TokenList) (n : Nat) : Prop where
  le : n ≤ ts.length
  derives : level.phrase.Derives (ts.kinds.take n)
  ends : ¬ level.Continues (ts.kinds.take n) (ts.tokenAt n).kind

namespace Parser

variable {level : Level} {options : Options} {ts : TokenList} {m n : Nat}

theorem headD_input_drop (ts : TokenList) (n : Nat) :
    (TokenList.input (ts.drop n)).headD .eof = (ts.tokenAt n).kind := by
  have hkind : (Parser.kind { options := {}, cursor := (Cursor.ofList ts).skip n }) =
      (ts.tokenAt n).kind := congrArg Token.kind (Cursor.current_skip_ofList ts n)
  rw [← hkind, ← headD_input]
  rfl

/-- Tokens none of which is the end of the input are the first ones of the input. -/
theorem input_eq_of_eof_notMem (h : .eof ∉ ts.kinds.take n) :
    ts.input = ts.kinds.take n ++ TokenList.input (ts.drop n) := by
  have hkinds : ts.kinds.take n = TokenList.kinds (ts.take n) := (List.map_take).symm
  have hne : ∀ t ∈ ts.take n, t.kind ≠ .eof := by
    intro t ht heof
    refine h ?_
    rw [hkinds, ← heof]
    exact List.mem_map_of_mem ht
  have hinput := TokenList.input_append hne (ts.drop n)
  rwa [List.take_append_drop, ← hkinds] at hinput

/-- A parser that stops at the first error completes the goal `g` by matching `w` with a token
    of kind `k` behind it exactly where `Q w k` holds. -/
structure Exact (g : Goal) (Q : List Kind → Kind → Prop) : Prop where
  eof_notMem {w : List Kind} {k : Kind} : Q w k → .eof ∉ w
  sound {p q : Parser} : p.options.recovery = .halt → p.run [g] = .completed q →
    ∃ w, Matched w p q ∧ Q w q.kind
  complete {p : Parser} {w rest : List Kind} : p.options.recovery = .halt →
    Q w (rest.headD .eof) → p.input = w ++ rest →
    ∃ q, p.run [g] = .completed q ∧ Matched w p q

/-- What is exact from wherever a parser stands is so at the start of a list: the goal is
    completed at the first `n` tokens if and only if these and the next one allow it. -/
theorem Exact.completes_iff {g : Goal} {Q : List Kind → Kind → Prop} (hexact : Exact g Q)
    (options : Options) (h : options.recovery = .halt) (ts : TokenList) (n : Nat) :
    ((recognize options g ts).isCompleted = true ∧
      (recognize options g ts).parser.cursor.index = n) ↔
        n ≤ ts.length ∧ Q (ts.kinds.take n) (ts.tokenAt n).kind := by
  constructor
  · rintro ⟨hcompleted, rfl⟩
    cases hrun : recognize options g ts with
    | halted q =>
      rw [hrun] at hcompleted
      cases hcompleted
    | completed q =>
      obtain ⟨w, hm, hw⟩ := hexact.sound h hrun
      have hprefix : w <+: ts.kinds :=
        (List.prefix_append w q.input).trans (hm.input ▸ ts.input_isPrefix)
      have hindex : q.cursor.index = w.length := by
        rw [hm.cursor]
        exact Nat.zero_add _
      have htake : ts.kinds.take q.cursor.index = w := by
        rw [hindex]
        exact (List.prefix_iff_eq_take.1 hprefix).symm
      have hkind : q.kind = (ts.tokenAt q.cursor.index).kind := by
        rw [hindex, kind, hm.cursor]
        exact congrArg Token.kind (Cursor.current_skip_ofList ts w.length)
      refine ⟨?_, ?_⟩
      · have hle := hprefix.length_le
        rw [TokenList.kinds, List.length_map] at hle
        exact hindex ▸ hle
      · rw [Ending.parser, htake, ← hkind]
        exact hw
  · rintro ⟨hle, hw⟩
    have hinput := input_eq_of_eof_notMem (hexact.eof_notMem hw)
    rw [← headD_input_drop] at hw
    have hp : (ofList options ts).options.recovery = .halt := h
    obtain ⟨q, hrun, hm⟩ := hexact.complete hp hw hinput
    have hlength : (ts.kinds.take n).length = n := by
      rw [List.length_take, TokenList.kinds, List.length_map]
      exact Nat.min_eq_left hle
    rw [recognize, hrun]
    refine ⟨rfl, ?_⟩
    rw [Ending.parser, hm.cursor, hlength]
    exact Nat.zero_add n

/-- An expression, or an operand, is a word of it that does not go on with what is behind. -/
theorem exact_level (level : Level) (follow : KindSet) :
    Exact (level.goal follow) fun w k => level.phrase.Derives w ∧ ¬ level.Continues w k where
  eof_notMem h := h.1.eof_notMem
  sound hp h := exists_matched_level hp level h
  complete hp h hinput := exists_completed_level hp level follow h.1 h.2 hinput

/-- A parser that stops at the first error completes a phrase at the first `n` tokens if and only
    if these are a word of it that does not go on with the next one. -/
theorem completes_iff_stands (options : Options) (h : options.recovery = .halt) (level : Level)
    (follow : KindSet) (ts : TokenList) (n : Nat) :
    ((recognize options (level.goal follow) ts).isCompleted = true ∧
      (recognize options (level.goal follow) ts).parser.cursor.index = n) ↔
        level.Stands ts n := by
  rw [(exact_level level follow).completes_iff options h]
  exact ⟨fun ⟨hle, hw, hends⟩ => ⟨hle, hw, hends⟩, fun h => ⟨h.le, h.derives, h.ends⟩⟩

end Parser

namespace Level

variable {level : Level} {ts : TokenList} {m n : Nat}

theorem Stands.unique (hn : level.Stands ts n) (hm : level.Stands ts m) : m = n := by
  have hn' := (Parser.completes_iff_stands {} rfl level ∅ ts n).2 hn
  have hm' := (Parser.completes_iff_stands {} rfl level ∅ ts m).2 hm
  exact hm'.2.symm.trans hn'.2

theorem not_continues_eof (level : Level) (w : List Kind) : ¬ level.Continues w .eof := by
  have hmul : Kind.eof ∉ multiplicativeOps := by decide
  have hadd : Kind.eof ∉ additiveOps := by decide
  have hrel : Kind.eof ∉ relationalOps := by decide
  cases level with
  | factor => exact id
  | term => exact hmul
  | simpleExpression => exact not_or.2 ⟨hmul, hadd⟩
  | expression => exact not_or.2 ⟨hmul, not_or.2 ⟨hadd, fun h => hrel h.1⟩⟩

/-- No longer word of the phrase is at the start of the list: the list cut behind it would have
    two words at its start that do not go on. -/
theorem Stands.longest (hn : level.Stands ts n) (hle : m ≤ ts.length)
    (hm : level.phrase.Derives (ts.kinds.take m)) : m ≤ n := by
  by_contra hlt
  have hlt : n < m := Nat.lt_of_not_le hlt
  have hkinds (i : Nat) (hi : i ≤ m) :
      (TokenList.kinds (ts.take m)).take i = ts.kinds.take i := by
    rw [TokenList.kinds, List.map_take, List.take_take, Nat.min_eq_left hi]
    rfl
  have hlength : (ts.take m).length = m := by rw [List.length_take, Nat.min_eq_left hle]
  have hm' : level.Stands (ts.take m) m := by
    refine ⟨hlength.ge, (hkinds m (Nat.le_refl m)).symm ▸ hm, ?_⟩
    rw [TokenList.tokenAt, List.getElem?_eq_none hlength.le]
    exact not_continues_eof level _
  have hn' : level.Stands (ts.take m) n := by
    have htoken : TokenList.tokenAt (ts.take m) n = ts.tokenAt n := by
      obtain ⟨t, ht⟩ : ∃ t, ts[n]? = some t :=
        ⟨_, List.getElem?_eq_getElem (Nat.lt_of_lt_of_le hlt hle)⟩
      rw [TokenList.tokenAt, TokenList.tokenAt, List.getElem?_take_of_lt hlt, ht]
      rfl
    refine ⟨hlength.symm ▸ hlt.le, (hkinds n hlt.le).symm ▸ hn.derives, ?_⟩
    rw [hkinds n hlt.le, htoken]
    exact hn.ends
  exact absurd (hn'.unique hm') (Nat.ne_of_gt hlt)

end Level

/-- The outcome without the follow sets of its errors. -/
def Outcome.unfollowed (o : Outcome) : Outcome :=
  { o with errors := o.errors.map fun e => { e with follow := ∅ } }

theorem Parser.Ending.Like.unfollowed {e e' : Parser.Ending} (h : e.Like e') :
    e.isCompleted = e'.isCompleted ∧ e.outcome.unfollowed = e'.outcome.unfollowed := by
  cases h with
  | completed p => exact ⟨rfl, rfl⟩
  | halted p expected rule follow follow' =>
    refine ⟨rfl, ?_⟩
    by_cases hlast : p.lastErrorAt = some p.cursor.index
    · rw [Parser.note, Parser.note, if_pos hlast, if_pos hlast]
    · rw [Parser.note, Parser.note, if_neg hlast, if_neg hlast]
      simp [Parser.Ending.outcome, Parser.Ending.parser, Parser.Ending.isCompleted,
        Outcome.unfollowed]

namespace Level

/-- The run of a parser that stops at the first error on a phrase at the start of a list. -/
def recognize (level : Level) (errorLimit : Nat) (recordMatches : Bool) (follow : KindSet)
    (ts : TokenList) : Parser.Ending :=
  Parser.recognize ⟨.halt, errorLimit, recordMatches⟩ (level.goal follow) ts

end Level

/-- An expression, or an operand of one of its operators, is recognised at the start of a list
    with the first `n` tokens if and only if these are a word of it that does not go on with the
    next one. There is at most one such `n`, and no longer word is at the start of the list. What
    may follow makes no difference but to what is noted of it with an error. -/
theorem expression_recognized (level : Level) (errorLimit : Nat) (recordMatches : Bool)
    (ts : TokenList) :
    (∀ follow n, ((level.recognize errorLimit recordMatches follow ts).isCompleted = true ∧
        (level.recognize errorLimit recordMatches follow ts).parser.cursor.index = n) ↔
      level.Stands ts n) ∧
    (∀ n, level.Stands ts n → (∀ m, level.Stands ts m → m = n) ∧
      ∀ m, m ≤ ts.length → level.phrase.Derives (ts.kinds.take m) → m ≤ n) ∧
    ∀ follow follow',
      (level.recognize errorLimit recordMatches follow ts).isCompleted =
        (level.recognize errorLimit recordMatches follow' ts).isCompleted ∧
      (level.recognize errorLimit recordMatches follow ts).outcome.unfollowed =
        (level.recognize errorLimit recordMatches follow' ts).outcome.unfollowed := by
  refine ⟨fun follow n => ?_, fun n hn => ⟨fun m hm => hn.unique hm, fun m => hn.longest⟩, ?_⟩
  · exact Parser.completes_iff_stands ⟨.halt, errorLimit, recordMatches⟩ rfl level follow ts n
  · intro follow follow'
    have hbare : (level.goal follow).bare = (level.goal follow').bare := by cases level <;> rfl
    refine Parser.Ending.Like.unfollowed ?_
    exact Parser.run_of_bare_eq (.ofList ⟨.halt, errorLimit, recordMatches⟩ ts) _ _ rfl
      (congrArg (fun g => [g]) hbare)

end TinyLang

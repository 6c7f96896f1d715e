import TinyLang.Proofs.Parser.Expressions
import TinyLang.Proofs.Parser.Termination

/-!
# Recognition of statements

Statements are recognised where each has a semicolon behind it or ends before a token that may
do without one (`Phrase.Listed`): a dot, the end of the input, or a member of the follow set.
Given that no operator that joins operands is in the follow set, a parser that stops at the first
error completes them exactly so, up to a token that starts no statement
(`statements_recognized`).

The grammar asks for a semicolon behind all statements but the last. Its lists of statements are
read by the looser rule as well (`Phrase.Derives.listed`), whatever closes them. It is left to the
rule around a list to refuse a token that must not.

What follows statements in a program is a dot, `else` or `end` (`Parser.follow_of_steps`), so no
list of statements of a program has an operator in its follow set.
-/

namespace TinyLang

open KindSet

/-- A list of statements with a token of kind `next` behind it. A statement may do without a
    semicolon before what closes any list of statements, or before a member of `follow`. -/
inductive Phrase.Listed (follow : KindSet) (next : Kind) : List Kind → Prop
  /-- There may be no statement. -/
  | nil : Listed follow next []
  /-- A statement has a semicolon behind it. -/
  | semicolon {s w : List Kind} : Phrase.statement.Derives s → Listed follow next w →
      Listed follow next (s ++ .semicolon :: w)
  /-- A statement has none, as what is behind it is no semicolon and allows it to be left out. -/
  | bare {s w : List Kind} : Phrase.statement.Derives s → w.headD next ≠ .semicolon →
      (w.headD next ∈ follow ∨ w.headD next = .dot ∨ w.headD next = .eof) →
      Listed follow next w → Listed follow next (s ++ w)

namespace Phrase

variable {follow : KindSet} {next : Kind} {w : List Kind}

theorem Listed.eof_notMem (h : Listed follow next w) : .eof ∉ w := by
  induction h with
  | nil => exact List.not_mem_nil
  | semicolon hs _ ih => simp [hs.eof_notMem, ih]
  | bare hs _ _ _ ih => simp [hs.eof_notMem, ih]

/-- Statements as the grammar has them are listed before every token that may close them. -/
theorem Derives.listed (h : Phrase.statements.Derives w) (hsemicolon : next ≠ .semicolon)
    (hnext : next ∈ follow ∨ next = .dot ∨ next = .eof) : Listed follow next w := by
  generalize hp : Phrase.statements = p at h
  induction h with
  | noStatements => exact .nil
  | @lastStatement s hs _ =>
    rw [← List.append_nil s]
    exact .bare hs hsemicolon hnext .nil
  | moreStatements hs _ _ ih => exact .semicolon hs (ih rfl)
  | _ => cases hp

end Phrase

namespace Parser

variable {p q : Parser} {follow : KindSet} {next : Kind} {w rest : List Kind}

/-! ## One statement -/

theorem move_statement_of_mem (follow : KindSet) (h : p.kind ∈ statementStart) :
    ∃ goals, (Goal.statement follow).move p.kind = .shift .statement goals :=
  Goal.statementMove_of_start h

/-- A parser that stands at a statement takes it off its input, if no operator that joins operands
    is behind it. -/
theorem run_statement_shows {l : Language Kind} (follow : KindSet) (hp : p.options.recovery = .halt)
    (hk : p.kind ∈ statementStart) (hl : Begins (· ∉ binaryOps) l) :
    Shows l [.statement follow] p (p.run [.statement follow]) := by
  have hs : ((Goal.statement follow).move p.kind).Suits p.kind (.statement follow) l :=
    Goal.suits_statementMove hk hl
  obtain ⟨goals, hshift⟩ := move_statement_of_mem follow hk
  rw [hshift] at hs
  have hm := matched_accept (hs.shifts _ _ rfl) .statement
  have hshows := run_shows (p.accept .statement) goals hp hs.fits
  rw [run_shift [] hshift, List.append_nil]
  refine Shows.of_suits (m := .shift .statement goals) ?_ rfl hm ?_
  · rwa [Goal.languages_nil, one_mul]
  · rwa [Move.goals, List.append_nil]

/-- A parser that completes a statement matched one. -/
theorem exists_matched_statement (hp : p.options.recovery = .halt) (hk : p.kind ∈ statementStart)
    (h : p.run [.statement follow] = .completed q) :
    ∃ s, Matched s p q ∧ Phrase.statement.Derives s :=
  Shows.exists_matched (h ▸ run_statement_shows follow hp hk (begins_one (by decide)))

/-- A parser completes a statement that no operator is behind. -/
theorem exists_completed_statement (follow : KindSet) (hp : p.options.recovery = .halt)
    {s : List Kind} (hs : Phrase.statement.Derives s) (hinput : p.input = s ++ rest)
    (hrest : rest.headD .eof ∉ binaryOps) :
    ∃ q, p.run [.statement follow] = .completed q ∧ Matched s p q := by
  have hk : p.kind ∈ statementStart := kind_mem_first .statement rfl hs hinput
  refine (run_statement_shows follow hp hk (begins_singleton hrest)).exists_completed ?_ hinput
  rwa [Goal.languages_singleton]

/-! ## What is behind a statement -/

theorem run_statements_of_notMem (h : p.kind ∉ statementStart) :
    p.run [.statements follow] = .completed p := by
  have hexpand : (Goal.statements follow).move p.kind = .expand [] := if_neg h
  rw [run_expand [] hexpand, List.append_nil, run_nil]

theorem run_statements_of_mem (h : p.kind ∈ statementStart) :
    p.run [.statements follow] =
      (p.run [.statement ((follow ∪ statementStart).insert .semicolon)]).andThen
        [.moreStatements follow] := by
  obtain ⟨goals, hshift⟩ :=
    move_statement_of_mem ((follow ∪ statementStart).insert .semicolon) h
  have hshift' : (Goal.statements follow).move p.kind =
      .shift .statement (goals ++ [Goal.moreStatements follow]) := by
    rw [Goal.move] at hshift
    rw [Goal.move, if_pos (mem_iff.1 h), hshift]
    rfl
  rw [run_shift [] hshift, run_shift [] hshift', List.append_nil, List.append_nil, run_append]

/-- A semicolon is matched. -/
theorem run_moreStatements_of_semicolon (h : p.kind = .semicolon) :
    p.run [.moreStatements follow] = (p.accept .statements).run [.statements follow] := by
  rw [run_cons_step, step, stepMoreStatements, if_pos h]
  rfl

/-- The semicolon is left out where it may be. -/
theorem run_moreStatements_of_closes (h : p.kind ≠ .semicolon)
    (hclose : p.kind ∈ follow ∪ listClosers) :
    p.run [.moreStatements follow] = p.run [.statements follow] := by
  rw [run_cons_step, step, stepMoreStatements, if_neg h, if_pos (mem_iff.1 hclose)]
  rfl

/-- Anywhere else it is missed. -/
theorem isCompleted_run_moreStatements (hp : p.options.recovery = .halt) (h : p.kind ≠ .semicolon)
    (hclose : p.kind ∉ follow ∪ listClosers) :
    (p.run [.moreStatements follow]).isCompleted = false := by
  have hrefuse : (Goal.token .semicolon .statements (follow ∪ statementStart)).move p.kind =
      .refuse (.token .semicolon) .statements (follow ∪ statementStart) (some .semicolon) :=
    if_neg h
  rw [run_cons_step, step, stepMoreStatements, if_neg h, if_neg (mt mem_iff.2 hclose)]
  show (p.run [.token .semicolon .statements _, .statements follow]).isCompleted = false
  rw [run_refuse _ hrefuse, if_pos (mustStop_note _ _ _ hp)]
  rfl

theorem mem_union_listClosers {k : Kind} :
    k ∈ follow ∪ listClosers ↔ k ∈ follow ∨ k = .dot ∨ k = .eof := by
  have hclosers : ∀ k, k ∈ listClosers ↔ k = .dot ∨ k = .eof := by decide
  rw [mem_iff, contains_union, Bool.or_eq_true, ← mem_iff, ← mem_iff, hclosers]

/-! ## Lists of statements -/

/-- A parser that completes statements matched a list of them, and stands at no other. -/
theorem exists_matched_statements (p : Parser) (hp : p.options.recovery = .halt)
    (h : p.run [.statements follow] = .completed q) :
    ∃ w, Matched w p q ∧ Phrase.Listed follow q.kind w ∧ q.kind ∉ statementStart := by
  by_cases hk : p.kind ∈ statementStart
  · rw [run_statements_of_mem hk] at h
    obtain ⟨r, hr, hrun⟩ := Ending.andThen_eq_completed h
    obtain ⟨s, hm, hs⟩ := exists_matched_statement hp hk hr
    have hrp : r.options.recovery = .halt := hm.options ▸ hp
    -- a statement is not empty, so less input is left behind it
    have hlt : r.input.length < p.input.length := by
      obtain ⟨k, u, rfl, -⟩ := Phrase.exists_cons_of_derives hs rfl
      rw [hm.input, List.length_append, List.length_cons]
      omega
    by_cases hsemicolon : r.kind = .semicolon
    · have haccept := matched_accept (p := r) (by simp [hsemicolon]) .statements
      have hlt' : (r.accept .statements).input.length < r.input.length := by
        rw [haccept.input]
        exact Nat.lt_succ_self _
      rw [run_moreStatements_of_semicolon hsemicolon] at hrun
      obtain ⟨w, hm', hw, hq⟩ := exists_matched_statements (r.accept .statements) hrp hrun
      rw [hsemicolon] at haccept
      exact ⟨s ++ .semicolon :: w, hm.trans (haccept.trans hm'), .semicolon hs hw, hq⟩
    by_cases hclose : r.kind ∈ follow ∪ listClosers
    · rw [run_moreStatements_of_closes hsemicolon hclose] at hrun
      obtain ⟨w, hm', hw, hq⟩ := exists_matched_statements r hrp hrun
      have hhead : w.headD q.kind = r.kind := by
        rw [← headD_input r, hm'.input, ← headD_input q]
        cases w <;> rfl
      refine ⟨s ++ w, hm.trans hm', .bare hs ?_ ?_ hw, hq⟩
      · rwa [hhead]
      · rw [hhead]
        exact mem_union_listClosers.1 hclose
    · have hstop := isCompleted_run_moreStatements hrp hsemicolon hclose
      rw [hrun] at hstop
      cases hstop
  · rw [run_statements_of_notMem hk] at h
    cases h
    exact ⟨[], .refl _, .nil, hk⟩
termination_by p.input.length
decreasing_by all_goals omega

/-- A parser completes a list of statements that no other is behind. -/
theorem exists_completed_statements (hfollow : ∀ k ∈ follow, k ∉ binaryOps)
    (hw : Phrase.Listed follow next w) (hnext : next ∉ statementStart)
    (hp : p.options.recovery = .halt) (hinput : p.input = w ++ rest)
    (hrest : rest.headD .eof = next) :
    ∃ q, p.run [.statements follow] = .completed q ∧ Matched w p q := by
  -- the induction is on the list: behind each statement comes no operator, so the parser
  -- completes it where it ends
  induction hw generalizing p with
  | nil =>
    have hk : p.kind ∉ statementStart := by rwa [← headD_input, hinput, List.nil_append, hrest]
    exact ⟨p, run_statements_of_notMem hk, .refl p⟩
  | @semicolon s w hs _ ih =>
    have hinput' : p.input = s ++ (.semicolon :: w ++ rest) := by rw [hinput, List.append_assoc]
    have hk : p.kind ∈ statementStart := kind_mem_first .statement rfl hs hinput'
    have hops : (Kind.semicolon :: w ++ rest).headD .eof ∉ binaryOps := by
      rw [List.cons_append, List.headD_cons]
      decide
    obtain ⟨r, hr, hm⟩ := exists_completed_statement
      ((follow ∪ statementStart).insert .semicolon) hp hs hinput' hops
    have hsemicolon : r.kind = .semicolon := (hm.headD_eq hinput').symm
    have haccept := matched_accept (p := r) (by simp [hsemicolon]) .statements
    rw [hsemicolon] at haccept
    have hrest' : (r.accept .statements).input = w ++ rest :=
      haccept.input_eq (hm.input_eq hinput')
    obtain ⟨q, hq, hm'⟩ := ih (p := r.accept .statements) (hm.options ▸ hp) hrest'
    refine ⟨q, ?_, hm.trans (haccept.trans hm')⟩
    rw [run_statements_of_mem hk, hr, Ending.andThen, run_moreStatements_of_semicolon hsemicolon,
      hq]
  | @bare s w hs hsemicolon hclose _ ih =>
    have hinput' : p.input = s ++ (w ++ rest) := by rw [hinput, List.append_assoc]
    have hk : p.kind ∈ statementStart := kind_mem_first .statement rfl hs hinput'
    have hhead : (w ++ rest).headD .eof = w.headD next := by
      rw [← hrest]
      cases w <;> rfl
    have hops : (w ++ rest).headD .eof ∉ binaryOps := by
      rw [hhead]
      rcases hclose with hmem | heq | heq
      · exact hfollow _ hmem
      · rw [heq]
        decide
      · rw [heq]
        decide
    obtain ⟨r, hr, hm⟩ := exists_completed_statement
      ((follow ∪ statementStart).insert .semicolon) hp hs hinput' hops
    have hkind : r.kind = w.headD next := (hm.headD_eq hinput').symm.trans hhead
    obtain ⟨q, hq, hm'⟩ := ih (p := r) (hm.options ▸ hp) (hm.input_eq hinput')
    refine ⟨q, ?_, hm.trans hm'⟩
    rw [run_statements_of_mem hk, hr, Ending.andThen, run_moreStatements_of_closes
      (hkind ▸ hsemicolon) (mem_union_listClosers.2 (hkind ▸ hclose)), hq]

theorem exact_statements (hfollow : ∀ k ∈ follow, k ∉ binaryOps) :
    Exact (.statements follow) fun w k => Phrase.Listed follow k w ∧ k ∉ statementStart where
  eof_notMem h := h.1.eof_notMem
  sound hp h := exists_matched_statements _ hp h
  complete hp h hinput := exists_completed_statements hfollow h.1 h.2 hp hinput rfl

/-- A parser that stops at the first error notes that one only. -/
theorem exists_error_of_halted (p : Parser) (gs : List Goal) (hp : p.options.recovery = .halt)
    (hfresh : Fresh p) (hgs : .program ∉ gs) (h : (p.run gs).isCompleted = false) :
    ∃ e, (p.run gs).outcome.errors = [e] := by
  cases upToError_of_fresh p gs hfresh hgs with
  | none q hq hrun =>
    have hcompleted : p.run gs = .completed (q.under p.options) := hrun p.options rfl
    rw [hcompleted] at h
    cases h
  | error q expected rule follow missing hs hq hhs hrun =>
    have hstop : ((q.note expected rule follow).under p.options).mustStop = true :=
      mustStop_of_note hq expected rule follow (.inl hp)
    have hhalted : p.run gs = .halted ((q.note expected rule follow).under p.options) :=
      (hrun p.options rfl).trans (if_pos hstop)
    rw [hhalted]
    exact ⟨_, toList_errors_note hq expected rule follow⟩

/-! ## Follow sets of the lists of a program -/

end Parser

/-- Whether a goal may be left to a parser of a program: it fits something behind it, or it is one
    of the two that are asked for at one place only. -/
def Goal.Arises (g : Goal) : Prop :=
  g = .program ∨ (∃ follow, g = .operand factorStart follow) ∨ ∃ l, g.Fits l

theorem Goal.arises_of_allFit {l : Language Kind} {gs : List Goal} (h : AllFit l gs) :
    ∀ g ∈ gs, g.Arises := by
  induction gs with
  | nil => exact List.forall_mem_nil _
  | cons g gs ih => exact List.forall_mem_cons.2 ⟨.inr (.inr ⟨_, h.1⟩), ih h.2⟩

namespace Parser

open Relation (ReflTransGen)

variable {p q : Parser} {g : Goal} {goals hs : List Goal} {follow : KindSet}

/-- What is left of a goal that arises arises as well. -/
theorem arises_of_step (hg : g.Arises) (h : p.step g = .go q goals) : ∀ g ∈ goals, g.Arises := by
  rcases hg with rfl | ⟨follow, rfl⟩ | ⟨l, hfit⟩
  · rw [step_eq_make p (by simp) (by simp)] at h
    rw [goals_eq_of_make h]
    exact Goal.arises_of_allFit (allFit_programParts 1)
  · -- what could come in place of an operand makes no difference to what is left of it
    have hwanted : ∀ k, ((Goal.operand factorStart follow).move k).goals =
        ((Goal.operand operandStart follow).move k).goals := fun k => by cases k <;> rfl
    have hfit : (Goal.operand operandStart follow).Fits 1 := rfl
    rw [step_eq_make p (by simp) (by simp)] at h
    rw [goals_eq_of_make h, hwanted]
    exact Goal.arises_of_allFit (Goal.suits_move hfit p.kind).fits
  · by_cases hfactor : ∃ follow, g = .factor follow
    · obtain ⟨follow, rfl⟩ := hfactor
      rw [step] at h
      split at h
      · cases h
        exact Goal.arises_of_allFit (l := 1) ⟨trivial, rfl, trivial⟩
      · cases h
        exact List.forall_mem_singleton.2 (.inr (.inl ⟨_, rfl⟩))
    by_cases hmore : ∃ follow, g = .moreStatements follow
    · obtain ⟨follow, rfl⟩ := hmore
      have hstatements : (Goal.statements follow).Arises := .inr (.inr ⟨l, hfit⟩)
      rw [step, stepMoreStatements] at h
      split at h
      · cases h
        exact List.forall_mem_singleton.2 hstatements
      split at h
      · cases h
        exact List.forall_mem_singleton.2 hstatements
      · cases h
        have htoken : (Goal.token .semicolon .statements (follow ∪ statementStart)).Fits 1 := by
          rw [Goal.Fits]
          decide
        exact List.forall_mem_cons.2
          ⟨.inr (.inr ⟨1, htoken⟩), List.forall_mem_singleton.2 hstatements⟩
    · have hmake := step_eq_make p (fun follow h => hfactor ⟨follow, h⟩)
        fun follow h => hmore ⟨follow, h⟩
      rw [hmake] at h
      rw [goals_eq_of_make h]
      exact Goal.arises_of_allFit (Goal.suits_move hfit p.kind).fits

/-- In a program no operator that joins operands may follow a list of statements. -/
theorem follow_of_steps (h : ReflTransGen Steps (p, [.program]) (q, hs))
    (hmem : .statements follow ∈ hs) : ∀ k ∈ follow, k ∉ binaryOps := by
  have harises : ∀ g ∈ hs, g.Arises := by
    have hall : ∀ a, ReflTransGen Steps (p, [.program]) a → ∀ g ∈ a.2, g.Arises := by
      intro a ha
      induction ha with
      | refl => exact List.forall_mem_singleton.2 (.inl rfl)
      | tail _ hstep ih =>
        cases hstep with
        | go hgo =>
          obtain ⟨hg, hgs⟩ := List.forall_mem_cons.1 ih
          exact List.forall_mem_append.2 ⟨arises_of_step hg hgo, hgs⟩
    exact hall (q, hs) h
  have hends : ∀ k ∈ statementEnds, k ∉ binaryOps := by decide
  rcases harises _ hmem with h | ⟨_, h⟩ | ⟨l, hfit⟩
  · cases h
  · cases h
  · exact fun k hk => hends k (hfit.1 k hk)

end Parser

/-! ## Statements at the start of a list -/

/-- The first `n` tokens of a list are statements, with `follow` for what may close them, and no
    other statement starts behind them. -/
structure TokenList.Lists (ts : TokenList) (follow : KindSet) (n : Nat) : Prop where
  le : n ≤ ts.length
  listed : Phrase.Listed follow (ts.tokenAt n).kind (ts.kinds.take n)
  ends : (ts.tokenAt n).kind ∉ statementStart

/-- A parser that stops at the first error recognises statements at the start of a list with the
    first `n` tokens if and only if these are statements with semicolons where they are needed,
    and the next one starts none. Else it stops with one error. None of the operators that join
    operands may be in the follow set, nor are they in one of a program. -/
theorem statements_recognized (errorLimit : Nat) (recordMatches : Bool) {follow : KindSet}
    (hfollow : ∀ k ∈ follow, k ∉ binaryOps) (ts : TokenList) :
    let e := Parser.recognize ⟨.halt, errorLimit, recordMatches⟩ (.statements follow) ts
    (∀ n, (e.isCompleted = true ∧ e.parser.cursor.index = n) ↔ ts.Lists follow n) ∧
    ((¬ ∃ n, ts.Lists follow n) → e.isCompleted = false ∧ ∃ error, e.outcome.errors = [error]) ∧
    ∀ options q hs follow', Relation.ReflTransGen Parser.Steps
      (Parser.ofList options ts, [.program]) (q, hs) → .statements follow' ∈ hs →
        ∀ k ∈ follow', k ∉ binaryOps := by
  intro e
  have hiff : ∀ n, (e.isCompleted = true ∧ e.parser.cursor.index = n) ↔ ts.Lists follow n := by
    intro n
    rw [(Parser.exact_statements hfollow).completes_iff _ rfl]
    exact ⟨fun ⟨hle, hw, hends⟩ => ⟨hle, hw, hends⟩, fun h => ⟨h.le, h.listed, h.ends⟩⟩
  refine ⟨hiff, fun hnone => ?_, fun options q hs follow' h hmem => ?_⟩
  · have hhalted : e.isCompleted = false := by
      by_contra hcompleted
      exact hnone ⟨_, (hiff _).1 ⟨Bool.eq_true_of_not_eq_false hcompleted, rfl⟩⟩
    exact ⟨hhalted, Parser.exists_error_of_halted _ _ rfl ⟨rfl, rfl⟩ (by simp) hhalted⟩
  · exact Parser.follow_of_steps h hmem

/-- Two statements before the end of a case, the second one without a semicolon. -/
def TokenList.twoStatements : TokenList :=
  [.bare .kwPrint ⟨1, 1⟩, .of .num "1" ⟨1, 7⟩, .bare .semicolon ⟨1, 8⟩, .of .ident "x" ⟨1, 10⟩,
    .bare .assign ⟨1, 12⟩, .of .num "2" ⟨1, 15⟩, .bare .kwEnd ⟨1, 17⟩]

/-- All tokens but the last one are recognised. -/
theorem lists_twoStatements :
    (∀ k ∈ caseClosers, k ∉ binaryOps) ∧
      (Parser.recognize ⟨.halt, 10, false⟩ (.statements caseClosers)
        .twoStatements).isCompleted = true ∧
      TokenList.twoStatements.Lists caseClosers 6 := by
  have hfollow : ∀ k ∈ caseClosers, k ∉ binaryOps := by decide
  have hcompleted : (Parser.recognize ⟨.halt, 10, false⟩ (.statements caseClosers)
      .twoStatements).isCompleted = true := by cbv
  have hindex : (Parser.recognize ⟨.halt, 10, false⟩ (.statements caseClosers)
      .twoStatements).parser.cursor.index = 6 := by cbv
  exact ⟨hfollow, hcompleted,
    ((statements_recognized 10 false hfollow .twoStatements).1 6).1 ⟨hcompleted, hindex⟩⟩

end TinyLang

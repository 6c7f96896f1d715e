import TinyLang.Proofs.Parser.Recognition

/-!
# The earliest error

A parser that stops at the first error stops as early as can be, and not too early
(`parse_error_earliest`): the tokens before the error begin a program, those up to
and with the token at fault begin none, and each kind that the error says is wanted
goes on with a beginning of a program. That there is no program is said exactly
where no `program` comes before the end of the input.
-/

namespace TinyLang

open KindSet

/-- The kinds of the tokens from the place `j` up to the place `i`. -/
def TokenList.slice (ts : TokenList) (j i : Nat) : List Kind := (ts.kinds.take i).drop j

/-- An error at the place `i` of a list of tokens in which a program starts at the
    place `j`. -/
structure TokenList.ErrsAt (ts : TokenList) (j i : Nat) (e : SyntaxError) : Prop where
  bounds : j ≤ i ∧ i ≤ ts.length
  found : e.found = ts[i]?.getD (.eof (Cursor.ofList ts).finish)
  viable : Phrase.program.Opens (ts.slice j i)
  unviable : ¬ Phrase.program.Opens (ts.slice j i ++ [e.found.kind])
  wanted : ∀ k, e.expected.contains k = true → Phrase.program.Opens (ts.slice j i ++ [k])

namespace Parser

variable {ts : TokenList} {u w : List Kind} {p q : Parser} {expected : Expected}

/-- A parser that stands at `program` matches it. -/
theorem Refused.exists_cons (h : Refused 1 Goal.programParts w expected p q)
    (hp : p.kind = .kwProgram) : ∃ x, w = .kwProgram :: x := by
  have hk := (h.matched.headD_append (headD_input q)).trans hp
  cases w with
  | nil =>
    -- the parser would refuse `program` where a program may start
    obtain ⟨w, hw⟩ := Phrase.program.language_nonempty
    obtain ⟨x, rfl⟩ := exists_cons_program hw
    have hq : q.kind = .kwProgram := (headD_input q).symm.trans hk
    refine absurd ?_ (h.unwanted (.kwProgram :: x) hq.symm)
    rwa [List.nil_append, languages_programParts, mul_one]
  | cons k x => exact ⟨x, congrArg (· :: x) hk⟩

theorem Refused.opens_append (h : Refused 1 Goal.programParts w expected p q) {k : Kind}
    (hk : expected.contains k = true) : Phrase.program.Opens (w ++ [k]) := by
  obtain ⟨u, hu⟩ := h.wanted k hk
  rw [languages_programParts, Phrase.mem_language] at hu
  exact ⟨u, by simpa using hu⟩

theorem Refused.not_opens_append (h : Refused 1 Goal.programParts w expected p q) :
    ¬ Phrase.program.Opens (w ++ [q.kind]) := by
  rintro ⟨u, hu⟩
  refine h.unwanted (q.kind :: u) rfl ?_
  rw [languages_programParts, mul_one, Phrase.mem_language]
  simpa using hu

/-- Within a program another `program` is never wanted. -/
theorem Refused.not_isMissingProgram (h : Refused 1 Goal.programParts w expected p q)
    (hp : p.kind = .kwProgram) (rule : String) (follow : KindSet) :
    SyntaxError.isMissingProgram ⟨expected, rule, q.cursor.current, follow⟩ = false := by
  by_contra hmissing
  have hexpected : expected = .token .kwProgram := by
    simp only [SyntaxError.isMissingProgram, Bool.not_eq_false, Bool.and_eq_true] at hmissing
    simpa using hmissing.1
  obtain ⟨u, hu⟩ := h.opens_append (k := .kwProgram) (by rw [hexpected]; rfl)
  obtain ⟨x, rfl⟩ := h.exists_cons hp
  rw [List.append_assoc] at hu
  cases Phrase.eq_nil_of_derives_program hu

/-- What a parser matched is the slice from the program to where it stands. -/
theorem Stands.slice (h : Stands ts u (.kwProgram :: w) q) :
    ts.kinds.idxOf .kwProgram = u.length ∧
      ts.slice u.length q.cursor.index = .kwProgram :: w ∧ q.cursor.index ≤ ts.length := by
  obtain ⟨rest, hrest⟩ := ts.input_isPrefix
  have hkinds : ts.kinds = u ++ .kwProgram :: w ++ (q.input ++ rest) := by
    rw [← hrest, h.input, List.append_assoc, List.append_assoc, List.append_assoc]
  have hindex : q.cursor.index = (u ++ .kwProgram :: w).length := by
    rw [h.cursor, List.length_append]
    exact Nat.zero_add _
  refine ⟨?_, ?_, ?_⟩
  · rw [hkinds, List.append_assoc, List.idxOf_append_of_notMem h.notMem, List.cons_append,
      List.idxOf_cons_self, Nat.add_zero]
  · rw [TokenList.slice, hkinds, hindex, List.take_left, List.drop_left]
  · have hlen : ts.kinds.length = ts.length := List.length_map _
    rw [← hlen, hkinds, hindex]
    exact (List.prefix_append _ _).length_le

theorem Refused.errsAt (h : Refused 1 Goal.programParts w expected p q)
    (hp : p.kind = .kwProgram) (hq : Stands ts u w q) (rule : String) (follow : KindSet) :
    ts.ErrsAt (ts.kinds.idxOf .kwProgram) q.cursor.index
      ⟨expected, rule, q.cursor.current, follow⟩ := by
  obtain ⟨x, rfl⟩ := h.exists_cons hp
  obtain ⟨hj, hslice, hlen⟩ := hq.slice
  have hindex : q.cursor.index = u.length + (.kwProgram :: x).length := by
    rw [hq.cursor]
    exact Nat.zero_add _
  rw [hj]
  refine ⟨⟨hindex ▸ Nat.le_add_right _ _, hlen⟩, ?_, ?_, ?_, ?_⟩
  · show q.cursor.current = _
    rw [hindex, hq.cursor]
    exact Cursor.current_skip_ofList ts _
  · rw [hslice]
    obtain ⟨v, hv⟩ := h.viable
    exact ⟨v, by rwa [languages_programParts] at hv⟩
  · rw [hslice]
    exact h.not_opens_append
  · intro k hk
    rw [hslice]
    exact h.opens_append hk

/-- An error is that there is no program, or it is the earliest error of one. -/
theorem error_cases {e : SyntaxError} (h : parse ts = .error e) :
    e.code = .missingProgram ∧ .kwProgram ∉ ts.input ∨
      e.code ≠ .missingProgram ∧ .kwProgram ∈ ts.input ∧
        ts.ErrsAt (ts.kinds.idxOf .kwProgram) (parseWith {} ts).summary.consumed e := by
  have hcourse := course 1 {} rfl ts
  generalize hend : recognize {} .program ts = ending at hcourse
  cases hcourse with
  | accepted _ hq hr =>
    rw [parse_of_completed hend hq.fresh] at h
    cases h
  | @missing u q hq hk =>
    obtain rfl := Except.error.inj ((parse_of_halted hend hq.fresh).symm.trans h)
    have hfound : q.cursor.current.kind = .eof := hk
    refine .inl ⟨if_pos ?_, hq.notMem_input hk⟩
    simp [SyntaxError.isMissingProgram, Token.isEof, hfound]
  | @refused u w p q expected rule follow hp hq hr =>
    obtain rfl := Except.error.inj ((parse_of_halted hend hq.fresh).symm.trans h)
    have hconsumed : (parseWith {} ts).summary.consumed = q.cursor.index := by
      rw [parseWith, hend, Ending.outcome, Ending.parser, cursor_note]
    refine .inr ⟨?_, ?_, ?_⟩
    · rw [SyntaxError.code, hr.not_isMissingProgram hp]
      decide
    · obtain ⟨x, rfl⟩ := hr.exists_cons hp
      simp [hq.input]
    · rw [hconsumed]
      exact hr.errsAt hp hq rule.name follow

end Parser

/-- The error of a list of tokens with a program in it is the earliest that there is,
    and it wants nothing in vain. The error of any other list is that there is no
    program. -/
theorem parse_error_earliest (ts : TokenList) :
    (∀ e, parse ts = .error e → e.code ≠ .missingProgram →
      ts.ErrsAt (ts.kinds.idxOf .kwProgram) (parseWith {} ts).summary.consumed e) ∧
    ((∃ e, parse ts = .error e ∧ e.code = .missingProgram) ↔ .kwProgram ∉ ts.input) := by
  refine ⟨fun e he hcode => ?_, ?_, fun hnot => ?_⟩
  · rcases Parser.error_cases he with ⟨hmissing, -⟩ | ⟨-, -, herrs⟩
    · exact absurd hmissing hcode
    · exact herrs
  · rintro ⟨e, he, hmissing⟩
    rcases Parser.error_cases he with ⟨-, hnot⟩ | ⟨hcode, -⟩
    · exact hnot
    · exact absurd hmissing hcode
  · cases hparse : parse ts with
    | ok s =>
      obtain ⟨u, w, v, hts⟩ := Parser.exists_holds_of_ok hparse
      exact absurd (Parser.mem_input_of_holds hts) hnot
    | error e =>
      rcases Parser.error_cases hparse with ⟨hmissing, -⟩ | ⟨-, hmem, -⟩
      · exact ⟨e, rfl, hmissing⟩
      · exact absurd hmem hnot

/-- The tokens of a program that prints nothing in particular. -/
def TokenList.nothingToPrint : TokenList :=
  [.bare .kwProgram ⟨1, 1⟩, .of .ident "p" ⟨1, 9⟩, .bare .colon ⟨1, 10⟩, .bare .kwPrint ⟨1, 12⟩,
    .bare .dot ⟨1, 17⟩]

/-- The dot is at fault, where an expression could start. -/
theorem errsAt_nothingToPrint :
    ∃ e, parse .nothingToPrint = .error e ∧ e.code ≠ .missingProgram ∧
      TokenList.nothingToPrint.ErrsAt 0 4 e := by
  have hconsumed : (parseWith {} .nothingToPrint).summary.consumed = 4 := by cbv
  have herror : parse .nothingToPrint = .error
      ⟨.oneOf factorStart, "factor", .bare .dot ⟨1, 17⟩,
        (single .dot ∪ statementStart).insert .semicolon ∪ relationalOps ∪ additiveOps ∪
          multiplicativeOps⟩ := by cbv
  refine ⟨_, herror, by decide, ?_⟩
  have := (parse_error_earliest .nothingToPrint).1 _ herror (by decide)
  rwa [hconsumed] at this

end TinyLang

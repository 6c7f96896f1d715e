import TinyLang.Proofs.Parser.Completion
import TinyLang.Proofs.Parser.EarliestError
import TinyLang.Proofs.Parser.Statements

/-!
# Unfinished programs

No program begins with another one (`Phrase.eq_nil_of_derives_append`), so a list that ends within
a program holds none, and a parser that stops at the first error does so at the end of the input
(`Parser.exists_error_of_isPrefix`). Nothing is behind it that could be at fault as well, so one
that goes on finds no other error (`TokenList.Unfinished.of_parse`).

Where only the dot is left out, the body is complete at the end of the input, as the last statement
may do without a semicolon there (`Parser.exists_completed_body`). So it is the dot that is missed
(`parse_cut_short`).
-/

namespace TinyLang

open KindSet

/-- All that is wrong with a list is that it ends: the end of the input is at fault, and nothing
    else is, however the list is parsed. -/
structure TokenList.Unfinished (ts : TokenList) (e : SyntaxError) : Prop where
  parse : parse ts = .error e
  found : e.found = ts.tokenAt ts.input.length
  atEnd : e.found.kind = .eof
  errors : ∀ options, (parseWith options ts).errors = [e]
  consumed : ∀ options, (parseWith options ts).summary.consumed = ts.input.length

variable {ts : TokenList} {v w : List Kind}

/-! ## Errors at the end of the input -/

/-- Where the end of the input is found, all of the input is before. -/
theorem TokenList.input_length_le {i : Nat} (h : (ts.tokenAt i).kind = .eof) :
    ts.input.length ≤ i := by
  by_contra hlt
  have hlt : i < ts.input.length := Nat.lt_of_not_le hlt
  obtain ⟨rest, hrest⟩ := ts.input_isPrefix
  rw [kind_tokenAt, Kind.atPlace, ← hrest, List.getElem?_append_left hlt,
    List.getElem?_eq_getElem hlt, Option.getD_some] at h
  exact ts.eof_notMem_input (h ▸ List.getElem_mem hlt)

/-- Nothing is at fault behind the end of the input. -/
theorem Parser.Located.eq_of_eof {i : Nat} {is : List Nat} {p : Parser}
    (h : Located ts (i :: is) p) (hi : (ts.tokenAt i).kind = .eof) :
    i = ts.input.length ∧ is = [] ∧ p.cursor.index = ts.input.length := by
  have hlast : ∀ j ∈ i :: is, j ≤ ts.input.length :=
    fun j hj => (h.within j hj).trans h.cursor.index_le_input
  have hlength := TokenList.input_length_le hi
  have hindex := hlength.trans (h.within i List.mem_cons_self)
  refine ⟨Nat.le_antisymm (hlast i List.mem_cons_self) hlength, ?_,
    Nat.le_antisymm h.cursor.index_le_input hindex⟩
  refine List.eq_nil_iff_forall_not_mem.2 fun j hj => ?_
  have hlt := List.rel_of_pairwise_cons h.increasing hj
  exact absurd (hlast j (List.mem_cons_of_mem i hj)) (Nat.not_le.2 (hlength.trans_lt hlt))

/-- An error at the end of the input is the only one. -/
theorem TokenList.Unfinished.of_parse {e : SyntaxError} (h : TinyLang.parse ts = .error e)
    (he : e.found.kind = .eof) : ts.Unfinished e := by
  have hall : ∀ options, e.found = ts.tokenAt ts.input.length ∧
      (parseWith options ts).errors = [e] ∧
      (parseWith options ts).summary.consumed = ts.input.length := by
    intro options
    obtain ⟨es, herrors⟩ := List.head?_eq_some_iff.1 (head?_errors_of_parse h options)
    obtain ⟨places, hp⟩ := Parser.located_recognize options ts
    have hfound : (parseWith options ts).errors.map SyntaxError.found =
        places.map ts.tokenAt := hp.found
    rw [herrors, List.map_cons] at hfound
    obtain ⟨i, is, rfl, hi, his⟩ := List.map_eq_cons_iff.1 hfound.symm
    -- the first place is the end of the input already, so there is no other
    obtain ⟨rfl, rfl, hindex⟩ := hp.eq_of_eof (hi ▸ he)
    have hes : es = [] := List.map_eq_nil_iff.1 his.symm
    exact ⟨hi.symm, by rw [herrors, hes], hindex⟩
  exact ⟨h, (hall {}).1, he, fun options => (hall options).2.1,
    fun options => (hall options).2.2⟩

/-! ## Programs that are cut short -/

namespace Parser

variable {p : Parser} {b : List Kind}

/-- A parser of a list that ends within a program stops at the end of the input. -/
theorem exists_error_of_isPrefix (hts : ts.input = .kwProgram :: v)
    (h : Phrase.program.Derives (.kwProgram :: v ++ w)) (hw : w ≠ []) :
    ∃ e, parse ts = .error e ∧ e.found.kind = .eof := by
  have hmem : .kwProgram ∈ ts.input := hts ▸ List.mem_cons_self
  have hcourse := course 1 {} rfl ts
  generalize hend : recognize {} .program ts = ending at hcourse
  cases hcourse with
  | accepted _ hq hr =>
    obtain ⟨y, hy⟩ := exists_cons_program hr.derives
    obtain ⟨-, heq⟩ := hq.eq_of_input (u := []) List.not_mem_nil hts (by rw [hy]; rfl)
    rw [← heq, List.append_assoc] at h
    have hnil := Phrase.eq_nil_of_derives_append hr.derives h
    exact absurd (List.append_eq_nil_iff.1 hnil).2 hw
  | missing hq hk => exact absurd hmem (hq.notMem_input hk)
  | @refused u x p q expected rule follow hp hq hr =>
    refine ⟨_, parse_of_halted hend hq.fresh, ?_⟩
    obtain ⟨-, heq⟩ := hq.eq_of_input (u := []) List.not_mem_nil hts
      ((hr.matched.headD_append (headD_input q)).trans hp)
    -- no token of the program is refused: those up to it begin the program
    show q.kind = .eof
    by_contra hk
    obtain ⟨y, hy⟩ : ∃ y, q.input = q.kind :: y := ⟨_, (matched_accept hk .program).input⟩
    refine hr.not_opens_append ⟨y ++ w, ?_⟩
    rw [← heq, hy] at h
    simpa using h

/-! ## Programs without their dot -/

/-- A parser completes a body at the end of the input. -/
theorem exists_completed_body {follow : KindSet} (hfollow : ∀ k ∈ follow, k ∉ binaryOps)
    (hp : p.options.recovery = .halt) (hb : Phrase.body.Derives b) (hinput : p.input = b) :
    ∃ q, p.run [.body follow] = .completed q ∧ Matched b p q := by
  have hlisted : ∀ {ss : List Kind}, Phrase.statements.Derives ss →
      Phrase.Listed follow .eof ss := fun h => h.listed (by decide) (.inr (.inr rfl))
  cases hb with
  | @body ds ss hds hss =>
    have hstart : ss.headD .eof ∉ declarationStart := by
      rcases hss.nil_or_first with ⟨rfl, -⟩ | ⟨k, u, rfl, hk⟩
      · decide
      · have hdisjoint : ∀ k ∈ Phrase.statements.first, k ∉ declarationStart := by decide
        exact hdisjoint k hk
    cases hds with
    | noDeclarations =>
      have hk : p.kind ∉ declarationStart := by rwa [← headD_input, hinput]
      have hexpand : (Goal.body follow).move p.kind = .expand [.statements follow] := if_neg hk
      rw [run_expand [] hexpand, List.append_nil, List.nil_append]
      exact exists_completed_statements hfollow (hlisted hss) (by decide) hp
        (hinput.trans (List.append_nil ss).symm) rfl
    | @moreDeclarations d ds hd hds =>
      have hk : p.kind ∈ declarationStart := by
        rw [List.append_assoc] at hinput
        exact kind_mem_first .declaration rfl hd hinput
      have hexpand : (Goal.body follow).move p.kind =
          .expand ([Goal.declarations (follow ∪ statementStart)] ++ [Goal.statements follow]) :=
        if_pos hk
      have hfit : (Goal.declarations (follow ∪ statementStart)).Fits {ss} := by
        rw [Goal.Fits]
        exact begins_singleton hstart
      obtain ⟨r, hr, hm⟩ := exists_completed hp hfit (Language.append_mem_mul hd hds) hinput
      have hrest := (hm.input_eq hinput).trans (List.append_nil ss).symm
      obtain ⟨q, hq, hm'⟩ := exists_completed_statements hfollow (hlisted hss) (by decide)
        (hm.options ▸ hp) hrest rfl
      refine ⟨q, ?_, hm.trans hm'⟩
      rw [run_expand [] hexpand, List.append_nil, run_append, hr]
      exact hq

/-- What a program starts with, up to its body. -/
def programHeader : List Goal := programStart.dropLast

/-- The kinds of the tokens that a program starts with, up to its body. -/
def headerKinds : List Kind := [.kwProgram, .ident, .colon]

/-- A parser of a program without its dot misses it at the end of the input. -/
theorem run_programParts_of_body (hp : p.options.recovery = .halt)
    (hb : Phrase.body.Derives b) (hinput : p.input = headerKinds ++ b) :
    ∃ q : Parser, p.run Goal.programParts =
        Ending.halted (q.note (.token .dot) .program (single .eof)) ∧
      Matched (headerKinds ++ b) p q ∧ q.kind = .eof := by
  have hparts : Goal.programParts =
      programHeader ++ ([Goal.body (single .dot)] ++ [programEnd]) := rfl
  have hfit : Goal.AllFit {b} programHeader := by
    simp [programHeader, programStart, Goal.programParts, Goal.AllFit, Goal.Fits]
  have hheader : headerKinds ∈ Goal.languages programHeader := by
    simp only [programHeader, programStart, Goal.programParts, List.dropLast, Goal.languages_cons,
      Goal.languages_nil, Goal.language, mul_one]
    exact mem_kind_mul.2 ⟨_, mem_kind_mul.2 ⟨_, rfl, rfl⟩, rfl⟩
  obtain ⟨r, hr, hm⟩ := (run_shows p programHeader hp hfit).exists_completed hheader hinput
  have hfollow : ∀ k ∈ single .dot, k ∉ binaryOps := by decide
  obtain ⟨q, hq, hm'⟩ :=
    exists_completed_body hfollow (hm.options ▸ hp) hb (hm.input_eq hinput)
  have hmatched := hm.trans hm'
  have hkind : q.kind = .eof := by
    rw [← headD_input, hmatched.input_eq (hinput.trans (List.append_nil _).symm)]
    rfl
  have hrefuse : programEnd.move q.kind =
      .refuse (.token .dot) .program (single .eof) (some .dot) := by
    rw [hkind]
    rfl
  refine ⟨q, ?_, hmatched, hkind⟩
  rw [hparts, run_append, hr, Ending.andThen, run_append, hq, Ending.andThen,
    run_refuse [] hrefuse, if_pos (mustStop_note _ _ _ (hmatched.options ▸ hp))]

/-- A list with all of a program but its dot misses the dot. -/
theorem parse_of_dot (hts : ts.input = w) (h : Phrase.program.Derives (w ++ [Kind.dot])) :
    parse ts = .error ⟨.token .dot, Rule.program.name, ts.tokenAt w.length, single .eof⟩ ∧
      (ts.tokenAt w.length).kind = .eof := by
  obtain ⟨b, rfl, hb⟩ : ∃ b, w = headerKinds ++ b ∧ Phrase.body.Derives b := by
    generalize hdot : w ++ [Kind.dot] = x at h
    cases h with
    | @program b hb => exact ⟨b, List.append_cancel_right hdot, hb⟩
  have hkind : (ofList {} ts).seek.kind = .kwProgram :=
    kind_seek_of_mem_input {} (hts ▸ List.mem_cons_self)
  obtain ⟨u, hu⟩ := stands_seek {} ts
  obtain ⟨rfl, hinput⟩ := hu.eq_of_input (u := []) List.not_mem_nil hts
    ((headD_input _).trans hkind)
  obtain ⟨q, hrun, hm, heof⟩ :=
    run_programParts_of_body (p := (ofList {} ts).seek) rfl hb hinput
  have hend : recognize {} .program ts =
      .halted (q.note (.token .dot) .program (single .eof)) := by
    rw [recognize_program, if_pos hkind, hrun]
  have hq := hu.matched hm
  have hcurrent : q.cursor.current = ts.tokenAt (headerKinds ++ b).length := by
    rw [hq.cursor, List.length_nil, Nat.zero_add]
    exact Cursor.current_skip_ofList ts _
  rw [parse_of_halted hend hq.fresh, ← hcurrent]
  exact ⟨rfl, heof⟩

end Parser

/-- A list with the tokens of a program but its dot misses it at the end of the input. Any other
    that ends within a program is refused at the end of the input as well. Whatever a parser does
    about the error, it finds no other one. -/
theorem parse_cut_short {w : List Kind} (hw : Phrase.program.Derives (w ++ [Kind.dot])) :
    (∀ ts : TokenList, ts.input = w → ts.Unfinished
      ⟨.token .dot, Rule.program.name, ts.tokenAt w.length, single .eof⟩) ∧
    ∀ (v : List Kind) (ts : TokenList), v <+: w ++ [Kind.dot] → v ≠ w ++ [Kind.dot] →
      v.head? = some Kind.kwProgram → ts.input = v → ∃ e, ts.Unfinished e := by
  refine ⟨fun ts hts => ?_, fun v ts hv hne hhead hts => ?_⟩
  · obtain ⟨herror, heof⟩ := Parser.parse_of_dot hts hw
    exact .of_parse herror heof
  · obtain ⟨x, rfl⟩ := List.head?_eq_some_iff.1 hhead
    obtain ⟨u, hu⟩ := hv
    obtain ⟨e, herror, heof⟩ := Parser.exists_error_of_isPrefix hts (hu ▸ hw) fun hnil => by
      rw [hnil, List.append_nil] at hu
      exact hne hu
    exact ⟨e, .of_parse herror heof⟩

/-- The tokens of a program that prints a number, without its dot. -/
def TokenList.printOne : TokenList :=
  [.bare .kwProgram ⟨1, 1⟩, .of .ident "p" ⟨1, 9⟩, .bare .colon ⟨1, 10⟩, .bare .kwPrint ⟨1, 12⟩,
    .of .num "1" ⟨1, 18⟩]

/-- The dot is missed, at the position of the last token. Without the number there is one error
    as well. -/
theorem unfinished_printOne :
    Phrase.program.Derives (TokenList.printOne.input ++ [Kind.dot]) ∧
      TokenList.printOne.Unfinished
        ⟨.token .dot, Rule.program.name, .eof ⟨1, 18⟩, single .eof⟩ ∧
      ∃ e, TokenList.Unfinished (TokenList.printOne.take 4) e := by
  have hprogram : Phrase.program.Derives (TokenList.printOne.input ++ [Kind.dot]) :=
    .program (.body .noDeclarations (.lastStatement
      (.print (.sum (.lastTerm (.lastFactor (.plain .number)))))))
  obtain ⟨hdot, hcut⟩ := parse_cut_short hprogram
  exact ⟨hprogram, hdot _ rfl, hcut _ _ (by decide) (by decide) rfl rfl⟩

end TinyLang

import TinyLang.Proofs.Parser.ErrorLimit
import TinyLang.Proofs.Parser.Options
import TinyLang.Proofs.Parser.Outline

/-!
# Parsing without a limit

A parser that resumes behind every error, however many there are, is stopped by none
(`Parser.run_of_unlimited`): it works through all the goals of a program, and what it does last
is to match the dot at the end. Where there is none it passes over tokens up to a dot or the end
of the input. So it ends behind a dot that it matched as the last one, or at the end of the input
(`parse_panic_completes`).
-/

namespace TinyLang

open KindSet

namespace Parser

variable {p q : Parser} {gs : List Goal} {ts : TokenList}

/-! ## Runs that no error stops -/

/-- Whether a parser resumes behind every error. -/
def Options.Unlimited (options : Options) : Prop :=
  options.recovery = .panic ∧ options.errorLimit = 0

theorem mustStop_of_unlimited (h : p.options.Unlimited) : p.mustStop = false := by
  rw [mustStop, h.1, h.2]
  rfl

theorem options_resume (rule : Rule) (follow : KindSet) (missing : Option Kind) (p : Parser) :
    (p.resume rule follow missing).options = p.options := by
  cases missing with
  | none => rfl
  | some kind =>
    rw [resume, acceptIf]
    split <;> rfl

/-- No error stops a parser that has no program to look for. -/
theorem run_of_unlimited (p : Parser) (gs : List Goal) (h : p.options.Unlimited)
    (hgs : .program ∉ gs) : ∃ q, p.run gs = .completed q ∧ q.options = p.options := by
  induction p, gs using run_induction with
  | done p => exact ⟨p, run_nil p, rfl⟩
  | expand p g gs goals hmove ih =>
    rw [run_expand gs hmove]
    exact ih h (program_notMem_append hmove hgs)
  | shift p g gs rule goals hmove ih =>
    rw [run_shift gs hmove]
    exact ih h (program_notMem_append hmove hgs)
  | refuse p g gs expected rule follow missing hmove ih =>
    have hnote := options_note expected rule follow p
    have hoptions := (options_resume rule follow missing _).trans hnote
    rw [run_refuse gs hmove, mustStop_of_unlimited (by rwa [hnote]), if_neg Bool.false_ne_true]
    obtain ⟨q, hrun, hq⟩ := ih (by rwa [hoptions]) fun hmem => hgs (List.mem_cons_of_mem _ hmem)
    exact ⟨q, hrun, hq.trans hoptions⟩
  | seek p g gs goals hmove ih =>
    obtain ⟨rfl, -⟩ := Goal.move_eq_seek hmove
    exact absurd List.mem_cons_self hgs

/-! ## The end of a program -/

/-- The goals of a program before the dot at its end. -/
def programStart : List Goal := Goal.programParts.dropLast

/-- The dot at the end of a program. -/
def programEnd : Goal := .token .dot .program (single .eof)

/-- Whether a parser of a list matched the dot at the end of a program, or is at the end of the
    input. -/
def Finished (ts : TokenList) (options : Options) (q : Parser) : Prop :=
  (∃ o : Outline, o.options = options ∧ (o.fill ts).kind = .dot ∧
    q = (o.fill ts).accept .program) ∨
  ∃ o : Outline, (o.fill ts).kind = .eof ∧ q = o.fill ts

/-- The dot is matched, if need be behind tokens that are passed over, unless the end of the
    input comes first. -/
theorem run_programEnd (ts : TokenList) (o : Outline) (h : o.options.Unlimited) :
    ∃ q, (o.fill ts).run [programEnd] = .completed q ∧ Finished ts o.options q := by
  by_cases hdot : (o.fill ts).kind = .dot
  · have hmove : programEnd.move (o.fill ts).kind = .shift .program [] := if_pos hdot
    refine ⟨_, ?_, .inl ⟨o, rfl, hdot, rfl⟩⟩
    rw [run_shift [] hmove, List.append_nil, run_nil]
  · have hmove : programEnd.move (o.fill ts).kind =
        .refuse (.token .dot) .program (single .eof) (some .dot) := if_neg hdot
    -- the outlines behind the error, and behind the tokens that are passed over
    obtain ⟨o₁, ho₁, hnote⟩ : ∃ o₁ : Outline, o₁.options = o.options ∧
        (o.fill ts).note (.token .dot) .program (single .eof) = o₁.fill ts :=
      ⟨_, Outline.options_note .., Outline.fill_note ..⟩
    obtain ⟨o₂, ho₂, hrecover⟩ : ∃ o₂ : Outline, o₂.options = o₁.options ∧
        (o₁.fill ts).recover ((single .eof).insert .dot) = o₂.fill ts :=
      ⟨o₁.recover ts.kinds ((single .eof).insert .dot), rfl, Outline.fill_recover ts o₁ _⟩
    have hlimit : o₁.options.Unlimited := ho₁ ▸ h
    have hgo : (o₁.fill ts).mustStop = false := mustStop_of_unlimited hlimit
    have hkind := kind_recover ((single .eof).insert .dot) (o₁.fill ts)
    rw [run_refuse [] hmove, run_nil, hnote, hgo, if_neg Bool.false_ne_true]
    rw [hrecover, contains_insert, contains_single, Bool.or_eq_true, beq_iff_eq,
      beq_iff_eq] at hkind
    refine ⟨_, rfl, ?_⟩
    rw [resume, hrecover, acceptIf]
    split
    · next hdot => exact .inl ⟨o₂, ho₂.trans ho₁, hdot, rfl⟩
    · next hdot =>
      refine .inr ⟨o₂, ?_, rfl⟩
      rcases hkind with (heof | hdot') | heof
      · exact heof.symm
      · exact absurd hdot'.symm hdot
      · exact heof

/-- A parser that no error stops works through the program up to its end. -/
theorem exists_finished (options : Options) (ho : options.Unlimited) (h : .kwProgram ∈ ts.input) :
    ∃ q, recognize options .program ts = .completed q ∧ Finished ts options q := by
  obtain ⟨o, hseek⟩ : ∃ o : Outline, (ofList options ts).seek = o.fill ts :=
    ⟨_, by rw [← Outline.fill_ofList, Outline.fill_seek]⟩
  have hoptions : o.options = options := congrArg Parser.options hseek.symm
  have hlimit : o.options.Unlimited := hoptions ▸ ho
  have hparts : Goal.programParts = programStart ++ [programEnd] := rfl
  rw [recognize_program, if_pos (kind_seek_of_mem_input options h), hseek, hparts, run_append]
  obtain ⟨q, hrun, hq⟩ := run_of_unlimited (o.fill ts) programStart hlimit (by decide)
  obtain ⟨o', hparser, -⟩ := @Outline.run_fill ts ts rfl o programStart
  rw [hrun] at hparser ⊢
  obtain rfl : q = o'.fill ts := hparser
  have hoptions' : o'.options = options := hq.trans hoptions
  obtain ⟨r, hend, hfinished⟩ := run_programEnd ts o' (hoptions' ▸ ho)
  exact ⟨r, hend, hoptions' ▸ hfinished⟩

end Parser

/-- Behind every error a parser without a limit goes on, so if there is a program it is never
    stopped. In the end it is behind the dot that it matched as the last of the program, or at
    the end of the input. -/
theorem parse_panic_completes {ts : TokenList} (recordMatches : Bool) (h : .kwProgram ∈ ts.input) :
    (Parser.recognize ⟨.panic, 0, recordMatches⟩ .program ts).isCompleted = true ∧
      ((∃ i t, (parseWith ⟨.panic, 0, recordMatches⟩ ts).summary.consumed = i + 1 ∧
          ts[i]? = some t ∧ t.kind = .dot ∧
            (parseWith ⟨.panic, 0, true⟩ ts).trace.getLast? =
              some ⟨.dot, Rule.program.name, t.position⟩) ∨
        (ts.tokenAt (parseWith ⟨.panic, 0, recordMatches⟩ ts).summary.consumed).kind = .eof) := by
  have hsummary : (parseWith ⟨.panic, 0, recordMatches⟩ ts).summary =
      (parseWith ⟨.panic, 0, true⟩ ts).summary := by
    cases recordMatches with
    | true => rfl
    | false =>
      have huntraced := congrArg Outcome.summary (parseWith_untraced ⟨.panic, 0, true⟩ ts)
      exact huntraced
  obtain ⟨q, hrun, hq⟩ := Parser.exists_finished ⟨.panic, 0, true⟩ ⟨rfl, rfl⟩ h
  have houtcome : parseWith ⟨.panic, 0, true⟩ ts = (Parser.Ending.completed q).outcome :=
    congrArg Parser.Ending.outcome hrun
  constructor
  · obtain ⟨q', hrun', -⟩ := Parser.exists_finished ⟨.panic, 0, recordMatches⟩ ⟨rfl, rfl⟩ h
    rw [hrun']
    rfl
  rw [hsummary, houtcome]
  rcases hq with ⟨o, ho, hdot, rfl⟩ | ⟨o, heof, rfl⟩
  · have hne : (o.fill ts).kind ≠ .eof := by simp [hdot]
    have htoken : (ts.tokenAt o.index).kind = .dot := by
      rw [← hdot, Parser.Outline.kind_fill, TokenList.kind_tokenAt]
    refine .inl ⟨o.index, ts.tokenAt o.index, ?_, ?_, htoken, ?_⟩
    · show ((o.fill ts).accept .program).cursor.index = o.index + 1
      rw [Parser.index_accept hne, Parser.Outline.index_fill]
    · exact TokenList.getElem?_of_kind_ne (by simp [htoken])
    · show ((o.fill ts).accept .program).trace.toList.getLast? = _
      have hrecord : (o.fill ts).options.recordMatches = true := congrArg (·.recordMatches) ho
      rw [Parser.accept, if_pos hrecord, Parser.Outline.current_fill, htoken, Array.toList_push,
        List.getLast?_concat]
  · right
    show (ts.tokenAt (o.fill ts).cursor.index).kind = .eof
    rwa [Parser.Outline.index_fill, TokenList.kind_tokenAt, ← Parser.Outline.kind_fill]

/-- A list with an error behind which the dot is found. -/
theorem completes_nothingToPrintTwice :
    .kwProgram ∈ TokenList.nothingToPrintTwice.input ∧
      (parseWith ⟨.panic, 0, true⟩ .nothingToPrintTwice).errors.length = 2 ∧
      (Parser.recognize ⟨.panic, 0, true⟩ .program .nothingToPrintTwice).isCompleted = true :=
  ⟨by decide, by cbv, (parse_panic_completes true (by decide)).1⟩

end TinyLang

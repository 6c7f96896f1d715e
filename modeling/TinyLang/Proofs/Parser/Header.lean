import TinyLang.Proofs.Parser.Actions
import TinyLang.Proofs.Parser.EarliestError
import TinyLang.Proofs.Parser.ErrorLimit
import TinyLang.Proofs.Parser.Options

/-!
# The start of a program

What is passed over at the start of a list are the tokens before the first `program`, or all of
them if there is none (`skipped_parseWith`). An error asks for a token of one kind only if that
kind is in a word of the goals (`Parser.run_avoids`). Behind the first `program` there is no other
one in any word, so the error that there is no program is met where there is none and nowhere
else, whatever is done about errors (`exists_missingProgram_iff`).
-/

namespace TinyLang

open KindSet

namespace Parser

variable {ts : TokenList} {l : Language Kind} {p q : Parser} {u : List Kind}

/-! ## What is passed over -/

/-- A parser that found the program, or none, passed over the tokens before the first one. -/
theorem Stands.length_eq_idxOf (h : Stands ts u [] q) (hq : q.kind = .kwProgram ∨ q.kind = .eof) :
    u.length = ts.input.idxOf .kwProgram := by
  rw [h.input, List.nil_append, List.idxOf_append_of_notMem h.notMem]
  rcases hq with hq | hq
  · rw [(matched_accept (by simp [hq]) .program).input, hq, List.singleton_append,
      List.idxOf_cons_self, Nat.add_zero]
  · rw [input_eq_nil hq, List.idxOf_nil, Nat.add_zero]

theorem skipped_recognize (options : Options) (ts : TokenList) :
    (recognize options .program ts).parser.skipped = ts.input.idxOf .kwProgram := by
  obtain ⟨u, hu⟩ := stands_seek options ts
  have hlength := hu.length_eq_idxOf (kind_seek _)
  rw [recognize_program]
  split
  · have hextends := extends_run (ofList options ts).seek Goal.programParts (by decide)
    rw [hextends.skipped, hu.skipped, hlength]
  · exact (extends_note _ _ _ _).skipped.trans (hu.skipped.trans hlength)

/-! ## What is asked for -/

/-- An error asks for a token of a kind only if that kind is in a word of the goals. -/
theorem run_avoids {kind : Kind} (p : Parser) (gs : List Goal) (hfit : Goal.AllFit l gs)
    (hgs : ∀ w ∈ Goal.languages gs, kind ∉ w)
    (hp : ∀ e ∈ p.errors.toList, e.expected ≠ .token kind) :
    ∀ e ∈ (p.run gs).parser.errors.toList, e.expected ≠ .token kind := by
  induction p, gs using run_induction with
  | done p =>
    rw [run_nil]
    exact hp
  | expand p g gs goals hmove ih =>
    have hs := Goal.suits_move hfit.1 p.kind
    rw [hmove] at hs
    rw [run_expand gs hmove]
    refine ih (Goal.allFit_append.2 ⟨hs.fits, hfit.2⟩) (fun w hw => ?_) hp
    exact hgs ([] ++ w) (append_mem_of_suits hs (one_mul _).symm hw)
  | shift p g gs rule goals hmove ih =>
    have hs := Goal.suits_move hfit.1 p.kind
    rw [hmove] at hs
    rw [run_shift gs hmove]
    refine ih (Goal.allFit_append.2 ⟨hs.fits, hfit.2⟩) (fun w hw hmem => ?_) hp
    exact hgs ([p.kind] ++ w) (append_mem_of_suits hs rfl hw) (List.mem_append_right _ hmem)
  | refuse p g gs expected rule follow missing hmove ih =>
    obtain ⟨w, hw⟩ := Goal.exists_mem_languages gs
    have hexpected : expected ≠ .token kind := by
      rintro rfl
      rcases Goal.refuse_cases hfit.1 hmove with ⟨kind', rfl, -, hkind, -⟩ | ⟨_, hkind, -⟩
      · obtain rfl := Expected.token.inj hkind
        refine hgs ([kind] ++ w) ?_ List.mem_cons_self
        rw [Goal.languages_cons]
        exact Language.append_mem_mul rfl hw
      · cases hkind
    have hnote : ∀ e ∈ (p.note expected rule follow).errors.toList,
        e.expected ≠ .token kind := by
      rw [note]
      split
      · exact hp
      · rw [Array.toList_push]
        exact List.forall_mem_append.2 ⟨hp, List.forall_mem_singleton.2 hexpected⟩
    rw [run_refuse gs hmove]
    split
    · exact hnote
    · refine ih hfit.2 (fun v hv hmem => ?_) ?_
      · -- a word of the goals that are left comes behind one of the goal that was given up
        obtain ⟨u, hu⟩ := Goal.exists_mem_languages [g]
        rw [Goal.languages_cons, Goal.languages_nil, mul_one] at hu
        refine hgs (u ++ v) ?_ (List.mem_append_right _ hmem)
        rw [Goal.languages_cons]
        exact Language.append_mem_mul hu hv
      · rwa [errors_resume]
  | seek p g gs goals hmove _ =>
    obtain ⟨rfl, _⟩ := Goal.move_eq_seek hmove
    exact hfit.1.elim

/-- Behind `program` no other one is wanted. -/
theorem avoids_program : ∀ w ∈ Goal.languages Goal.programParts.tail, .kwProgram ∉ w := by
  intro w hw hmem
  have hprogram : .kwProgram :: w ∈ Goal.languages Goal.programParts := by
    show [Kind.kwProgram] ++ w ∈ Goal.languages (_ :: Goal.programParts.tail)
    rw [Goal.languages_cons]
    exact Language.append_mem_mul rfl hw
  obtain ⟨x, y, rfl⟩ := List.append_of_mem hmem
  rw [languages_programParts, Phrase.mem_language, ← List.cons_append] at hprogram
  cases Phrase.eq_nil_of_derives_program hprogram

/-- Where there is a program, no error asks for one. -/
theorem expected_ne_program (options : Options) (h : .kwProgram ∈ ts.input) :
    ∀ e ∈ (parseWith options ts).errors, e.expected ≠ .token .kwProgram := by
  have hkind := kind_seek_of_mem_input options h
  have hmove : (Goal.token .kwProgram .program ((bodyStart.insert .colon).insert .dot)).move
      (ofList options ts).seek.kind = .shift .program [] := if_pos hkind
  have hrun : recognize options .program ts =
      ((ofList options ts).seek.accept .program).run Goal.programParts.tail := by
    rw [recognize_program, if_pos hkind]
    exact run_shift _ hmove
  rw [parseWith, hrun]
  exact run_avoids _ _ (allFit_programParts 1).2 avoids_program (List.forall_mem_nil _)

end Parser

/-- The number of tokens that are passed over at the start. -/
theorem skipped_parseWith (options : Parser.Options) (ts : TokenList) :
    (parseWith options ts).summary.skipped = ts.input.idxOf .kwProgram :=
  Parser.skipped_recognize options ts

/-- The error that there is no program is met if there is none, and only then. -/
theorem exists_missingProgram_iff (options : Parser.Options) (ts : TokenList) :
    (∃ e ∈ (parseWith options ts).errors, e.code = .missingProgram) ↔ .kwProgram ∉ ts.input := by
  constructor
  · rintro ⟨e, he, hcode⟩ hmem
    have hne := Parser.expected_ne_program options hmem e he
    have hnot : e.isMissingProgram = false := by simp [SyntaxError.isMissingProgram, hne]
    rw [SyntaxError.code, hnot] at hcode
    cases hcode
  · intro hnot
    cases hparse : parse ts with
    | ok s =>
      obtain ⟨u, w, v, hts⟩ := Parser.exists_holds_of_ok hparse
      exact absurd (Parser.mem_input_of_holds hts) hnot
    | error e =>
      rcases Parser.error_cases hparse with ⟨hmissing, -⟩ | ⟨-, hmem, -⟩
      · exact ⟨e, List.mem_of_mem_head? (head?_errors_of_parse hparse options), hmissing⟩
      · exact absurd hmem hnot

end TinyLang

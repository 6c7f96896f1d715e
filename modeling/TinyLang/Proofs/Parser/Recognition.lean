import TinyLang.Proofs.Parser.Input
import TinyLang.Proofs.Parser.Prediction

/-!
# Recognition

A parser that stops at the first error takes exactly the words of its agenda off
its input (`Parser.run_shows`). If it completes, the tokens that it matched are a
word of the agenda, and no other word of it leaves what may follow. If it halts, the
tokens that it matched begin a word of the agenda, and none that goes on with the
token at which it halted.

For the whole program this says what parsing comes to (`Parser.course`): a list of
tokens is accepted if and only if a program stands at its first `program`
(`parse_ok_iff`).
-/

namespace TinyLang

open KindSet

namespace Parser

/-! ## What a run shows -/

/-- A run on the goals `gs` that took the word `w` off the input of `p` and met no
    error, where words of `l` may follow. -/
structure Recognized (l : Language Kind) (gs : List Goal) (w : List Kind) (p q : Parser) :
    Prop where
  matched : Matched w p q
  sound : w ∈ Goal.languages gs
  complete : p.input ∈ Goal.languages gs * l → q.input ∈ l

/-- A run on the goals `gs` that took the word `w` off the input of `p` and refused
    the token behind it, where words of `l` may follow. -/
structure Refused (l : Language Kind) (gs : List Goal) (w : List Kind) (expected : Expected)
    (p q : Parser) : Prop where
  matched : Matched w p q
  viable : ∃ u, w ++ u ∈ Goal.languages gs
  wanted : ∀ k, expected.contains k = true → ∃ u, w ++ k :: u ∈ Goal.languages gs
  unwanted : ∀ u : List Kind, u.headD .eof = q.kind → w ++ u ∉ Goal.languages gs * l

/-- What the end of a run shows about the input. -/
inductive Shows (l : Language Kind) (gs : List Goal) (p : Parser) : Ending → Prop
  | completed {w : List Kind} {q : Parser} :
      Recognized l gs w p q → Shows l gs p (.completed q)
  | halted {w : List Kind} {q : Parser} {expected : Expected} {rule : Rule} {follow : KindSet} :
      Refused l gs w expected p q → Shows l gs p (.halted (q.note expected rule follow))

/-- Words that begin with the same word begin alike if what is behind it does. -/
theorem headD_append_congr {u v : List Kind} (h : u.headD .eof = v.headD .eof) (w : List Kind) :
    (w ++ u).headD .eof = (w ++ v).headD .eof := by
  cases w with
  | nil => exact h
  | cons => rfl

variable {l : Language Kind} {p q r : Parser} {g : Goal} {gs : List Goal} {m : Move}

/-- A word that goes on as the parser's input does begins with its first kind. -/
theorem Matched.headD_append {w u : List Kind} (h : Matched w p q)
    (hu : u.headD .eof = q.kind) : (w ++ u).headD .eof = p.kind := by
  rw [← headD_input p, h.input]
  exact headD_append_congr (hu.trans (headD_input q).symm) w

section Step

variable {v : List Kind} (hs : m.Suits p.kind g (Goal.languages gs * l))
  (hv : m.language p.kind = {v} * Goal.languages m.goals) (hm : Matched v p q)

include hs hv

theorem append_mem_of_suits {w : List Kind} (hw : w ∈ Goal.languages (m.goals ++ gs)) :
    v ++ w ∈ Goal.languages (g :: gs) := by
  rw [Goal.languages_append] at hw
  obtain ⟨w₁, hw₁, w₂, hw₂, rfl⟩ := Language.mem_mul.1 hw
  rw [← List.append_assoc, Goal.languages_cons]
  refine Language.append_mem_mul (hs.sound ?_) hw₂
  rw [hv]
  exact mem_word_mul.2 ⟨w₁, hw₁, rfl⟩

theorem mem_of_suits {w : List Kind} (hw : v ++ w ∈ Goal.languages (g :: gs) * l)
    (hk : (v ++ w).headD .eof = p.kind) : w ∈ Goal.languages (m.goals ++ gs) * l := by
  rw [Goal.languages_cons, mul_assoc] at hw
  have := hs.complete _ hw hk
  rw [hv, mul_assoc, ← mul_assoc (Goal.languages m.goals), ← Goal.languages_append] at this
  obtain ⟨u, hu, heq⟩ := mem_word_mul.1 this
  rwa [List.append_cancel_left heq]

include hm

/-- What a run shows after a move that suits the first goal, it shows before it. -/
theorem Shows.of_suits {e : Ending} (h : Shows l (m.goals ++ gs) q e) : Shows l (g :: gs) p e := by
  cases h with
  | completed hr =>
    refine .completed ⟨hm.trans hr.matched, append_mem_of_suits hs hv hr.sound, fun hp => ?_⟩
    rw [hm.input] at hp
    exact hr.complete (mem_of_suits hs hv hp (hm.headD_append (headD_input q)))
  | halted hr =>
    have hmatched := hm.trans hr.matched
    refine .halted ⟨hmatched, ?_, fun k hk => ?_, fun u hu hmem => ?_⟩
    · obtain ⟨u, hu⟩ := hr.viable
      refine ⟨u, ?_⟩
      rw [List.append_assoc]
      exact append_mem_of_suits hs hv hu
    · obtain ⟨u, hu⟩ := hr.wanted k hk
      refine ⟨u, ?_⟩
      rw [List.append_assoc]
      exact append_mem_of_suits hs hv hu
    · have hk := hmatched.headD_append hu
      rw [List.append_assoc] at hmem hk
      exact hr.unwanted u hu (mem_of_suits hs hv hmem hk)

end Step

/-- A refused token is behind no word of the goals. -/
theorem refused_of_suits {expected : Expected} {rule : Rule} {follow : KindSet}
    {missing : Option Kind}
    (hs : (Move.refuse expected rule follow missing).Suits p.kind g (Goal.languages gs * l)) :
    Refused l (g :: gs) [] expected p p := by
  refine ⟨.refl p, Goal.exists_mem_languages _, fun k hk => ?_, fun u hu hmem => ?_⟩
  · obtain ⟨u, hu⟩ := hs.wanted _ _ _ _ rfl k hk
    obtain ⟨w, hw⟩ := Goal.exists_mem_languages gs
    have huw : (k :: u) ++ w ∈ Goal.languages (g :: gs) := by
      rw [Goal.languages_cons]
      exact Language.append_mem_mul hu hw
    exact ⟨u ++ w, huw⟩
  · rw [Goal.languages_cons, mul_assoc] at hmem
    have hempty := hs.complete u hmem hu
    rw [Move.language, zero_mul] at hempty
    exact Language.notMem_zero u hempty

/-- A parser that stops at the first error takes the words of its goals off its
    input, if every goal fits what is behind it. -/
theorem run_shows (p : Parser) (gs : List Goal) (hp : p.options.recovery = .halt)
    (hfit : Goal.AllFit l gs) : Shows l gs p (p.run gs) := by
  -- The goals fit what is behind them all along, so the move suits the first one.
  -- A run that goes on hands back what its rest shows; a refusal shows it at once.
  induction p, gs using run_induction with
  | done p =>
    rw [run_nil]
    refine .completed ⟨.refl p, rfl, fun h => ?_⟩
    rwa [Goal.languages_nil, one_mul] at h
  | expand p g gs goals hmove ih =>
    have hs := Goal.suits_move hfit.1 p.kind
    rw [hmove] at hs
    rw [run_expand gs hmove]
    have hv : (Move.expand goals).language p.kind = {[]} * Goal.languages goals :=
      (one_mul _).symm
    exact .of_suits hs hv (.refl p) (ih hp (Goal.allFit_append.2 ⟨hs.fits, hfit.2⟩))
  | shift p g gs rule goals hmove ih =>
    have hs := Goal.suits_move hfit.1 p.kind
    rw [hmove] at hs
    rw [run_shift gs hmove]
    have hm := matched_accept (hs.shifts _ _ rfl) rule
    exact .of_suits hs rfl hm (ih hp (Goal.allFit_append.2 ⟨hs.fits, hfit.2⟩))
  | refuse p g gs expected rule follow missing hmove _ =>
    have hs := Goal.suits_move hfit.1 p.kind
    rw [hmove] at hs
    rw [run_refuse gs hmove, if_pos (mustStop_note _ _ _ hp)]
    exact .halted (refused_of_suits hs)
  | seek p g gs goals hmove _ =>
    obtain ⟨rfl, _⟩ := Goal.move_eq_seek hmove
    exact hfit.1.elim

/-! ## The course of parsing -/

/-- A parser that passed over the word `u` and matched the word `w` at the start of
    a list of tokens. -/
structure Stands (ts : TokenList) (u w : List Kind) (q : Parser) : Prop where
  fresh : Fresh q
  input : ts.input = u ++ (w ++ q.input)
  notMem : .kwProgram ∉ u
  cursor : q.cursor = (Cursor.ofList ts).skip (u.length + w.length)
  skipped : q.skipped = u.length

theorem Stands.matched {ts : TokenList} {u v w : List Kind} (h : Stands ts u v p)
    (hm : Matched w p q) : Stands ts u (v ++ w) q where
  fresh := h.fresh.of_matched hm
  input := by rw [h.input, hm.input, List.append_assoc]
  notMem := h.notMem
  cursor := by rw [hm.cursor, h.cursor, Cursor.skip_skip, List.length_append, Nat.add_assoc]
  skipped := hm.skipped.trans h.skipped

theorem stands_seek (options : Options) (ts : TokenList) :
    ∃ u, Stands ts u [] (ofList options ts).seek := by
  obtain ⟨u, hinput, hnot, hseek⟩ := seek_eq (ofList options ts)
  refine ⟨u, ⟨?_, ?_⟩, hinput, hnot, ?_, ?_⟩
  · rw [hseek]
    rfl
  · rw [hseek]
    rfl
  · rw [hseek]
    rfl
  · rw [hseek]
    exact Nat.zero_add _

/-- A parser that passed over everything found no program. -/
theorem Stands.notMem_input {ts : TokenList} {u : List Kind} (h : Stands ts u [] q)
    (hq : q.kind = .eof) : .kwProgram ∉ ts.input := by
  rw [h.input, input_eq_nil hq, List.append_nil, List.append_nil]
  exact h.notMem

/-- What parsing up to the first error comes to, where words of `l` may follow the
    program. -/
inductive Course (l : Language Kind) (ts : TokenList) : Ending → Prop
  /-- There is no program. -/
  | missing {u : List Kind} {q : Parser} : Stands ts u [] q → q.kind = .eof →
      Course l ts (.halted (q.note (.token .kwProgram) .program ∅))
  /-- There is one. -/
  | accepted {u w : List Kind} {p q : Parser} : Stands ts u [] p → Stands ts u w q →
      Recognized l Goal.programParts w p q → Course l ts (.completed q)
  /-- There is the start of one only. -/
  | refused {u w : List Kind} {p q : Parser} {expected : Expected} {rule : Rule}
      {follow : KindSet} : p.kind = .kwProgram → Stands ts u w q →
      Refused l Goal.programParts w expected p q →
      Course l ts (.halted (q.note expected rule follow))

/-- The parts of a program fit whatever is behind it. -/
theorem allFit_programParts (l : Language Kind) : Goal.AllFit l Goal.programParts := by
  simp only [Goal.programParts, Goal.AllFit, Goal.Fits, Goal.languages_cons, Goal.languages_nil,
    Goal.language, mul_one]
  exact ⟨by decide, by decide, by decide, ⟨by decide, .kind_mul (by decide) _⟩, by decide, trivial⟩

theorem languages_programParts : Goal.languages Goal.programParts = Phrase.program.language := by
  simp only [Goal.programParts, Goal.languages_cons, Goal.languages_nil, Goal.language, mul_one]
  exact Phrase.language_program.symm

theorem Recognized.derives {w : List Kind} (h : Recognized l Goal.programParts w p q) :
    Phrase.program.Derives w := by
  rw [← Phrase.mem_language, ← languages_programParts]
  exact h.sound

/-- Parsing up to the first error takes one of these courses. -/
theorem course (l : Language Kind) (options : Options) (h : options.recovery = .halt)
    (ts : TokenList) : Course l ts (recognize options .program ts) := by
  obtain ⟨u, hu⟩ := stands_seek options ts
  have hrun : recognize options .program ts = (ofList options ts).run [.program] := rfl
  rw [hrun, run_seek [] rfl, List.append_nil]
  split
  · next hkind =>
    have hshows := run_shows (ofList options ts).seek Goal.programParts h (allFit_programParts l)
    generalize (ofList options ts).seek.run Goal.programParts = ending at hshows ⊢
    cases hshows with
    | completed hr => exact .accepted hu (hu.matched hr.matched) hr
    | halted hr => exact .refused hkind (hu.matched hr.matched) hr
  · next hkind => exact .missing hu ((kind_seek _).resolve_left hkind)

/-! ## Results -/

section Result

variable {ts : TokenList}

theorem parse_of_completed (h : recognize {} .program ts = .completed q) (hq : Fresh q) :
    parse ts = .ok ⟨q.cursor.index, q.cursor.remaining, q.skipped⟩ := by
  have houtcome : parseWith {} ts = (Ending.completed q).outcome := congrArg Ending.outcome h
  simp [parse, houtcome, Ending.outcome, Ending.parser, Ending.isCompleted, hq.errors]

theorem parse_of_halted {expected : Expected} {rule : Rule} {follow : KindSet}
    (h : recognize {} .program ts = .halted (q.note expected rule follow)) (hq : Fresh q) :
    parse ts = .error ⟨expected, rule.name, q.cursor.current, follow⟩ := by
  have houtcome : parseWith {} ts = (Ending.halted (q.note expected rule follow)).outcome :=
    congrArg Ending.outcome h
  simp [parse, houtcome, Ending.outcome, Ending.parser, errors_note _ _ _ hq]

end Result

end Parser

/-! ## Acceptance -/

/-- A program in a list of tokens: the word `w` up to the end of the input, behind the
    word `u` and before the word `v`. -/
structure TokenList.Holds (ts : TokenList) (u w v : List Kind) : Prop where
  input : ts.input = u ++ w ++ v
  notMem : .kwProgram ∉ u
  program : Phrase.program.Derives w

namespace Parser

variable {ts : TokenList} {u v w : List Kind} {p q : Parser}

/-- The first `program` divides a word in one way. -/
theorem eq_of_append_program {u u' x x' : List Kind} (hu : .kwProgram ∉ u)
    (hu' : .kwProgram ∉ u') (h : u ++ .kwProgram :: x = u' ++ .kwProgram :: x') :
    u = u' ∧ x = x' := by
  have hidx := congrArg (List.idxOf Kind.kwProgram) h
  rw [List.idxOf_append_of_notMem hu, List.idxOf_append_of_notMem hu', List.idxOf_cons_self,
    List.idxOf_cons_self] at hidx
  obtain ⟨rfl, hx⟩ := List.append_inj h (by simpa using hidx)
  exact ⟨rfl, (List.cons.inj hx).2⟩

theorem exists_cons_program (h : Phrase.program.Derives w) : ∃ x, w = .kwProgram :: x := by
  obtain ⟨k, x, rfl, hk⟩ := Phrase.exists_cons_of_derives h rfl
  obtain rfl : .kwProgram = k := by simpa [Phrase.first, mem_iff] using hk
  exact ⟨x, rfl⟩

theorem mem_input_of_holds (hts : ts.Holds u w v) : .kwProgram ∈ ts.input := by
  obtain ⟨x, rfl⟩ := exists_cons_program hts.program
  simp [hts.input]

/-- A parser at `program` stands at the first one. -/
theorem Stands.eq_of_input {u' w' x : List Kind} (h : Stands ts u' w' q) (hu : .kwProgram ∉ u)
    (hts : ts.input = u ++ .kwProgram :: x) (hk : (w' ++ q.input).headD .eof = .kwProgram) :
    u' = u ∧ w' ++ q.input = .kwProgram :: x := by
  obtain ⟨x', hx'⟩ : ∃ x', w' ++ q.input = .kwProgram :: x' := by
    cases hw : w' ++ q.input with
    | nil => simp [hw] at hk
    | cons k x' =>
      rw [hw] at hk
      exact ⟨x', congrArg (· :: x') hk⟩
  have heq := h.input.symm.trans hts
  rw [hx'] at heq
  obtain ⟨rfl, rfl⟩ := eq_of_append_program h.notMem hu heq
  exact ⟨rfl, hx'⟩

/-- A parser at the first `program` stands at the program. -/
theorem Stands.eq_of_holds {u' w' : List Kind} (h : Stands ts u' w' q) (hts : ts.Holds u w v)
    (hk : (w' ++ q.input).headD .eof = .kwProgram) : u' = u ∧ w' ++ q.input = w ++ v := by
  obtain ⟨x, rfl⟩ := exists_cons_program hts.program
  refine h.eq_of_input hts.notMem ?_ hk
  rw [hts.input, List.append_assoc]
  rfl

/-- A parser finds the program that a list of tokens holds. -/
theorem exists_completed_of_holds (hts : ts.Holds u w v) :
    ∃ q, recognize {} .program ts = .completed q ∧ Stands ts u w q ∧ q.input = v := by
  have hcourse := course {v} {} rfl ts
  have hmem : w ++ v ∈ Goal.languages Goal.programParts * {v} := by
    rw [languages_programParts]
    exact Language.append_mem_mul hts.program rfl
  -- `v` alone may follow the program here, so a run that completes leaves `v`, and one
  -- that halts would refuse the token with which the word itself goes on
  generalize recognize {} .program ts = ending at hcourse ⊢
  cases hcourse with
  | @accepted u' w' p q _ hq hr =>
    obtain ⟨x, hx⟩ := exists_cons_program hr.derives
    obtain ⟨rfl, heq⟩ := hq.eq_of_holds hts (by rw [hx]; rfl)
    obtain rfl : q.input = v := hr.complete (by rwa [hr.matched.input, heq])
    obtain rfl := List.append_cancel_right heq
    exact ⟨q, rfl, hq, rfl⟩
  | missing hq hk => exact absurd (mem_input_of_holds hts) (hq.notMem_input hk)
  | @refused u' w' p q expected rule follow hp hq hr =>
    obtain ⟨-, heq⟩ := hq.eq_of_holds hts ((hr.matched.headD_append (headD_input q)).trans hp)
    exact absurd (heq ▸ hmem) (hr.unwanted q.input (headD_input q))

theorem exists_holds_of_ok {s : Summary} (h : parse ts = .ok s) : ∃ u w v, ts.Holds u w v := by
  have hcourse := course 1 {} rfl ts
  generalize hend : recognize {} .program ts = ending at hcourse
  cases hcourse with
  | @accepted u w p q _ hq hr =>
    exact ⟨u, w, q.input, by rw [hq.input, List.append_assoc], hq.notMem, hr.derives⟩
  | missing hq _ =>
    rw [parse_of_halted hend hq.fresh] at h
    cases h
  | refused _ hq _ =>
    rw [parse_of_halted hend hq.fresh] at h
    cases h

theorem parse_of_holds (hts : ts.Holds u w v) :
    parse ts = .ok
      { consumed := u.length + w.length
        trailing := (ts.drop (u.length + w.length)).countP fun t => !t.isEof
        skipped := u.length } := by
  obtain ⟨q, hend, hq, -⟩ := exists_completed_of_holds hts
  rw [parse_of_completed hend hq.fresh, hq.cursor, hq.skipped]
  simp [Cursor.skip, Cursor.ofList, Cursor.remaining]

/-- There is no other program in a list of tokens than the one that the parser finds. -/
theorem holds_unique {u' v' w' : List Kind} (hts : ts.Holds u w v) (hts' : ts.Holds u' w' v') :
    u' = u ∧ w' = w ∧ v' = v := by
  obtain ⟨q, hend, hq, rfl⟩ := exists_completed_of_holds hts
  obtain ⟨q', hend', hq', rfl⟩ := exists_completed_of_holds hts'
  obtain rfl : q' = q := Ending.completed.inj (hend'.symm.trans hend)
  have hlen : u'.length = u.length := hq'.skipped.symm.trans hq.skipped
  obtain ⟨rfl, hw⟩ := List.append_inj (hq'.input.symm.trans hq.input) hlen
  exact ⟨rfl, List.append_cancel_right hw, rfl⟩

end Parser

/-- A list of tokens is accepted if and only if it holds a program, which it does in
    one way only. The program starts at the first `program` before the end of the
    input; the tokens behind it are not looked at. -/
theorem parse_ok_iff (ts : TokenList) :
    ((∃ s, parse ts = .ok s) ↔ ∃ u w v, ts.Holds u w v) ∧
      ∀ u w v, ts.Holds u w v →
        parse ts = .ok
          { consumed := u.length + w.length
            trailing := (ts.drop (u.length + w.length)).countP fun t => !t.isEof
            skipped := u.length } ∧
        ∀ u' w' v', ts.Holds u' w' v' → u' = u ∧ w' = w ∧ v' = v := by
  refine ⟨⟨?_, ?_⟩, fun u w v hts => ⟨Parser.parse_of_holds hts, ?_⟩⟩
  · rintro ⟨s, hs⟩
    exact Parser.exists_holds_of_ok hs
  · rintro ⟨u, w, v, hts⟩
    exact ⟨_, Parser.parse_of_holds hts⟩
  · intro u' w' v' hts'
    exact Parser.holds_unique hts hts'

/-- The smallest program, with a token before it and one behind. -/
theorem parse_smallest_program :
    parse [.of .num "1" ⟨1, 1⟩, .bare .kwProgram ⟨1, 3⟩, .of .ident "p" ⟨1, 11⟩,
      .bare .colon ⟨1, 12⟩, .bare .dot ⟨1, 14⟩, .bare .comma ⟨1, 15⟩, .eof ⟨1, 16⟩] =
      .ok { consumed := 5, trailing := 1, skipped := 1 } :=
  ((parse_ok_iff _).2 [.num] [.kwProgram, .ident, .colon, .dot] [.comma]
    ⟨rfl, by decide, .program (.body .noDeclarations .noStatements)⟩).1

end TinyLang

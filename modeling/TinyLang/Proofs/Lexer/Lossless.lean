import TinyLang.Proofs.Lexer.Scanning

/-!
# Lexing loses nothing

A lexer that collects all errors divides its text (`lexer_lossless`): the gaps and
lexemes that its items stand for are the whole text, in order, and the end of the
input comes once, behind all of it. What a lexer gives next depends on where it
stands only (`Lexer.Stands`), whether or not the character ahead was reported
already.
-/

namespace TinyLang

/-! ## The next token -/

namespace Scanner

variable {inComment failed : Bool} {text rest : List Char}

theorem nextToken_eq (s : Scanner) :
    s.nextToken =
      s.skipGap.andThen fun _ t =>
        match t.current with
        | none => .ok (.eof t.position) t
        | some c =>
          (t.lexeme t.position c).andThen fun r u =>
            match r with
            | some token => .ok token u
            | none => u.nextToken := by
  rw [nextToken]
  split
  · next h => rw [h, Scanned.andThen_error]
  · next t h =>
    rw [h, Scanned.andThen_ok]
    split
    · next hc => rw [hc]
    · next c hc =>
      rw [hc]
      dsimp only
      split
      · next hl => rw [hl, Scanned.andThen_error]
      · next hl => rw [hl, Scanned.andThen_ok]
      · next hl => rw [hl, Scanned.andThen_ok]

theorem skipGap_between :
    (between false failed text rest).skipGap = (between false failed text rest).skipBlanks := by
  rw [skipGap]
  exact if_neg Bool.false_ne_true

/-- The token behind a comment is the one behind its line. -/
theorem nextToken_inComment :
    (between true failed text rest).nextToken =
      (between false failed (text ++ rest.takeWhile (· != '\n'))
        (rest.dropWhile (· != '\n'))).nextToken := by
  have hgap : (between true failed text rest).skipGap =
      (between false failed (text ++ rest.takeWhile (· != '\n'))
        (rest.dropWhile (· != '\n'))).skipGap := by
    have hin : (between true failed text rest).inComment = true := rfl
    rw [skipGap, if_pos hin, skipComment_between, Scanned.andThen_ok, skipGap_between]
  rw [nextToken_eq, hgap, ← nextToken_eq]

/-- What a scanner between `text` and `rest` meets: the end of the text behind a gap, or
    what stands behind one. -/
inductive Meets (failed : Bool) (text rest : List Char) : Scanned Token → Prop
  /-- There is only a gap left. -/
  | eof : Lexer.Gap [] rest →
      Meets failed text rest
        (.ok (.eof (.behind (text ++ rest))) (between false failed (text ++ rest) []))
  /-- Something stands behind a gap. -/
  | scans {gap ahead : List Char} {r : Scanned Token} : rest = gap ++ ahead →
      Lexer.Gap ahead gap → Scans failed (text ++ gap) ahead (r.map some) → Meets failed text rest r

theorem Meets.of_scans {r : Scanned Token} (h : Scans failed text rest (r.map some)) :
    Meets failed text rest r := by
  refine .scans (List.nil_append rest).symm .nil ?_
  rwa [List.append_nil]

theorem Meets.of_blanks {blanks : List Char} {r : Scanned Token}
    (hblanks : ∀ c ∈ blanks, Text.isBlank c = true) (h : Meets failed (text ++ blanks) rest r) :
    Meets failed text (blanks ++ rest) r := by
  cases h with
  | eof hgap =>
    rw [List.append_assoc]
    exact .eof (hgap.append_blanks hblanks)
  | scans hrest hgap hscans =>
    subst hrest
    rw [List.append_assoc] at hscans
    exact .scans (List.append_assoc _ _ _).symm (hgap.append_blanks hblanks) hscans

theorem Meets.of_comment {line : List Char} {r : Scanned Token}
    (h : Meets failed (text ++ '/' :: '/' :: line.takeWhile (· != '\n'))
      (line.dropWhile (· != '\n')) r) : Meets failed text ('/' :: '/' :: line) r := by
  have hline := List.takeWhile_append_dropWhile (p := (· != '\n')) (l := line)
  cases h with
  | eof hgap =>
    have hcomment := hgap.append_comment (List.append_nil _).symm
    rw [List.append_assoc, List.cons_append, List.cons_append, hline]
    rw [List.cons_append, List.cons_append, hline] at hcomment
    exact .eof hcomment
  | @scans gap ahead _ hrest hgap hscans =>
    rw [List.append_assoc] at hscans
    refine .scans ?_ (hgap.append_comment hrest) hscans
    rw [List.append_assoc, ← hrest, List.cons_append, List.cons_append, hline]

/-- The scanner meets what stands behind a gap. -/
theorem meets_nextToken (failed : Bool) (text rest : List Char) :
    Meets failed text rest (between false failed text rest).nextToken := by
  have hsplit := List.takeWhile_append_dropWhile (p := Text.isBlank) (l := rest)
  have hblanks : ∀ c ∈ rest.takeWhile Text.isBlank, Text.isBlank c = true :=
    fun c hc => List.mem_takeWhile_imp hc
  have hstops := Lexer.stops_dropWhile Text.isBlank rest
  rw [nextToken_eq, skipGap_between, skipBlanks_between, Scanned.andThen_ok, current_between,
    position_between]
  generalize rest.takeWhile Text.isBlank = blanks at *
  generalize rest.dropWhile Text.isBlank = ahead at *
  rw [← hsplit]
  refine .of_blanks hblanks ?_
  cases ahead with
  | nil =>
    have heof : Meets failed (text ++ blanks) [] _ := .eof .nil
    rwa [List.append_nil] at heof
  | cons c r =>
    have hscans : Scans failed (text ++ blanks) (c :: r)
        ((between false failed (text ++ blanks) (c :: r)).lexeme (.behind (text ++ blanks)) c) :=
      scans_lexeme (hstops c rfl)
    rw [List.head?_cons]
    dsimp only
    generalize (between false failed (text ++ blanks) (c :: r)).lexeme _ c = result at *
    cases result with
    | error e t => exact .of_scans hscans
    | ok found t =>
      cases found with
      | some token => exact .of_scans hscans
      | none =>
        -- a comment: the rest of its line is passed over, and the next token is met
        -- from there on, where less is left
        obtain @⟨line, hline⟩ := hscans
        have hlt : (line.dropWhile (· != '\n')).length < rest.length := by
          have := (List.dropWhile_sublist (l := line) (· != '\n')).length_le
          rw [← hsplit, hline, List.length_append, List.length_cons, List.length_cons]
          omega
        have ih := meets_nextToken failed
          (text ++ blanks ++ '/' :: '/' :: line.takeWhile (· != '\n')) (line.dropWhile (· != '\n'))
        rw [hline, Scanned.andThen_ok]
        dsimp only
        rw [nextToken_inComment, List.takeWhile_cons_of_pos (p := (· != '\n')) (by decide),
          List.dropWhile_cons_of_pos (p := (· != '\n')) (by decide), List.append_assoc _ ['/']]
        exact ih.of_comment
termination_by rest.length

/-- A scanner that has read something scans the next token. -/
theorem scan_of_lookahead_ne {s : Scanner} (h : s.lookahead ≠ .unprimed) :
    s.scan = s.nextToken := by
  rw [scan, prime, if_neg h, Scanned.andThen_ok]

theorem scan_between :
    (between inComment failed text rest).scan = (between inComment failed text rest).nextToken :=
  scan_of_lookahead_ne (by cases rest <;> nofun)

end Scanner

/-! ## The items of a text -/

namespace Lexer

variable {lx : Lexer} {text rest : List Char}

/-- A lexer that gives next what stands in `rest`, behind `text`. -/
structure Stands (lx : Lexer) (text rest : List Char) : Prop where
  mode : lx.mode = .collectAll
  finished : lx.finished = false
  scan : ∃ failed, lx.scan = (Scanner.between false failed text rest).nextToken
  source : ∃ cs, lx.scanner.source = .ofChars cs
  ahead : rest ≠ [] → lx.scanner.lookahead ≠ .eof

theorem stands_ofText (text : String) :
    Stands (ofSource .collectAll (.ofText text)) [] text.toList := by
  refine ⟨rfl, rfl, ⟨false, ?_⟩, ⟨_, rfl⟩, nofun⟩
  have hread : (Scanner.ofSource (.ofText text)).read =
      .ok () (.between false false [] text.toList) :=
    Scanner.read_of_source rfl Position.behind_nil.symm
  have hprimed : (Scanner.ofSource (.ofText text)).lookahead = .unprimed := rfl
  show (Scanner.ofSource (.ofText text)).scan = _
  rw [Scanner.scan, Scanner.prime, if_pos hprimed, hread]
  rfl

/-- A lexer whose scanner passed over everything that was reported. -/
theorem stands_between (failed : Bool) {skipPending : Bool} (h : skipPending = false) :
    Stands { scanner := .between false failed text rest, mode := .collectAll, skipPending }
      text rest := by
  subst h
  refine ⟨rfl, rfl, ⟨failed, Scanner.scan_between⟩, ⟨_, rfl⟩, fun hrest => ?_⟩
  obtain ⟨c, r, rfl⟩ := List.exists_cons_of_ne_nil hrest
  nofun

/-- A lexer whose scanner is still to pass over what was reported. -/
theorem stands_pending {c : Char} (hc : c ≠ '\n') (failed : Bool) {skipPending : Bool}
    (h : skipPending = true) :
    Stands { scanner := .between false failed text (c :: rest), mode := .collectAll, skipPending }
      (text ++ [c]) rest := by
  subst h
  refine ⟨rfl, rfl, ⟨failed, ?_⟩, ⟨_, rfl⟩, nofun⟩
  rw [scan, if_pos rfl, Scanner.advance_between hc, Scanned.andThen_ok, Scanner.scan_between]

/-- What a lexer gives next is a lexeme behind a gap, or the end of the input. It passes over
    what it awaits the end of; of any other lexeme the last character is still ahead. -/
theorem Stands.next (h : Stands lx text rest) :
    (∃ lx' failed, Gap [] rest ∧ lx.next = some (.ok (.eof (.behind (text ++ rest))), lx') ∧
      lx'.finished = true ∧ lx'.scanner = .between false failed (text ++ rest) []) ∨
    ∃ gap s rest' i lx', rest = gap ++ (s ++ rest') ∧ Gap (s ++ rest') gap ∧
      Lexeme (text ++ gap) s rest' i ∧ lx.next = some (i, lx') ∧
      Stands lx' (text ++ gap ++ s) rest' ∧
      (i.Awaits s → ∃ failed, lx'.scanner = .between false failed (text ++ gap ++ s) rest') ∧
      (¬ i.Awaits s → lx'.scanner.lookahead ≠ .eof) := by
  obtain ⟨failed, hscan⟩ := h.scan
  have hnext : lx.next = some (settle .collectAll lx.scan) := by
    rw [Lexer.next, if_neg (by simp [h.finished]), h.mode]
  have hmeets := Scanner.meets_nextToken failed text rest
  rw [hnext, hscan]
  generalize (Scanner.between false failed text rest).nextToken = result at *
  cases hmeets with
  | eof hgap => exact .inl ⟨_, failed, hgap, rfl, rfl, rfl⟩
  | @scans gap ahead _ hrest hgap hscans =>
    subst hrest
    right
    cases result with
    | ok t u =>
      cases hscans with
      | @token s r _ hr hlexeme =>
        subst hr
        refine ⟨gap, s, r, _, _, rfl, hgap, hlexeme, rfl, ?_, fun _ => ⟨failed, rfl⟩,
          fun hawaits => absurd trivial hawaits⟩
        rw [hlexeme.isEof_eq_false]
        exact stands_between failed rfl
    | error e u =>
      cases hscans with
      | @mark r hr hblank =>
        subst hr
        have hne : r.head? ≠ some '!' := fun h => absurd (hblank '!' h) (by decide)
        refine ⟨gap, ['!'], r, _, _, rfl, hgap, .mark rfl hblank, rfl, stands_between true ?_,
          fun _ => ⟨true, rfl⟩, fun hawaits => absurd rfl hawaits⟩
        simpa using fun h => absurd h hne
      | @ahead s r c hr hc hmark hlexeme =>
        subst hr
        refine ⟨gap, s ++ [c], r, _, _, by simp, by simpa using hgap, hlexeme, rfl, ?_,
          fun hawaits => absurd hawaits hmark, fun _ => nofun⟩
        rw [← List.append_assoc]
        exact stands_pending hc true (by simp)

theorem next_of_finished (h : lx.finished = true) : lx.next = none :=
  if_pos h

theorem drain_of_next (h : lx.next = none) (items : Array Item) :
    lx.drain items = (items, lx) := by
  rw [drain]
  split
  · rfl
  · next hsome =>
    rw [h] at hsome
    cases hsome

/-- A lexer gives the lexemes of what is left, then the end of the input, and then
    nothing. -/
theorem drain_of_stands (lx : Lexer) (items : Array Item) (h : Stands lx text rest) :
    ∃ is, (lx.drain items).1.toList =
        items.toList ++ (is ++ [.ok (.eof (.behind (text ++ rest)))]) ∧
      Divides text rest is ∧ (lx.drain items).2.next = none := by
  -- the items so far are the accumulator of the lexer; what stands in `rest` comes
  -- behind them
  fun_induction drain lx items generalizing text rest with
  | case1 lx items hnone =>
    rw [Lexer.next, if_neg (by simp [h.finished])] at hnone
    cases hnone
  | case2 lx items item lx' hsome ih =>
    rcases h.next with ⟨lx₁, _, hgap, hnext, hfinished, -⟩ |
      ⟨gap, s, rest', i, lx₁, rfl, hgap, hi, hnext, hstands, -⟩
    · obtain ⟨rfl, rfl⟩ : .ok (.eof (.behind (text ++ rest))) = item ∧ lx₁ = lx' := by
        simpa using hnext.symm.trans hsome
      have hnone := next_of_finished hfinished
      rw [drain_of_next hnone]
      exact ⟨[], by simp, .done hgap, hnone⟩
    · obtain ⟨rfl, rfl⟩ : i = item ∧ lx₁ = lx' := by
        simpa using hnext.symm.trans hsome
      obtain ⟨is, hitems, hdivides, hlast⟩ := ih hstands
      refine ⟨i :: is, ?_, .item hgap hi hdivides, hlast⟩
      rw [hitems]
      simp

end Lexer

/-- The items of a text divide it: they stand for its lexemes, with gaps between and
    around them. Behind them comes the end of the input, once, and then nothing. -/
theorem lexer_lossless (text : String) :
    ∃ is : List Lexer.Item,
      (Lexer.ofSource .collectAll (.ofText text)).items =
          is ++ [.ok (.eof (.behind text.toList))] ∧
        (∀ t, .ok t ∈ is → t.isEof = false) ∧
        ((Lexer.ofSource .collectAll (.ofText text)).drain #[]).2.next = none ∧
        Lexer.Divides [] text.toList is := by
  obtain ⟨is, hitems, hdivides, hlast⟩ :=
    Lexer.drain_of_stands _ #[] (Lexer.stands_ofText text)
  exact ⟨is, hitems, fun t ht => hdivides.isEof_eq_false ht, hlast, hdivides⟩

end TinyLang

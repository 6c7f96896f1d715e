import TinyLang.Proofs.Lexer.Legality
import TinyLang.Proofs.Lexer.Latch
import TinyLang.Proofs.Lexer.Lines

/-!
# Sources that fail

A scanner does not know what it has not read: while a source holds characters, it does not
matter what comes behind them. Where the end of the source would be found, and the source
fails instead, scanning fails with it (`Scanner.Fails`), at the place where the end would
have been. Each part of scanning is told by what it does in the middle of the characters and
by its doing nothing at their end (`Scanner.fails_advance`, `Scanner.fails_takeWhile`, ...).

So a source that fails behind a text has the items of the text up to the first one that needs
what comes behind the text (`Lexer.Decides`), and then the fault, in the place of the end of
the input (`Lexer.items_append`, `lexer_source_fails`). If the last line of the text has its
line end, that is the end of the input itself (`lexSource_append`).
-/

namespace TinyLang

/-- The source with `more` behind it. -/
def Source.append (s more : Source) : Source := ⟨s.reads ++ more.reads, more.fault⟩

namespace Scanner

/-- The scanner with `more` behind its source. -/
def append (s : Scanner) (more : Source) : Scanner := { s with source := s.source.append more }

/-- A scanner that is not at the end of its source, which holds characters only. -/
structure Open (s : Scanner) : Prop where
  source : ∃ cs, s.source = .ofChars cs
  ahead : s.lookahead ≠ .eof

/-- A part of scanning that does nothing to a scanner at the end of its source. -/
def Stays {α : Type} (s : Scanner) (r : Scanned α) : Prop :=
  s.lookahead = .eof → r.scanner.lookahead = .eof ∧ r.scanner.position = s.position

variable {more : Source} {cause : ReadError} {α β : Type} {s : Scanner}

/-- What `r` is if there is `more` behind the source, which fails at once. -/
inductive Fails (more : Source) (cause : ReadError) : Scanned α → Scanned α → Prop
  /-- The end was not found. -/
  | ok {a : α} {s : Scanner} : s.Open → Fails more cause (.ok a s) (.ok a (s.append more))
  /-- There was an error before the end. -/
  | error {e : LexError} {s : Scanner} : s.Open →
      Fails more cause (.error e s) (.error e (s.append more))
  /-- The source fails where the end was found. -/
  | fault {r : Scanned α} {t : Scanner} : r.scanner.lookahead = .eof →
      Fails more cause r (.error ⟨r.scanner.position, .unreadable cause⟩ t)

theorem Fails.andThen {r r' : Scanned α} {f : α → Scanner → Scanned β}
    (h : Fails more cause r r')
    (hopen : ∀ a t, r = .ok a t → t.Open → Fails more cause (f a t) (f a (t.append more)))
    (hstays : ∀ a t, Stays t (f a t)) : Fails more cause (r.andThen f) (r'.andThen f) := by
  cases h with
  | ok hs => exact hopen _ _ rfl hs
  | error hs => exact .error hs
  | @fault _ u heof =>
    cases r with
    | error e t => exact .fault heof
    | ok a t =>
      -- what comes behind the end leaves the scanner there, so the place is that of the end
      obtain ⟨heof', hposition⟩ := hstays a t heof
      have hfault : Fails more cause (f a t) (.error ⟨_, .unreadable cause⟩ u) := .fault heof'
      rw [hposition] at hfault
      exact hfault

theorem Fails.map {r r' : Scanned α} (h : Fails more cause r r') (f : α → β) :
    Fails more cause (r.map f) (r'.map f) :=
  h.andThen (fun _ _ _ ht => .ok ht) fun _ _ heof => ⟨heof, rfl⟩

@[simp]
theorem current_append (s : Scanner) (more : Source) : (s.append more).current = s.current := rfl

@[simp]
theorem position_append (s : Scanner) (more : Source) : (s.append more).position = s.position := rfl

/-! ## At the end -/

section Stays

theorem current_of_eof (h : s.lookahead = .eof) : s.current = none := by
  rw [current, h]

theorem stays_takeWhile (accept : Char → Bool) (word : String) (s : Scanner) :
    Stays s (s.takeWhile accept word) := by
  intro h
  rw [takeWhile_eq, current_of_eof h]
  exact ⟨h, rfl⟩

theorem stays_skipComment (s : Scanner) : Stays s s.skipComment := by
  intro h
  rw [skipComment_of_current (current_of_eof h)]
  exact ⟨h, rfl⟩

theorem stays_skipBlanks (s : Scanner) : Stays s s.skipBlanks := by
  intro h
  rw [skipBlanks_of_current (current_of_eof h)]
  exact ⟨h, rfl⟩

theorem stays_scan (s : Scanner) : Stays s s.scan := by
  intro h
  rw [scan_eof h]
  exact ⟨h, rfl⟩

theorem stays_nextToken (s : Scanner) : Stays s s.nextToken := by
  intro h
  rw [← scan_of_lookahead_ne (by simp [h])]
  exact stays_scan s h

end Stays

/-! ## In the middle -/

theorem countLine_append (c : Char) (s : Scanner) :
    countLine c (s.append more) = (countLine c s).append more := by
  rw [countLine, countLine]
  split <;> rfl

theorem open_countLine (h : s.Open) (c : Char) : (countLine c s).Open := by
  rw [countLine]
  split
  · exact ⟨h.source, h.ahead⟩
  · exact h

theorem fails_illegal (h : s.Open) (start : Position) (c : Char) :
    Fails more cause (s.illegal start c : Scanned α) ((s.append more).illegal start c) :=
  .error ⟨h.source, h.ahead⟩

section Middle

variable (hmore : more.next.1 = .error cause)

include hmore

theorem fails_read (hs : ∃ cs, s.source = .ofChars cs) :
    Fails more cause s.read (s.append more).read := by
  obtain ⟨source, lookahead, position, inComment, failed⟩ := s
  obtain ⟨cs, rfl⟩ := hs
  cases cs with
  | nil =>
    obtain ⟨source, hnext⟩ : ∃ source, more.next = (.error cause, source) :=
      ⟨_, Prod.ext hmore rfl⟩
    have hread : (Scanner.append ⟨.ofChars [], lookahead, position, inComment, failed⟩ more).read =
        .error ⟨position.next, .unreadable cause⟩
          ⟨source, .eof, position.next, inComment, true⟩ := by
      have happend : (Source.ofChars []).append more = more := rfl
      rw [append, read, happend, hnext]
    rw [hread]
    exact .fault rfl
  | cons c cs => exact .ok ⟨⟨cs, rfl⟩, by simp⟩

theorem fails_advance (h : s.Open) : Fails more cause s.advance (s.append more).advance := by
  have h' : (s.append more).lookahead ≠ .eof := h.ahead
  rw [advance, advance, if_neg h.ahead, if_neg h']
  exact fails_read hmore h.source

theorem fails_takeWhile (accept : Char → Bool) (word : String) (s : Scanner) (h : s.Open) :
    Fails more cause (s.takeWhile accept word) ((s.append more).takeWhile accept word) := by
  rw [takeWhile_eq, takeWhile_eq _ _ (s.append more), current_append]
  cases hc : s.current with
  | none => exact .ok h
  | some c =>
    dsimp only
    split
    · refine (fails_advance hmore h).andThen (fun _ t ht hopen => ?_)
        fun _ => stays_takeWhile accept _
      have := unread_advance_ok hc ht
      exact fails_takeWhile accept _ t hopen
    · exact .ok h
termination_by s.unread

theorem fails_skipComment (s : Scanner) (h : s.Open) :
    Fails more cause s.skipComment (s.append more).skipComment := by
  rw [skipComment_eq, skipComment_eq (s.append more), current_append]
  have hend : Fails more cause (.ok () { s with inComment := false })
      (.ok () { s.append more with inComment := false }) := .ok ⟨h.source, h.ahead⟩
  cases hc : s.current with
  | none => exact hend
  | some c =>
    dsimp only
    split
    · exact hend
    · refine (fails_advance hmore h).andThen (fun _ t ht hopen => ?_) fun _ => stays_skipComment
      have := unread_advance_ok hc ht
      exact fails_skipComment t hopen
termination_by s.unread

theorem fails_skipBlanks (s : Scanner) (h : s.Open) :
    Fails more cause s.skipBlanks (s.append more).skipBlanks := by
  rw [skipBlanks_eq, skipBlanks_eq (s.append more), current_append]
  cases hc : s.current with
  | none => exact .ok h
  | some c =>
    dsimp only
    split
    · rw [countLine_append]
      refine (fails_advance hmore (open_countLine h c)).andThen (fun _ t ht hopen => ?_)
        fun _ => stays_skipBlanks
      have : t.unread < s.unread := by
        simpa using unread_advance_ok ((current_countLine c s).trans hc) ht
      exact fails_skipBlanks t hopen
    · exact .ok h
termination_by s.unread

theorem fails_skipGap (h : s.Open) : Fails more cause s.skipGap (s.append more).skipGap := by
  have hin : (s.append more).inComment = s.inComment := rfl
  rw [skipGap, skipGap, hin]
  split
  · exact (fails_skipComment hmore s h).andThen (fun _ t _ => fails_skipBlanks hmore t)
      fun _ => stays_skipBlanks
  · exact fails_skipBlanks hmore s h

theorem fails_pair (h : s.Open) (start : Position) (second : Char) (both alone : Kind) :
    Fails more cause (s.pair start second both alone)
      ((s.append more).pair start second both alone) := by
  refine (fails_advance hmore h).andThen (fun _ t _ ht => ?_) fun _ t heof => ?_
  · rw [current_append]
    split
    · exact (fails_advance hmore ht).map _
    · exact .ok ht
  · rw [current_of_eof heof, if_neg nofun]
    exact ⟨heof, rfl⟩

theorem fails_slash (h : s.Open) (start : Position) :
    Fails more cause (s.slash start) ((s.append more).slash start) := by
  refine (fails_advance hmore h).andThen (fun _ t _ ht => ?_) fun _ t heof => ?_
  · rw [current_append]
    split
    · exact .ok ⟨ht.source, ht.ahead⟩
    · exact .ok ht
  · rw [current_of_eof heof, if_neg nofun]
    exact ⟨heof, rfl⟩

theorem fails_notEqual (h : s.Open) (start : Position) :
    Fails more cause (s.notEqual start) ((s.append more).notEqual start) := by
  refine (fails_advance hmore h).andThen (fun _ t _ ht => ?_) fun _ t heof => ?_
  · rw [current_append]
    cases t.current with
    | none => exact fails_illegal ht _ _
    | some c =>
      dsimp only
      split
      · exact (fails_advance hmore ht).map _
      split
      · exact fails_illegal ht _ _
      · exact fails_illegal ht _ _
  · rw [current_of_eof heof]
    exact ⟨heof, rfl⟩

theorem fails_lexeme (h : s.Open) (start : Position) (c : Char) :
    Fails more cause (s.lexeme start c) ((s.append more).lexeme start c) := by
  rw [lexeme, lexeme]
  split
  · exact (fails_takeWhile hmore _ _ s h).map _
  split
  · exact (fails_takeWhile hmore _ _ s h).map _
  split
  · exact fails_slash hmore h start
  iterate 3
    split
    · exact (fails_pair hmore h start _ _ _).map _
  split
  · exact (fails_notEqual hmore h start).map _
  split
  · exact (fails_advance hmore h).map _
  · exact fails_illegal h start c

theorem fails_nextToken (s : Scanner) (h : s.Open) :
    Fails more cause s.nextToken (s.append more).nextToken := by
  rw [nextToken_eq, nextToken_eq (s.append more)]
  refine (fails_skipGap hmore h).andThen (fun _ t ht hopen => ?_) fun _ t heof => ?_
  · rw [current_append, position_append]
    cases hc : t.current with
    | none => exact .ok hopen
    | some c =>
      dsimp only
      refine (fails_lexeme hmore hopen _ c).andThen (fun r u hu hopen' => ?_) fun r u => ?_
      · cases r with
        | some token => exact .ok hopen'
        | none =>
          have hle := unread_skipGap_le s
          rw [ht] at hle
          have := Nat.lt_of_lt_of_le (unread_lexeme_ok hc hu) hle
          exact fails_nextToken u hopen'
      · cases r with
        | some token => exact fun heof => ⟨heof, rfl⟩
        | none => exact stays_nextToken u
  · rw [current_of_eof heof]
    exact ⟨heof, rfl⟩
termination_by s.unread

theorem fails_scan (h : s.Open) : Fails more cause s.scan (s.append more).scan := by
  have hlookahead : (s.append more).lookahead = s.lookahead := rfl
  rw [scan, scan, prime, prime, hlookahead]
  split
  · exact (fails_read hmore h.source).andThen (fun _ t _ => fails_nextToken hmore t)
      fun _ => stays_nextToken
  · exact fails_nextToken hmore s h

end Middle

end Scanner

/-! ## The items -/

namespace Lexer

variable {more : Source} {cause : ReadError} {lx lx' : Lexer} {item : Item}
  {text rest s : List Char} {i : Item}

/-- The lexer with `more` behind its source. -/
def append (lx : Lexer) (more : Source) : Lexer := { lx with scanner := lx.scanner.append more }

theorem afterError_append (mode : Mode) (e : LexError) (s : Scanner) :
    afterError mode e (s.append more) = (afterError mode e s).append more := by
  unfold afterError
  split <;> rfl

theorem finished_afterError_unreadable (mode : Mode) (position : Position) (s : Scanner) :
    (afterError mode ⟨position, .unreadable cause⟩ s).finished = true := by
  cases mode <;> rfl

section Fails

variable (hmore : more.next.1 = .error cause)

include hmore

theorem fails_scan (h : lx.scanner.Open) :
    Scanner.Fails more cause lx.scan (lx.append more).scan := by
  have hpending : (lx.append more).skipPending = lx.skipPending := rfl
  rw [scan, scan, hpending]
  split
  · exact (Scanner.fails_advance hmore h).andThen (fun _ t _ => Scanner.fails_scan hmore)
      fun _ => Scanner.stays_scan
  · exact Scanner.fails_scan hmore h

/-- While the end is not found, a lexer gives the same items whatever comes behind its
    source. Where the end is found, it gives the fault instead, and then nothing. -/
theorem next_append (h : lx.scanner.Open) (hnext : lx.next = some (item, lx')) :
    if lx'.scanner.lookahead = .eof then
      ∃ lx'', (lx.append more).next =
        some (.error ⟨lx'.scanner.position, .unreadable cause⟩, lx'') ∧ lx''.finished = true
    else (lx.append more).next = some (item, lx'.append more) := by
  obtain ⟨hfinished, hsettle⟩ := settle_of_next hnext
  have happend : (lx.append more).next = some (settle lx.mode (lx.append more).scan) :=
    if_neg (Bool.eq_false_iff.1 hfinished)
  have hscanner : lx'.scanner = lx.scan.scanner := by
    rw [← scanner_settle lx.mode, hsettle]
  rw [happend, hscanner]
  have hfails := fails_scan hmore h
  revert hfails hsettle
  generalize lx.scan = r
  generalize (lx.append more).scan = r'
  intro hsettle hfails
  cases hfails with
  | ok hs =>
    rw [Scanned.scanner_ok, if_neg hs.ahead]
    cases hsettle
    rfl
  | error hs =>
    rw [Scanned.scanner_error, if_neg hs.ahead]
    cases hsettle
    rw [settle, afterError_append]
  | fault heof =>
    rw [if_pos heof]
    exact ⟨_, rfl, finished_afterError_unreadable _ _ _⟩

end Fails

theorem Lexeme.ne_newline (h : Lexeme text s rest i) : ∀ c ∈ s, c ≠ '\n' := by
  have hblank : ∀ {c}, Text.isBlank c = false → c ≠ '\n' := by
    rintro _ h rfl
    cases h
  cases h with
  | token _ hk _ => exact hk.ne_newline
  | illegal hs hc _ =>
    subst hs
    exact List.forall_mem_singleton.2 (hblank hc)
  | mark hs _ =>
    subst hs
    exact List.forall_mem_singleton.2 (by decide)
  | half hs hc _ =>
    subst hs
    exact List.forall_mem_cons.2 ⟨by decide, List.forall_mem_singleton.2 (hblank hc)⟩

/-- The text is empty, or its last line has a line end. -/
def LineEnds (text : List Char) : Prop := ∀ c, text.getLast? = some c → c = '\n'

/-- A lexeme is not the last of a text whose last line has a line end. -/
theorem LineEnds.of_lexeme {gap : List Char} (h : LineEnds (gap ++ (s ++ rest)))
    (hi : Lexeme (text ++ gap) s rest i) : rest ≠ [] ∧ LineEnds rest := by
  constructor
  · rintro rfl
    obtain ⟨c, w, rfl, -⟩ := hi.exists_cons
    have hlast := List.getLast?_eq_some_getLast (List.cons_ne_nil c w)
    rw [List.append_nil] at h
    exact hi.ne_newline _ (List.getLast_mem _)
      (h _ (List.mem_getLast?_append_of_mem_getLast? hlast))
  · exact fun c hc => h c (List.mem_getLast?_append_of_mem_getLast?
      (List.mem_getLast?_append_of_mem_getLast? hc))

/-- The items of `rest` behind `text` that are decided by `rest` alone, and behind them the one
    that is not, if there is one: it is the last lexeme, and awaits what comes behind it. -/
inductive Decides : List Char → List Char → List Item → List Item → Prop
  /-- Only a gap is left. -/
  | done {text gap : List Char} : Gap [] gap → Decides text gap [] []
  /-- A lexeme at the end awaits what comes next. -/
  | awaits {text gap s : List Char} {i : Item} : Gap s gap → Lexeme (text ++ gap) s [] i →
      i.Awaits s → Decides text (gap ++ s) [] [i]
  /-- A lexeme is decided, because more is left behind it or it awaits nothing. -/
  | item {text gap s rest : List Char} {i : Item} {is js : List Item} : Gap (s ++ rest) gap →
      Lexeme (text ++ gap) s rest i → (rest = [] → ¬ i.Awaits s) →
      Decides (text ++ gap ++ s) rest is js → Decides text (gap ++ (s ++ rest)) (i :: is) js

theorem Decides.isEof_eq_false {is js : List Item} (h : Decides text rest is js) {t : Token}
    (ht : .ok t ∈ is) : t.isEof = false := by
  induction h with
  | done | awaits => cases ht
  | item _ hi _ _ ih =>
    rcases List.mem_cons.1 ht with rfl | ht
    · exact hi.isEof_eq_false
    · exact ih ht

/-- An error among the items that are decided is a character at fault. -/
theorem Decides.exists_illegalCharacter {is js : List Item} (h : Decides text rest is js)
    {e : LexError} (he : .error e ∈ is) : ∃ c, e.fault = .illegalCharacter c := by
  induction h with
  | done | awaits => cases he
  | item _ hi _ _ ih =>
    rcases List.mem_cons.1 he with rfl | he
    · exact hi.exists_illegalCharacter
    · exact ih he

/-- All items of a text are decided if its last line has a line end. -/
theorem Decides.eq_nil_of_lineEnds {is js : List Item} (h : Decides text rest is js)
    (hline : LineEnds rest) : js = [] := by
  induction h with
  | done => rfl
  | @awaits text gap s i _ hi _ =>
    rw [← List.append_nil s] at hline
    exact absurd rfl (hline.of_lexeme hi).1
  | item _ hi _ _ ih => exact ih (hline.of_lexeme hi).2

theorem items_of_stands_nil (h : Stands lx text []) :
    lx.items = [.ok (.eof (.behind text))] := by
  rcases h.next with ⟨lx', _, -, hnext, hfinished, -⟩ | ⟨gap, s, rest', i, -, hnil, -, hi, -⟩
  · rw [List.append_nil] at hnext
    rw [items_of_next_some hnext, items_of_next_none (next_of_finished hfinished)]
  · obtain ⟨c, w, rfl, -⟩ := hi.exists_cons
    simp at hnil

/-- If the source of a text fails behind it, the items that are decided by the text are the
    same, and the fault comes in the place of the first one that is not, where the end of the
    input would be. -/
theorem items_append (hmore : more.next.1 = .error cause) (lx : Lexer) {text rest : List Char}
    (h : Stands lx text rest) (hopen : lx.scanner.Open) :
    ∃ is js, Decides text rest is js ∧
      lx.items = is ++ (js ++ [.ok (.eof (.behind (text ++ rest)))]) ∧
      (lx.append more).items = is ++ [.error ⟨.behind (text ++ rest), .unreadable cause⟩] := by
  rcases h.next with ⟨lx', failed, hgap, hnext, hfinished, hscanner⟩ |
    ⟨gap, s, rest', i, lx', rfl, hgap, hi, hnext, hstands, hpast, hahead⟩
  · have happend := next_append hmore hopen hnext
    rw [hscanner] at happend
    obtain ⟨lx'', hnext', hfinished'⟩ := happend
    refine ⟨[], [], .done hgap, ?_, ?_⟩
    · rw [items_of_next_some hnext, items_of_next_none (next_of_finished hfinished)]
      rfl
    · rw [items_of_next_some hnext', items_of_next_none (next_of_finished hfinished')]
      rfl
  have happend := next_append hmore hopen hnext
  have hlt := weight_next_lt hnext
  by_cases hend : rest' = [] ∧ i.Awaits s
  · -- the end is found behind the lexeme
    obtain ⟨rfl, hawaits⟩ := hend
    obtain ⟨failed, hscanner⟩ := hpast hawaits
    rw [hscanner] at happend
    obtain ⟨lx'', hnext', hfinished'⟩ := happend
    rw [List.append_nil] at *
    refine ⟨[], [i], .awaits hgap hi hawaits, ?_, ?_⟩
    · rw [items_of_next_some hnext, items_of_stands_nil hstands, List.append_assoc]
      rfl
    · rw [items_of_next_some hnext', items_of_next_none (next_of_finished hfinished'),
        Scanner.position_between, List.append_assoc]
      rfl
  · have hopen' : lx'.scanner.Open := by
      refine ⟨hstands.source, ?_⟩
      by_cases hnil : rest' = []
      · exact hahead fun hawaits => hend ⟨hnil, hawaits⟩
      · exact hstands.ahead hnil
    rw [if_neg hopen'.ahead] at happend
    obtain ⟨is, js, hdecides, hitems, hitems'⟩ := items_append hmore lx' hstands hopen'
    refine ⟨i :: is, js, .item hgap hi (fun hnil hawaits => hend ⟨hnil, hawaits⟩) hdecides,
      ?_, ?_⟩
    · rw [items_of_next_some hnext, hitems, List.append_assoc, List.append_assoc]
      rfl
    · rw [items_of_next_some happend, hitems', List.append_assoc, List.append_assoc]
      rfl
termination_by lx.weight

/-- The items of a text and of a source that fails behind it. -/
theorem exists_decides (hmore : more.next.1 = .error cause) (text : String) :
    ∃ is js, Decides [] text.toList is js ∧
      collect text = is ++ (js ++ [.ok (.eof (.behind text.toList))]) ∧
      (ofSource .collectAll ((Source.ofText text).append more)).items =
        is ++ [.error ⟨.behind text.toList, .unreadable cause⟩] :=
  items_append hmore _ (stands_ofText text) ⟨⟨_, rfl⟩, nofun⟩

end Lexer

/-- Where a source fails behind a text whose last line has a line end, there is the first
    error of the text, or else the fault, where the end would have been. -/
theorem lexSource_append {more : Source} {cause : ReadError} (hmore : more.next.1 = .error cause)
    {text : String} (hline : Lexer.LineEnds text.toList) :
    lexSource ((Source.ofText text).append more) =
      match lex text with
      | .error e => .error e
      | .ok _ => .error ⟨.behind text.toList, .unreadable cause⟩ := by
  obtain ⟨is, js, hdecides, hcollect, happend⟩ := Lexer.exists_decides hmore text
  obtain rfl := hdecides.eq_nil_of_lineEnds hline
  rw [← Lexing.result_ofSource .collectAll, Lexing.ofSource, happend, Lexing.lex_eq_result,
    hcollect, Lexing.result_append, Lexing.result_append]
  cases (Lexing.ofItems is).result <;> rfl

/-- Where a source fails behind a text, the items that are decided by the text are given as
    they are for the text alone. The first one that is not, which is a token or an exclamation
    mark at the end of the text or the end of the input, gives way to the fault, at the place
    of the end; then there is nothing more, and the lexer has failed. A lexer that stops at the
    first error stops at a character at fault, if there is one, and never meets the fault of
    the source. The end of the input is never given. -/
theorem lexer_source_fails {more : Source} {cause : ReadError}
    (hmore : more.next.1 = .error cause) (text : String) :
    ∃ is js, Lexer.Decides [] text.toList is js ∧
      (∀ e, .error e ∈ is → ∃ c, e.fault = .illegalCharacter c) ∧ ∀ mode : Lexer.Mode,
      (Lexer.ofSource mode (.ofText text)).items =
        mode.given (is ++ (js ++ [.ok (.eof (.behind text.toList))])) ∧
      let lx := Lexer.ofSource mode ((Source.ofText text).append more)
      lx.items = mode.given (is ++ [.error ⟨.behind text.toList, .unreadable cause⟩]) ∧
        (mode = .halt → ∀ e, .error e ∈ is → lx.items = Lexer.uptoError is) ∧
        (lx.drain #[]).2.next = none ∧ (lx.drain #[]).2.isFailed = true ∧
        ∀ t, .ok t ∈ lx.items → t.isEof = false := by
  obtain ⟨is, js, hdecides, hcollect, happend⟩ := Lexer.exists_decides hmore text
  refine ⟨is, js, hdecides, fun e => hdecides.exists_illegalCharacter, fun mode => ?_⟩
  have hitems := Lexer.items_ofSource mode ((Source.ofText text).append more)
  rw [happend] at hitems
  refine ⟨?_, hitems, ?_, Lexer.next_drain _ _, ?_, fun t ht => ?_⟩
  · rw [Lexer.items_ofSource, ← hcollect]
    rfl
  · rintro rfl e he
    rw [hitems]
    exact Lexer.uptoError_append_of_mem he _
  · rw [Lexer.isFailed_drain, hitems]
    exact .inr (Lexer.exists_error_mem_given (List.mem_append_right _ (List.mem_singleton_self _)))
  · rw [hitems] at ht
    rcases List.mem_append.1 (Lexer.mem_of_mem_given ht) with ht | ht
    · exact hdecides.isEof_eq_false ht
    · cases List.mem_singleton.1 ht

/-- A name at the end of a text is not given, because it could be longer. -/
theorem lexer_source_fails_in_name :
    (⟨[], some (.other "gone")⟩ : Source).next.1 = .error (.other "gone") ∧
      Source.failing "a ? b" (.other "gone") =
        (Source.ofText "a ? b").append ⟨[], some (.other "gone")⟩ ∧
      (Lexer.ofSource .collectAll (.failing "a ? b" (.other "gone"))).items =
        [.ok (.of .ident "a" ⟨1, 1⟩), .error ⟨⟨1, 3⟩, .illegalCharacter '?'⟩,
          .error ⟨⟨1, 6⟩, .unreadable (.other "gone")⟩] ∧
      ∀ mode, ((Lexer.ofSource mode (.failing "a ? b" (.other "gone"))).drain #[]).2.isFailed =
        true := by
  have hmore : (⟨[], some (.other "gone")⟩ : Source).next.1 = .error (.other "gone") := rfl
  have hsource : Source.failing "a ? b" (.other "gone") =
      (Source.ofText "a ? b").append ⟨[], some (.other "gone")⟩ := by
    simp [Source.failing, Source.append, Source.ofText, Source.ofChars]
  refine ⟨hmore, hsource, by decide +kernel, fun mode => ?_⟩
  obtain ⟨is, js, -, -, hfails⟩ := lexer_source_fails hmore "a ? b"
  rw [hsource]
  exact (hfails mode).2.2.2.2.1

end TinyLang

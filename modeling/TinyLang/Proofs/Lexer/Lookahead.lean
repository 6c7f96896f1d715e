import TinyLang.Proofs.Lexer.Lossless

/-!
# One character ahead

A scanner of a text is asked for tokens, and passes over characters that were reported, in any
order. From the first call on it has one character of the text ahead of it, and of the source it
has taken the characters up to this one and no more; its place is the place of this character
(`Scanner.LooksAt`). This is kept by each call (`Scanner.StandsAt.scan`,
`Scanner.StandsAt.advance`), and so by all of them (`Scanner.exists_standsAt`).

What is found decides which character is ahead (`Scanner.Found`): the one behind a token, and the
one at fault itself, unless that is an exclamation mark on its own. At the end of the text nothing
changes any more (`Scanner.still_of_eof`).

A line end is passed over by scanning only, since that is where lines are counted.
-/

namespace TinyLang

namespace Scanner

/-- The scanners that calls lead to: it is asked for a token, or passes over a character that is
    no line end. -/
inductive Reaches (s : Scanner) : Scanner → Prop
  | refl : Reaches s s
  | scan {t : Scanner} : Reaches s t → Reaches s t.scan.scanner
  | advance {t : Scanner} : Reaches s t → t.current ≠ some '\n' → Reaches s t.advance.scanner

/-- The scanner of a text has the character with the index `i` ahead, or the end of the text. -/
structure LooksAt (text : List Char) (i : Nat) (s : Scanner) : Prop where
  index_le : i ≤ text.length
  /-- The character ahead is the one with this index. -/
  lookahead : s.lookahead = text[i]?.elim .eof .char
  /-- What was not read yet comes behind it. -/
  source : s.source = .ofChars (text.drop (i + 1))
  /-- One more character was read than there are before it, or all of them. -/
  pulled : text.length - s.source.reads.length =
    if s.lookahead = .eof then text.length else i + 1
  /-- The place is that of the character ahead. -/
  position : s.position = .behind (text.take i)
  inComment : s.inComment = false

/-- The scanner of a text stands before the character with the index `i`: it has read nothing
    yet, or looks at this character. -/
inductive StandsAt (text : List Char) : Nat → Scanner → Prop
  | start : StandsAt text 0 (.ofSource (.ofChars text))
  | looks {i : Nat} {s : Scanner} : LooksAt text i s → StandsAt text i s

/-- What a scanner that stands between `before` and `rest` finds, and the index of the character
    that is ahead then. -/
inductive Found (before rest : List Char) : Scanned Token → Nat → Prop
  /-- Only a gap is left. -/
  | eof {s : Scanner} : Lexer.Gap [] rest →
      Found before rest (.ok (.eof (.behind (before ++ rest))) s) (before ++ rest).length
  /-- A token. The index is that of its end. -/
  | token {gap word behind : List Char} {t : Token} {s : Scanner} :
      rest = gap ++ (word ++ behind) → Lexer.Gap (word ++ behind) gap →
      Lexer.Lexeme (before ++ gap) word behind (.ok t) →
      Found before rest (.ok t s) (before ++ gap ++ word).length
  /-- An exclamation mark on its own. The index is the one behind it. -/
  | mark {gap behind : List Char} {s : Scanner} :
      rest = gap ++ '!' :: behind → Lexer.Gap ('!' :: behind) gap →
      (∀ c, behind.head? = some c → Text.isBlank c = true) →
      Found before rest (.error ⟨.behind (before ++ gap), .illegalCharacter '!'⟩ s)
        (before ++ gap ++ ['!']).length
  /-- Any other character at fault. The index is that of the character. -/
  | fault {gap word behind : List Char} {c : Char} {s : Scanner} :
      rest = gap ++ (word ++ c :: behind) → Lexer.Gap (word ++ c :: behind) gap →
      Lexer.Lexeme (before ++ gap) (word ++ [c]) behind
        (.error ⟨.behind (before ++ gap ++ word), .illegalCharacter c⟩) →
      word ++ [c] ≠ ['!'] →
      Found before rest (.error ⟨.behind (before ++ gap ++ word), .illegalCharacter c⟩ s)
        (before ++ gap ++ word).length

variable {text before rest : List Char} {failed : Bool} {i : Nat} {s t : Scanner}

/-! ## Between the two halves of a text -/

theorem looksAt_between (failed : Bool) (before rest : List Char) :
    LooksAt (before ++ rest) before.length (between false failed before rest) where
  index_le := by simp
  lookahead := by
    rw [List.getElem?_append_right (Nat.le_refl _), Nat.sub_self, List.head?_eq_getElem?.symm]
    rfl
  source := by
    rw [List.drop_append, List.drop_eq_nil_of_le (Nat.le_succ _), Nat.add_sub_cancel_left,
      List.nil_append, List.drop_one]
    rfl
  pulled := by
    cases rest with
    | nil => simp [between, Source.ofChars]
    | cons c rest => simp [between, Source.ofChars]; omega
  position := by rw [List.take_left]; rfl
  inComment := rfl

theorem LooksAt.eq_between (h : LooksAt text i s) :
    s = between false s.failed (text.take i) (text.drop i) := by
  obtain ⟨source, lookahead, position, inComment, failed⟩ := s
  obtain ⟨-, hlookahead, hsource, -, hposition, hin⟩ := h
  dsimp only at *
  rw [hlookahead, hsource, hposition, hin, between, List.tail_drop, List.head?_drop]

/-! ## One call -/

theorem exists_looksAt_of_meets {r : Scanned Token} (h : Meets failed before rest r) :
    ∃ j, LooksAt (before ++ rest) j r.scanner ∧ Found before rest r j := by
  cases h with
  | eof hgap =>
    have hlooks := looksAt_between failed (before ++ rest) []
    rw [List.append_nil] at hlooks
    exact ⟨_, hlooks, .eof hgap⟩
  | @scans gap ahead _ hrest hgap hscans =>
    subst hrest
    cases r with
    | ok t u =>
      cases hscans with
      | @token word behind _ hahead hlexeme =>
        subst hahead
        have hlooks := looksAt_between failed (before ++ gap ++ word) behind
        rw [List.append_assoc, List.append_assoc] at hlooks
        exact ⟨_, hlooks, .token rfl hgap hlexeme⟩
    | error e u =>
      cases hscans with
      | @mark behind hahead hblank =>
        subst hahead
        have hlooks := looksAt_between true (before ++ gap ++ ['!']) behind
        rw [List.append_assoc, List.append_assoc] at hlooks
        exact ⟨_, hlooks, .mark rfl hgap hblank⟩
      | @ahead word behind c hahead _ hmark hlexeme =>
        subst hahead
        have hlooks := looksAt_between true (before ++ gap ++ word) (c :: behind)
        rw [List.append_assoc, List.append_assoc] at hlooks
        exact ⟨_, hlooks, .fault rfl hgap hlexeme hmark⟩

/-- The first read leaves the scanner at the start of the text. -/
theorem read_ofSource (text : List Char) :
    (ofSource (.ofChars text)).read = .ok () (between false false [] text) :=
  read_of_source rfl Position.behind_nil.symm

theorem StandsAt.scan (h : StandsAt text i s) :
    ∃ j, LooksAt text j s.scan.scanner ∧ Found (text.take i) (text.drop i) s.scan j := by
  have hsplit := List.take_append_drop i text
  have hmeets : ∃ failed, Meets failed (text.take i) (text.drop i) s.scan := by
    cases h with
    | start =>
      have hprimed : (ofSource (.ofChars text)).lookahead = .unprimed := rfl
      have hscan : (ofSource (.ofChars text)).scan = (between false false [] text).nextToken := by
        rw [Scanner.scan, prime, if_pos hprimed, read_ofSource, Scanned.andThen_ok]
      rw [hscan]
      exact ⟨false, meets_nextToken false [] text⟩
    | looks h =>
      rw [h.eq_between, scan_between]
      exact ⟨_, meets_nextToken _ _ _⟩
  obtain ⟨failed, hmeets⟩ := hmeets
  obtain ⟨j, hlooks, hfound⟩ := exists_looksAt_of_meets hmeets
  rw [hsplit] at hlooks
  exact ⟨j, hlooks, hfound⟩

theorem StandsAt.advance (h : StandsAt text i s) (hc : s.current ≠ some '\n') :
    ∃ t, s.advance = .ok () t ∧ LooksAt text (if s.current.isSome then i + 1 else i) t := by
  cases h with
  | start => exact ⟨_, read_ofSource text, looksAt_between false [] text⟩
  | looks h =>
    have hbetween := h.eq_between
    have hsplit := List.take_append_drop i text
    have hlength := List.length_take_of_le h.index_le
    rw [hbetween, current_between] at hc ⊢
    generalize text.take i = before at *
    generalize text.drop i = rest at *
    subst hsplit hlength
    cases rest with
    | nil => exact ⟨_, rfl, looksAt_between _ before []⟩
    | cons c rest =>
      have hc : c ≠ '\n' := by simpa using hc
      have hlooks := looksAt_between s.failed (before ++ [c]) rest
      rw [List.append_assoc, List.length_append] at hlooks
      exact ⟨_, advance_between hc, hlooks⟩

/-! ## Any number of calls -/

/-- Wherever calls lead, the scanner stands before a character of the text. -/
theorem exists_standsAt (h : (ofSource (.ofChars text)).Reaches s) : ∃ i, StandsAt text i s := by
  induction h with
  | refl => exact ⟨0, .start⟩
  | scan _ ih =>
    obtain ⟨i, hi⟩ := ih
    obtain ⟨j, hlooks, -⟩ := hi.scan
    exact ⟨j, .looks hlooks⟩
  | advance _ hc ih =>
    obtain ⟨i, hi⟩ := ih
    obtain ⟨t, ht, hlooks⟩ := hi.advance hc
    rw [ht]
    exact ⟨_, .looks hlooks⟩

/-- At the end of a source no call changes what is ahead, what was read and the place. -/
theorem still_of_eof (heof : s.lookahead = .eof) (h : s.Reaches t) :
    t.source = s.source ∧ t.lookahead = .eof ∧ t.position = s.position := by
  induction h with
  | refl => exact ⟨rfl, heof, rfl⟩
  | scan _ ih =>
    rw [scan_eof ih.2.1]
    exact ih
  | advance _ _ ih =>
    rw [Scanner.advance, if_pos ih.2.1]
    exact ih

/-- What is true of a scanner that stands before the character of a text with the index `i`. -/
structure LooksAhead (text : List Char) (i : Nat) (s : Scanner) : Prop where
  stands : StandsAt text i s
  /-- A token that it is asked for, or an error, decides which character is ahead then. -/
  scan : ∃ j, LooksAt text j s.scan.scanner ∧ Found (text.take i) (text.drop i) s.scan j
  /-- A character that it passes over is behind it then. -/
  advance : s.current ≠ some '\n' →
    ∃ t, s.advance = .ok () t ∧ LooksAt text (if s.current.isSome then i + 1 else i) t
  /-- At the end nothing more is read, and the place stays the same. -/
  still : s.lookahead = .eof → ∀ t, s.Reaches t →
    t.source = s.source ∧ t.lookahead = .eof ∧ t.position = s.position

end Scanner

/-- Whatever was done with a scanner of a text, it stands before one of the characters, or at the
    end, and goes on from there with one character ahead. -/
theorem scanner_looksAhead (text : String) {s : Scanner}
    (h : (Scanner.ofSource (.ofText text)).Reaches s) :
    ∃ i, Scanner.LooksAhead text.toList i s := by
  obtain ⟨i, hi⟩ := Scanner.exists_standsAt h
  exact ⟨i, hi, hi.scan, hi.advance, fun heof t ht => Scanner.still_of_eof heof ht⟩

/-- Behind an exclamation mark on its own the line end is ahead, and it is not passed over without
    being counted. -/
theorem scanner_looksAhead_mark :
    let s := ((Scanner.ofSource (.ofText "x!\ny")).scan.scanner).scan.scanner
    (Scanner.ofSource (.ofText "x!\ny")).Reaches s ∧ s.lookahead = .char '\n' ∧
      s.position = ⟨1, 3⟩ ∧ s.scan.scanner.position = ⟨2, 2⟩ ∧
      ∃ i, Scanner.LooksAhead "x!\ny".toList i s := by
  intro s
  have hreaches : (Scanner.ofSource (.ofText "x!\ny")).Reaches s := .scan (.scan .refl)
  exact ⟨hreaches, by decide +kernel, by decide +kernel, by decide +kernel,
    scanner_looksAhead "x!\ny" hreaches⟩

end TinyLang

import TinyLang.Proofs.Lexer.Lossless

/-!
# Resuming in the middle

A scanner that starts in the middle of a source, with a character ahead that stands at some place,
gives what a scanner at the start of that character and the rest of the source gives, at places
that are counted from there (`Position.startingAt`): further right on the first line, and further
down on the lines below. This is no more than that counting commutes with everything a scanner
does (`Scanner.moves_advance`, `Scanner.moves_takeWhile`, ...), which holds from the first
character on; before it there is no place to count from (`Position.InText`).

The two scanners are the same up to their places after each token or error, and so they are after
any number of them (`nthScan_resume`), whatever the source is and however it ends.
-/

namespace TinyLang

/-! ## Places -/

namespace Position

/-- The place of `q` in a text that starts at `p`. -/
def startingAt (q p : Position) : Position :=
  if q.line = 1 then ⟨p.line, p.column + q.column - 1⟩ else ⟨p.line + q.line - 1, q.column⟩

/-- A place in a text or behind it, but not before its first character. -/
structure InText (q : Position) : Prop where
  line_pos : 0 < q.line
  column_pos : q.line = 1 → 0 < q.column

variable {q : Position}

theorem InText.next (h : q.InText) : q.next.InText := ⟨h.line_pos, fun _ => Nat.succ_pos _⟩

theorem InText.newline (h : q.InText) : q.newline.InText := by
  refine ⟨Nat.succ_pos _, fun hline => ?_⟩
  have hzero : q.line = 0 := Nat.succ.inj hline
  exact absurd hzero h.line_pos.ne'

theorem next_startingAt (h : q.InText) (p : Position) :
    q.next.startingAt p = (q.startingAt p).next := by
  have hcolumn := h.column_pos
  unfold startingAt next
  dsimp only
  split
  · simp only [mk.injEq, true_and]
    omega
  · rfl

theorem newline_startingAt (h : q.InText) (p : Position) :
    q.newline.startingAt p = (q.startingAt p).newline := by
  have hline := h.line_pos
  unfold startingAt newline
  dsimp only
  rw [if_neg (by omega)]
  split
  · simp only [mk.injEq, and_true]
    omega
  · simp only [mk.injEq, and_true]
    omega

end Position

/-- The token in a text that starts at `p`. -/
def Token.startingAt (t : Token) (p : Position) : Token :=
  { t with position := t.position.startingAt p }

/-- The error in a text that starts at `p`. -/
def LexError.startingAt (e : LexError) (p : Position) : LexError :=
  { e with position := e.position.startingAt p }

/-- The scanner of a text that starts at `p`. -/
def Scanner.startingAt (s : Scanner) (p : Position) : Scanner :=
  { s with position := s.position.startingAt p }

@[simp]
theorem Scanner.current_startingAt (s : Scanner) (p : Position) :
    (s.startingAt p).current = s.current := rfl

@[simp]
theorem Scanner.lookahead_startingAt (s : Scanner) (p : Position) :
    (s.startingAt p).lookahead = s.lookahead := rfl

/-- The token or error in a text that starts at `p`, and the scanner after it. -/
def Scanned.startingAt (r : Scanned Token) (p : Position) : Scanned Token :=
  match r with
  | .ok t s => .ok (t.startingAt p) (s.startingAt p)
  | .error e s => .error (e.startingAt p) (s.startingAt p)

/-- The source with one more character before it. -/
def Source.cons (c : Char) (source : Source) : Source :=
  { source with reads := .ok c :: source.reads }

variable {α β : Type} {p : Position}

namespace Scanned

/-- What `r` is in a text that starts at `p`, where `f` makes the result that of this text. -/
inductive Moves (p : Position) (f : α → α) : Scanned α → Scanned α → Prop
  | ok {a : α} {s : Scanner} : s.position.InText →
      Moves p f (.ok a s) (.ok (f a) (s.startingAt p))
  | error {e : LexError} {s : Scanner} : s.position.InText →
      Moves p f (.error e s) (.error (e.startingAt p) (s.startingAt p))

variable {f : α → α} {g : β → β} {r r' : Scanned α}

theorem Moves.andThen {k k' : α → Scanner → Scanned β} (h : Moves p f r r')
    (hk : ∀ a s, r = .ok a s → s.position.InText → Moves p g (k a s) (k' (f a) (s.startingAt p))) :
    Moves p g (r.andThen k) (r'.andThen k') := by
  cases h with
  | ok hs => exact hk _ _ rfl hs
  | error hs => exact .error hs

theorem Moves.map {k k' : α → β} (h : Moves p f r r') (hk : ∀ a, k' (f a) = g (k a)) :
    Moves p g (r.map k) (r'.map k') := by
  refine h.andThen fun a s _ hs => ?_
  rw [hk]
  exact .ok hs

theorem Moves.eq_startingAt {r r' : Scanned Token} (h : Moves p (·.startingAt p) r r') :
    r' = r.startingAt p := by
  cases h <;> rfl

end Scanned

open Scanned (Moves)

namespace Scanner

variable {s : Scanner}

/-! ## Parts of scanning -/

theorem moves_read (h : s.position.InText) : Moves p id s.read (s.startingAt p).read := by
  obtain ⟨source, lookahead, position, inComment, failed⟩ := s
  have hnext := Position.next_startingAt h p
  unfold read startingAt
  dsimp only
  rw [← hnext]
  split
  · exact .ok h.next
  · exact .ok h.next
  · exact .error h.next

theorem moves_advance (h : s.position.InText) : Moves p id s.advance (s.startingAt p).advance := by
  rw [advance, advance, lookahead_startingAt]
  split
  · exact .ok h
  · exact moves_read h

theorem moves_takeWhile (accept : Char → Bool) (word : String) (s : Scanner)
    (h : s.position.InText) :
    Moves p id (s.takeWhile accept word) ((s.startingAt p).takeWhile accept word) := by
  rw [takeWhile_eq, takeWhile_eq _ _ (s.startingAt p), current_startingAt]
  cases hc : s.current with
  | none => exact .ok h
  | some c =>
    dsimp only
    split
    · refine (moves_advance h).andThen fun _ t ht hin => ?_
      have := unread_advance_ok hc ht
      exact moves_takeWhile accept _ t hin
    · exact .ok h
termination_by s.unread

theorem moves_skipComment (s : Scanner) (h : s.position.InText) :
    Moves p id s.skipComment (s.startingAt p).skipComment := by
  have hend : Moves p id (.ok () { s with inComment := false })
      (.ok () { s.startingAt p with inComment := false }) := .ok h
  rw [skipComment_eq, skipComment_eq (s.startingAt p), current_startingAt]
  cases hc : s.current with
  | none => exact hend
  | some c =>
    dsimp only
    split
    · exact hend
    · refine (moves_advance h).andThen fun _ t ht hin => ?_
      have := unread_advance_ok hc ht
      exact moves_skipComment t hin
termination_by s.unread

theorem countLine_startingAt (h : s.position.InText) (c : Char) :
    countLine c (s.startingAt p) = (countLine c s).startingAt p := by
  rw [countLine, countLine]
  split
  · rw [startingAt, startingAt, Position.newline_startingAt h]
  · rfl

theorem inText_countLine (h : s.position.InText) (c : Char) : (countLine c s).position.InText := by
  rw [countLine]
  split
  · exact h.newline
  · exact h

theorem moves_skipBlanks (s : Scanner) (h : s.position.InText) :
    Moves p id s.skipBlanks (s.startingAt p).skipBlanks := by
  rw [skipBlanks_eq, skipBlanks_eq (s.startingAt p), current_startingAt]
  cases hc : s.current with
  | none => exact .ok h
  | some c =>
    dsimp only
    split
    · rw [countLine_startingAt h]
      refine (moves_advance (inText_countLine h c)).andThen fun _ t ht hin => ?_
      have : t.unread < s.unread := by
        simpa using unread_advance_ok ((current_countLine c s).trans hc) ht
      exact moves_skipBlanks t hin
    · exact .ok h
termination_by s.unread

theorem moves_skipGap (h : s.position.InText) : Moves p id s.skipGap (s.startingAt p).skipGap := by
  have hin : (s.startingAt p).inComment = s.inComment := rfl
  rw [skipGap, skipGap, hin]
  split
  · exact (moves_skipComment s h).andThen fun _ t _ => moves_skipBlanks t
  · exact moves_skipBlanks s h

/-! ## Lexemes -/

section Lexeme

variable {start : Position}

theorem moves_illegal {f : α → α} (h : s.position.InText) (c : Char) :
    Moves p f (s.illegal start c) ((s.startingAt p).illegal (start.startingAt p) c) :=
  .error h

theorem moves_pair (h : s.position.InText) (second : Char) (both alone : Kind) :
    Moves p (·.startingAt p) (s.pair start second both alone)
      ((s.startingAt p).pair (start.startingAt p) second both alone) := by
  refine (moves_advance h).andThen fun _ t _ ht => ?_
  rw [current_startingAt]
  split
  · exact (moves_advance ht).map fun _ => rfl
  · exact .ok ht

theorem moves_slash (h : s.position.InText) :
    Moves p (Option.map (·.startingAt p)) (s.slash start)
      ((s.startingAt p).slash (start.startingAt p)) := by
  refine (moves_advance h).andThen fun _ t _ ht => ?_
  rw [current_startingAt]
  split
  · exact .ok (s := { t with inComment := true }) ht
  · exact .ok ht

theorem moves_notEqual (h : s.position.InText) :
    Moves p (·.startingAt p) (s.notEqual start)
      ((s.startingAt p).notEqual (start.startingAt p)) := by
  refine (moves_advance h).andThen fun _ t _ ht => ?_
  rw [current_startingAt]
  cases t.current with
  | none => exact moves_illegal ht '!'
  | some c =>
    dsimp only
    split
    · exact (moves_advance ht).map fun _ => rfl
    split
    · exact moves_illegal ht '!'
    · exact moves_illegal ht c

theorem moves_lexeme (h : s.position.InText) (c : Char) :
    Moves p (Option.map (·.startingAt p)) (s.lexeme start c)
      ((s.startingAt p).lexeme (start.startingAt p) c) := by
  rw [lexeme, lexeme]
  split
  · exact (moves_takeWhile _ _ s h).map fun _ => rfl
  split
  · exact (moves_takeWhile _ _ s h).map fun _ => rfl
  split
  · exact moves_slash h
  iterate 3
    split
    · exact (moves_pair h _ _ _).map fun _ => rfl
  split
  · exact (moves_notEqual h).map fun _ => rfl
  split
  · exact (moves_advance h).map fun _ => rfl
  · exact moves_illegal h c

end Lexeme

theorem moves_nextToken (s : Scanner) (h : s.position.InText) :
    Moves p (·.startingAt p) s.nextToken (s.startingAt p).nextToken := by
  rw [nextToken_eq, nextToken_eq (s.startingAt p)]
  refine (moves_skipGap h).andThen fun _ t ht hin => ?_
  have hposition : (t.startingAt p).position = t.position.startingAt p := rfl
  rw [current_startingAt, hposition]
  cases hc : t.current with
  | none => exact .ok hin
  | some c =>
    dsimp only
    refine (moves_lexeme hin c).andThen fun found u hu hin' => ?_
    cases found with
    | some token => exact .ok hin'
    | none =>
      have hle := unread_skipGap_le s
      rw [ht] at hle
      have := Nat.lt_of_lt_of_le (unread_lexeme_ok hc hu) hle
      exact moves_nextToken u hin'
termination_by s.unread

/-! ## Any number of tokens -/

theorem moves_scan (h : s.position.InText) :
    Moves p (·.startingAt p) s.scan (s.startingAt p).scan := by
  rw [scan, scan, prime, prime, lookahead_startingAt]
  split
  · exact (moves_read h).andThen fun _ t _ => moves_nextToken t
  · exact moves_nextToken s h

/-- What a scanner gives when it is asked for a token for the `n`-th time, counted from zero. -/
def nthScan : Nat → Scanner → Scanned Token
  | 0, s => s.scan
  | n + 1, s => s.scan.scanner.nthScan n

theorem moves_nthScan (h : s.position.InText) (n : Nat) :
    Moves p (·.startingAt p) (s.nthScan n) ((s.startingAt p).nthScan n) := by
  have hscan : Moves p (·.startingAt p) s.scan (s.startingAt p).scan := moves_scan h
  induction n generalizing s with
  | zero => exact hscan
  | succ n ih =>
    rw [nthScan, nthScan]
    generalize s.scan = r at hscan
    generalize (s.startingAt p).scan = r' at hscan
    -- whether the token was found or not, the next one is asked for
    cases hscan with
    | ok hin => exact ih hin (moves_scan hin)
    | error hin => exact ih hin (moves_scan hin)

/-- A scanner that has read the first character of a source. -/
def primed (c : Char) (source : Source) : Scanner :=
  { source, lookahead := .char c, position := Position.start.next }

theorem nthScan_primed (c : Char) (source : Source) (n : Nat) :
    (ofSource (source.cons c)).nthScan n = (primed c source).nthScan n := by
  have hscan : (ofSource (source.cons c)).scan = (primed c source).scan := rfl
  cases n with
  | zero => exact hscan
  | succ n => rw [nthScan, nthScan, hscan]

theorem resume_eq (c : Char) (p : Position) (source : Source) :
    resume (some c) p source = (primed c source).startingAt p := rfl

end Scanner

/-- A scanner that starts with the character `c` ahead at `p` gives, any number of times, what a
    scanner of the source with `c` before it gives, with the same kinds, values and faults, at the
    places of a text that starts at `p`. After each token or error the two scanners are the same
    up to these places. -/
theorem nthScan_resume (c : Char) (p : Position) (source : Source) (n : Nat) :
    (Scanner.resume (some c) p source).nthScan n =
      ((Scanner.ofSource (source.cons c)).nthScan n).startingAt p := by
  have hin : (Scanner.primed c source).position.InText := ⟨Nat.zero_lt_one, fun _ => Nat.zero_lt_one⟩
  rw [Scanner.resume_eq, Scanner.nthScan_primed]
  exact (Scanner.moves_nthScan hin n).eq_startingAt

end TinyLang

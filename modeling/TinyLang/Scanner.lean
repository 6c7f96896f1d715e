import TinyLang.LexError
import TinyLang.ReservedWord
import TinyLang.Text.Blank
import TinyLang.Token

/-!
# Scanning

A scanner holds a source and one character read ahead of it. It turns the
characters into tokens one at a time: blanks and comments, which run from `//`
to the end of the line, are passed over, and a token is as long as it can be.
A scanner that meets a character that is part of no token, or a source that
cannot be read, says so and keeps what it has.

What is left to read (`Scanner.unread`) shrinks with every character passed
over (`unread_advance_lt`), so scanning ends. `Scanner.Progress` says how far a
token or an error brings the scanner (`progress_scan`), and at the end of a
source there is nothing but the end of the input (`scan_eof`).
-/

namespace TinyLang

/-- The character that is read ahead. -/
inductive Lookahead where
  /-- Nothing was read yet. -/
  | unprimed
  /-- The next character. -/
  | char (c : Char)
  /-- There is no further character. -/
  | eof
deriving DecidableEq, Repr

/-- A source in the course of being split into tokens. -/
structure Scanner where
  /-- What was not read yet. -/
  source : Source
  /-- The character that is read ahead. -/
  lookahead : Lookahead := .unprimed
  /-- Where the character that is read ahead stands. -/
  position : Position := .start
  /-- Whether the scanner is inside a comment. -/
  inComment : Bool := false
  /-- Whether an error was met. -/
  failed : Bool := false

/-- How a part of scanning ends: with a result or an error, and in either case
    with the scanner after it. -/
inductive Scanned (α : Type) where
  /-- A result. -/
  | ok (a : α) (s : Scanner)
  /-- An error. -/
  | error (e : LexError) (s : Scanner)

namespace Scanned

variable {α β : Type}

/-- The scanner after a part of scanning. -/
def scanner : Scanned α → Scanner
  | ok _ s => s
  | error _ s => s

/-- Goes on with a second part of scanning after a first one without error. -/
def andThen (r : Scanned α) (f : α → Scanner → Scanned β) : Scanned β :=
  match r with
  | ok a s => f a s
  | error e s => error e s

/-- Changes the result. -/
def map (f : α → β) (r : Scanned α) : Scanned β := r.andThen fun a s => ok (f a) s

@[simp] theorem scanner_ok (a : α) (s : Scanner) : (ok a s).scanner = s := rfl

@[simp] theorem scanner_error (e : LexError) (s : Scanner) :
    (error e s : Scanned α).scanner = s := rfl

@[simp] theorem andThen_ok (a : α) (s : Scanner) (f : α → Scanner → Scanned β) :
    (ok a s).andThen f = f a s := rfl

@[simp] theorem andThen_error (e : LexError) (s : Scanner) (f : α → Scanner → Scanned β) :
    (error e s).andThen f = error e s := rfl

@[simp] theorem scanner_map (f : α → β) (r : Scanned α) : (r.map f).scanner = r.scanner := by
  cases r <;> rfl

end Scanned

namespace Scanner

/-- A scanner at the start of a source. -/
def ofSource (source : Source) : Scanner := { source }

/-- A scanner in the middle of a source, with a given character ahead. -/
def resume (current : Option Char) (position : Position) (source : Source) : Scanner :=
  { source, lookahead := current.elim .eof .char, position }

/-- The character ahead, if there is one. -/
def current (s : Scanner) : Option Char :=
  match s.lookahead with
  | .char c => some c
  | .unprimed | .eof => none

/-- An upper bound for the number of characters that can still be passed over. -/
def unread (s : Scanner) : Nat :=
  s.source.reads.length + if s.lookahead = .eof then 0 else 1

/-! ## Single characters -/

/-- Reads the next character and puts it ahead. A read that fails is the last
    one: nothing is ahead after it. -/
def read (s : Scanner) : Scanned Unit :=
  let position := s.position.next
  match s.source.next with
  | (.ok (some c), source) => .ok () { s with source, lookahead := .char c, position }
  | (.ok none, source) => .ok () { s with source, lookahead := .eof, position }
  | (.error cause, source) =>
    .error ⟨position, .unreadable cause⟩
      { s with source, lookahead := .eof, position, failed := true }

/-- Passes over the character ahead. At the end of the source nothing happens. -/
def advance (s : Scanner) : Scanned Unit :=
  if s.lookahead = .eof then .ok () s else s.read

theorem lookahead_of_current {s : Scanner} {c : Char} (h : s.current = some c) :
    s.lookahead = .char c := by
  unfold current at h
  split at h <;> simp_all

theorem lookahead_ne_eof {s : Scanner} {c : Char} (h : s.current = some c) :
    s.lookahead ≠ .eof := by
  simp [lookahead_of_current h]

/-- A read leaves less to read. -/
theorem unread_read_lt {s : Scanner} (h : s.lookahead ≠ .eof) :
    s.read.scanner.unread < s.unread := by
  obtain ⟨⟨reads, fault⟩, lookahead, position, inComment, failed⟩ := s
  have hl : (if lookahead = .eof then 0 else 1) = 1 := if_neg h
  rcases reads with _ | ⟨_ | _, reads⟩ <;> rcases fault with _ | _ <;>
    simp only [read, Source.next, unread, Scanned.scanner_ok, Scanned.scanner_error, hl,
      reduceCtorEq, if_true, if_false, List.length_cons, List.length_nil] <;> omega

/-- Passing over a character leaves less to read. -/
theorem unread_advance_lt {s : Scanner} {c : Char} (h : s.current = some c) :
    s.advance.scanner.unread < s.unread := by
  rw [advance, if_neg (lookahead_ne_eof h)]
  exact unread_read_lt (lookahead_ne_eof h)

theorem unread_advance_le (s : Scanner) : s.advance.scanner.unread ≤ s.unread := by
  unfold advance
  split
  · exact Nat.le_refl _
  · next h => exact Nat.le_of_lt (unread_read_lt h)

theorem unread_advance_ok {s t : Scanner} {c : Char} (h : s.current = some c)
    (ht : s.advance = .ok () t) : t.unread < s.unread := by
  have := unread_advance_lt h
  rwa [ht] at this

/-- A read that fails uses up the character ahead. -/
theorem unread_advance_error {s t : Scanner} {e : LexError} (ht : s.advance = .error e t) :
    t.unread < s.unread := by
  unfold advance at ht
  split at ht
  · cases ht
  · next h =>
    have := unread_read_lt h
    rwa [ht] at this

/-! ## Runs of characters -/

/-- Passes over the longest run of characters that `accept` allows, and gives
    it with `text` before it. -/
def takeWhile (accept : Char → Bool) (text : String) (s : Scanner) : Scanned String :=
  match _hc : s.current with
  | none => .ok text s
  | some c =>
    if accept c then
      match _ht : s.advance with
      | .ok () t => takeWhile accept (text.push c) t
      | .error e t => .error e t
    else .ok text s
termination_by s.unread
decreasing_by exact unread_advance_ok _hc _ht

/-- Passes over the rest of a comment. The line end is not part of it. -/
def skipComment (s : Scanner) : Scanned Unit :=
  match _hc : s.current with
  | none => .ok () { s with inComment := false }
  | some c =>
    if c = '\n' then .ok () { s with inComment := false }
    else
      match _ht : s.advance with
      | .ok () t => skipComment t
      | .error e t => .error e t
termination_by s.unread
decreasing_by exact unread_advance_ok _hc _ht

/-- Counts the line end that is about to be passed over. -/
def countLine (c : Char) (s : Scanner) : Scanner :=
  if c = '\n' then { s with position := s.position.newline } else s

@[simp]
theorem unread_countLine (c : Char) (s : Scanner) : (countLine c s).unread = s.unread := by
  unfold countLine
  split <;> rfl

@[simp]
theorem current_countLine (c : Char) (s : Scanner) : (countLine c s).current = s.current := by
  unfold countLine
  split <;> rfl

/-- Passes over blanks. -/
def skipBlanks (s : Scanner) : Scanned Unit :=
  match _hc : s.current with
  | none => .ok () s
  | some c =>
    if Text.isBlank c then
      match _ht : (countLine c s).advance with
      | .ok () t => skipBlanks t
      | .error e t => .error e t
    else .ok () s
termination_by s.unread
decreasing_by simpa using unread_advance_ok ((current_countLine c s).trans _hc) _ht

/-- Passes over what stands before a token: the rest of a comment if the scanner
    is inside one, and blanks. -/
def skipGap (s : Scanner) : Scanned Unit :=
  if s.inComment then s.skipComment.andThen fun _ t => t.skipBlanks else s.skipBlanks

/-! ## Lexemes -/

/-- The kinds of the symbols that are one character and start no other symbol. -/
def single? : Char → Option Kind
  | '<' => some .lt
  | '+' => some .plus
  | '-' => some .minus
  | '*' => some .star
  | ';' => some .semicolon
  | '(' => some .lparen
  | ')' => some .rparen
  | '.' => some .dot
  | ',' => some .comma
  | _ => none

/-- Whether a character continues a word. -/
def isWordChar (c : Char) : Bool := c.isAlphanum || c == '_'

/-- Fails at a character that is part of no token. What is ahead stays ahead. -/
def illegal {α : Type} (position : Position) (found : Char) (s : Scanner) : Scanned α :=
  .error ⟨position, .illegalCharacter found⟩ { s with failed := true }

/-- A symbol of one character, or of two if `second` follows. -/
def pair (start : Position) (second : Char) (both alone : Kind) (s : Scanner) : Scanned Token :=
  s.advance.andThen fun _ s =>
    if s.current = some second then s.advance.map fun _ => .bare both start
    else .ok (.bare alone start) s

/-- The symbol that starts with an exclamation mark. A visible character in the
    place of the second half is the illegal one; before a blank or at the end
    the mark itself is. -/
def notEqual (start : Position) (s : Scanner) : Scanned Token :=
  s.advance.andThen fun _ s =>
    match s.current with
    | some c =>
      if c = '=' then s.advance.map fun _ => .bare .notEq start
      else if Text.isBlank c then s.illegal start '!'
      else s.illegal s.position c
    | none => s.illegal start '!'

/-- The token that starts with a slash, or nothing if a comment does. -/
def slash (start : Position) (s : Scanner) : Scanned (Option Token) :=
  s.advance.andThen fun _ s =>
    if s.current = some '/' then .ok none { s with inComment := true }
    else .ok (some (.bare .slash start)) s

/-- The token that starts with the character `c` ahead at `start`, or nothing if
    a comment does. -/
def lexeme (start : Position) (c : Char) (s : Scanner) : Scanned (Option Token) :=
  if c.isAlpha then
    (s.takeWhile isWordChar "").map fun word =>
      some (.of (ReservedWord.classify word) word start)
  else if c.isDigit then
    (s.takeWhile Char.isDigit "").map fun digits => some (.of .num digits start)
  else if c = '/' then s.slash start
  else if c = '=' then (s.pair start '<' .ltEq .eq).map some
  else if c = '>' then (s.pair start '=' .gtEq .gt).map some
  else if c = ':' then (s.pair start '=' .assign .colon).map some
  else if c = '!' then (s.notEqual start).map some
  else
    match single? c with
    | some kind => s.advance.map fun _ => some (.bare kind start)
    | none => s.illegal start c

/-! ## What a lexeme leaves to read -/

section Unread

variable {α β : Type}

/-- Parts of scanning that do not go back do not go back one after the other. -/
theorem unread_andThen_le {r : Scanned α} {f : α → Scanner → Scanned β} {s : Scanner}
    (hr : r.scanner.unread ≤ s.unread) (hf : ∀ a t, (f a t).scanner.unread ≤ t.unread) :
    (r.andThen f).scanner.unread ≤ s.unread := by
  cases r with
  | ok a t => exact Nat.le_trans (hf a t) hr
  | error e t => exact hr

/-- A first part of scanning that goes forward makes the whole go forward. -/
theorem unread_andThen_lt {r : Scanned α} {f : α → Scanner → Scanned β} {s : Scanner}
    (hr : r.scanner.unread < s.unread) (hf : ∀ a t, (f a t).scanner.unread ≤ t.unread) :
    (r.andThen f).scanner.unread < s.unread := by
  cases r with
  | ok a t => exact Nat.lt_of_le_of_lt (hf a t) hr
  | error e t => exact hr

theorem unread_takeWhile_le (accept : Char → Bool) (text : String) (s : Scanner) :
    (takeWhile accept text s).scanner.unread ≤ s.unread := by
  fun_induction takeWhile accept text s with
  | case1 | case4 => exact Nat.le_refl _
  | case2 text s c hc _ t ht ih => exact Nat.le_trans ih (Nat.le_of_lt (unread_advance_ok hc ht))
  | case3 text s c hc _ e t ht => exact Nat.le_of_lt (unread_advance_error ht)

/-- A run that starts with the character ahead goes forward. -/
theorem unread_takeWhile_lt {accept : Char → Bool} {text : String} {s : Scanner} {c : Char}
    (hc : s.current = some c) (ha : accept c = true) :
    (takeWhile accept text s).scanner.unread < s.unread := by
  rw [takeWhile]
  split
  · simp_all
  · next c' h =>
    obtain rfl : c' = c := Option.some.inj (h.symm.trans hc)
    rw [if_pos ha]
    split
    · next t ht =>
      exact Nat.lt_of_le_of_lt (unread_takeWhile_le _ _ _) (unread_advance_ok hc ht)
    · next e t ht => exact unread_advance_error ht

theorem unread_skipComment_le (s : Scanner) : s.skipComment.scanner.unread ≤ s.unread := by
  fun_induction skipComment s with
  | case1 | case2 => exact Nat.le_refl _
  | case3 s c hc _ t ht ih => exact Nat.le_trans ih (Nat.le_of_lt (unread_advance_ok hc ht))
  | case4 s c hc _ e t ht => exact Nat.le_of_lt (unread_advance_error ht)

theorem unread_skipComment_error {s t : Scanner} {e : LexError}
    (h : s.skipComment = .error e t) : t.unread < s.unread := by
  fun_induction skipComment s with
  | case1 | case2 => cases h
  | case3 s c hc _ u hu ih => exact Nat.lt_trans (ih h) (unread_advance_ok hc hu)
  | case4 s c hc _ e' u hu => cases h; exact unread_advance_error hu

theorem unread_skipBlanks_le (s : Scanner) : s.skipBlanks.scanner.unread ≤ s.unread := by
  fun_induction skipBlanks s with
  | case1 | case4 => exact Nat.le_refl _
  | case2 s c hc _ t ht ih =>
    have := unread_advance_ok ((current_countLine c s).trans hc) ht
    rw [unread_countLine] at this
    exact Nat.le_trans ih (Nat.le_of_lt this)
  | case3 s c hc _ e t ht => simpa using Nat.le_of_lt (unread_advance_error ht)

theorem unread_skipBlanks_error {s t : Scanner} {e : LexError}
    (h : s.skipBlanks = .error e t) : t.unread < s.unread := by
  fun_induction skipBlanks s with
  | case1 | case4 => cases h
  | case2 s c hc _ u hu ih =>
    have := unread_advance_ok ((current_countLine c s).trans hc) hu
    rw [unread_countLine] at this
    exact Nat.lt_trans (ih h) this
  | case3 s c hc _ e' u hu => cases h; simpa using unread_advance_error hu

theorem unread_skipGap_le (s : Scanner) : s.skipGap.scanner.unread ≤ s.unread := by
  unfold skipGap
  split
  · exact unread_andThen_le (unread_skipComment_le s) fun _ t => unread_skipBlanks_le t
  · exact unread_skipBlanks_le s

theorem unread_skipGap_error {s t : Scanner} {e : LexError} (h : s.skipGap = .error e t) :
    t.unread < s.unread := by
  unfold skipGap at h
  split at h
  · have hle := unread_skipComment_le s
    cases hk : s.skipComment with
    | ok _ u =>
      rw [hk] at h hle
      exact Nat.lt_of_lt_of_le (unread_skipBlanks_error h) hle
    | error _ u =>
      rw [hk] at h
      cases h
      exact unread_skipComment_error hk
  · exact unread_skipBlanks_error h

theorem unread_pair_lt {s : Scanner} {c : Char} (hc : s.current = some c) (start : Position)
    (second : Char) (both alone : Kind) :
    (s.pair start second both alone).scanner.unread < s.unread := by
  refine unread_andThen_lt (unread_advance_lt hc) fun _ t => ?_
  split
  · simpa using unread_advance_le t
  · exact Nat.le_refl _

theorem unread_notEqual_lt {s : Scanner} {c : Char} (hc : s.current = some c)
    (start : Position) : (s.notEqual start).scanner.unread < s.unread := by
  refine unread_andThen_lt (unread_advance_lt hc) fun _ t => ?_
  split
  · split
    · simpa using unread_advance_le t
    · split <;> exact Nat.le_refl _
  · exact Nat.le_refl _

theorem unread_slash_lt {s : Scanner} {c : Char} (hc : s.current = some c)
    (start : Position) : (s.slash start).scanner.unread < s.unread := by
  refine unread_andThen_lt (unread_advance_lt hc) fun _ t => ?_
  split <;> exact Nat.le_refl _

/-- A lexeme goes forward, unless the character ahead is part of no token. -/
theorem unread_lexeme {s : Scanner} {c : Char} (hc : s.current = some c) (start : Position) :
    (s.lexeme start c).scanner.unread < s.unread ∨ s.lexeme start c = s.illegal start c := by
  unfold lexeme
  split
  · next h =>
    left
    simpa using unread_takeWhile_lt hc (by simp [isWordChar, Char.isAlphanum, h])
  split
  · next h => left; simpa using unread_takeWhile_lt hc h
  split
  · exact .inl (unread_slash_lt hc start)
  split
  · left; simpa using unread_pair_lt hc start _ _ _
  split
  · left; simpa using unread_pair_lt hc start _ _ _
  split
  · left; simpa using unread_pair_lt hc start _ _ _
  split
  · left; simpa using unread_notEqual_lt hc start
  split
  · left; simpa using unread_advance_lt hc
  · exact .inr rfl

/-- Without error a lexeme goes forward. -/
theorem unread_lexeme_ok {s t : Scanner} {c : Char} {start : Position} {r : Option Token}
    (hc : s.current = some c) (ht : s.lexeme start c = .ok r t) : t.unread < s.unread := by
  rcases unread_lexeme hc start with h | h
  · rwa [ht] at h
  · rw [ht] at h
    cases h

end Unread

/-! ## The next token -/

/-- The next token. At the end of the source this is the end of the input, which
    can be asked for again. -/
def nextToken (s : Scanner) : Scanned Token :=
  match _hg : s.skipGap with
  | .error e t => .error e t
  | .ok () t =>
    match _hc : t.current with
    | none => .ok (.eof t.position) t
    | some c =>
      match _hl : t.lexeme t.position c with
      | .error e u => .error e u
      | .ok (some token) u => .ok token u
      | .ok none u => nextToken u
termination_by s.unread
decreasing_by
  have hg := unread_skipGap_le s
  rw [_hg] at hg
  exact Nat.lt_of_lt_of_le (unread_lexeme_ok _hc _hl) hg

/-- Reads the first character if nothing was read yet. -/
def prime (s : Scanner) : Scanned Unit :=
  if s.lookahead = .unprimed then s.read else .ok () s

/-- Scans a token: the next one, after the first read where nothing was read. -/
def scan (s : Scanner) : Scanned Token := s.prime.andThen fun _ t => t.nextToken

/-! ## Progress -/

/-- How far scanning for a token brings a scanner: forward, or to the end of the
    source, or to a character that is part of no token. -/
def Progress (s : Scanner) : Scanned Token → Prop
  | .ok token t => t.unread < s.unread ∨ token.isEof = true ∧ t.unread ≤ s.unread
  | .error e t => t.unread < s.unread ∨ t.unread ≤ s.unread ∧
      ∃ c, e = ⟨t.position, .illegalCharacter c⟩ ∧ t.current = some c

theorem Progress.of_le {s t : Scanner} {r : Scanned Token} (h : Progress t r)
    (hle : t.unread ≤ s.unread) : Progress s r := by
  cases r with
  | ok token u => exact h.imp (by omega) fun ⟨h₁, h₂⟩ => ⟨h₁, by omega⟩
  | error e u => exact h.imp (by omega) fun ⟨h₁, h₂⟩ => ⟨by omega, h₂⟩

theorem progress_nextToken (s : Scanner) : Progress s s.nextToken := by
  fun_induction nextToken s with
  | case1 s e t hg => exact .inl (unread_skipGap_error hg)
  | case2 s t hg hc =>
    have hle := unread_skipGap_le s
    rw [hg] at hle
    exact .inr ⟨rfl, hle⟩
  | case3 s t hg c hc e u hl =>
    have hle := unread_skipGap_le s
    rw [hg] at hle
    refine Progress.of_le (t := t) ?_ hle
    rcases unread_lexeme hc t.position with h | h
    · rw [hl] at h
      exact .inl h
    · rw [hl] at h
      cases h
      exact .inr ⟨Nat.le_refl _, c, rfl, hc⟩
  | case4 s t hg c hc token u hl =>
    have hle := unread_skipGap_le s
    rw [hg] at hle
    exact .inl (Nat.lt_of_lt_of_le (unread_lexeme_ok hc hl) hle)
  | case5 s t hg c hc u hl ih =>
    have hle := unread_skipGap_le s
    rw [hg] at hle
    exact ih.of_le (Nat.le_of_lt (Nat.lt_of_lt_of_le (unread_lexeme_ok hc hl) hle))

/-- Scanning for a token makes progress. -/
theorem progress_scan (s : Scanner) : Progress s s.scan := by
  unfold scan prime
  split
  · next h =>
    have hlt : s.read.scanner.unread < s.unread := unread_read_lt (by simp [h])
    cases hr : s.read with
    | ok _ t =>
      rw [hr] at hlt
      exact (progress_nextToken t).of_le (Nat.le_of_lt hlt)
    | error e t =>
      rw [hr] at hlt
      exact .inl hlt
  · exact progress_nextToken s

theorem skipBlanks_of_current {s : Scanner} (h : s.current = none) :
    s.skipBlanks = .ok () s := by
  rw [skipBlanks]
  split <;> simp_all

theorem skipComment_of_current {s : Scanner} (h : s.current = none) :
    s.skipComment = .ok () { s with inComment := false } := by
  rw [skipComment]
  split <;> simp_all

/-- At the end of a source there is nothing but the end of the input. -/
theorem scan_eof {s : Scanner} (h : s.lookahead = .eof) :
    s.scan = .ok (.eof s.position) { s with inComment := false } := by
  have hc : s.current = none := by simp [current, h]
  have hg : s.skipGap = .ok () { s with inComment := false } := by
    unfold skipGap
    split
    · rw [skipComment_of_current hc]
      exact skipBlanks_of_current hc
    · next hin =>
      have hs : { s with inComment := false } = s := by
        obtain ⟨_, _, _, inComment, _⟩ := s
        simpa using hin
      rw [skipBlanks_of_current hc, hs]
  have hc' : ({ s with inComment := false } : Scanner).current = none := hc
  simp only [scan, prime, h, reduceCtorEq, if_false, Scanned.andThen_ok]
  rw [nextToken]
  split
  · simp_all
  · next u hu =>
    obtain rfl : { s with inComment := false } = u := by simpa [hg] using hu
    split <;> simp_all

end Scanner

end TinyLang

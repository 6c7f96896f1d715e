import TinyLang.Scanner

/-!
# Lexers

A lexer gives the tokens and errors of a source one after the other. It gives
the end of the input once and nothing after it. An error ends it too, unless
the error is an illegal character and the lexer is to collect all of them: then
that character is passed over before the next token, if it is still ahead.

Each item brings a lexer closer to its end (`weight_next_lt`), so the items of
a source are finitely many (`Lexer.drain`).
-/

namespace TinyLang

namespace Lexer

/-- What an illegal character does to a lexer. -/
inductive Mode where
  /-- It ends the lexer. -/
  | halt
  /-- It is reported, and the lexer goes on behind it. -/
  | collectAll
deriving DecidableEq, Repr, Inhabited

/-- What a lexer gives: a token or an error. -/
abbrev Item := Except LexError Token

/-- The token of an item. -/
def Item.token? : Item → Option Token
  | .ok token => some token
  | .error _ => none

/-- The error of an item. -/
def Item.error? : Item → Option LexError
  | .ok _ => none
  | .error e => some e

end Lexer

/-- A source in the course of being given as tokens and errors. -/
structure Lexer where
  /-- The scanner that the tokens come from. -/
  scanner : Scanner
  /-- What an illegal character does. -/
  mode : Lexer.Mode
  /-- Whether the character ahead was reported and is still to be passed over. -/
  skipPending : Bool := false
  /-- Whether there is nothing more to give. -/
  finished : Bool := false

namespace Lexer

/-- A lexer at the start of a source. -/
def ofSource (mode : Mode) (source : Source) : Lexer := { scanner := .ofSource source, mode }

/-- The lexer in the same mode at the start of another source. -/
def reset (lx : Lexer) (source : Source) : Lexer := ofSource lx.mode source

/-- Whether an error was given. -/
def isFailed (lx : Lexer) : Bool := lx.scanner.failed

/-- Whether the lexer stopped inside a comment. -/
def isInComment (lx : Lexer) : Bool := lx.scanner.inComment

/-- The lexer after an error that left `scanner`. -/
def afterError (mode : Mode) (e : LexError) (scanner : Scanner) : Lexer :=
  match e.fault, mode with
  | .illegalCharacter found, .collectAll =>
    { scanner, mode,
      skipPending := scanner.current == some found && scanner.position == e.position }
  | _, _ => { scanner, mode, finished := true }

/-- Passes over the character that was reported, if it is still to be, and scans
    a token. -/
def scan (lx : Lexer) : Scanned Token :=
  if lx.skipPending then lx.scanner.advance.andThen fun _ s => s.scan else lx.scanner.scan

/-- What a lexer gives for a scanned token or error, and the lexer after it. -/
def settle (mode : Mode) : Scanned Token → Item × Lexer
  | .ok token scanner => (.ok token, { scanner, mode, finished := token.isEof })
  | .error e scanner => (.error e, afterError mode e scanner)

/-- The next item and the lexer after it, or nothing at the end. -/
def next (lx : Lexer) : Option (Item × Lexer) :=
  if lx.finished then none else some (settle lx.mode lx.scan)

/-! ## The end of a lexer -/

/-- An upper bound for the number of items to come. A character that was
    reported counts for less than one that was not. -/
def weight (lx : Lexer) : Nat :=
  if lx.finished then 0 else 2 * lx.scanner.unread + (if lx.skipPending then 0 else 1) + 1

theorem weight_finished {lx : Lexer} (h : lx.finished = true) : lx.weight = 0 := by
  simp [weight, h]

theorem weight_le (lx : Lexer) : lx.weight ≤ 2 * lx.scanner.unread + 2 := by
  unfold weight
  repeat' split
  all_goals omega

@[simp]
theorem scanner_afterError (mode : Mode) (e : LexError) (s : Scanner) :
    (afterError mode e s).scanner = s := by
  unfold afterError
  split <;> rfl

/-- After an illegal character that is still ahead, that character counts for
    less. -/
theorem weight_afterError_le (mode : Mode) {s : Scanner} {c : Char} (h : s.current = some c) :
    (afterError mode ⟨s.position, .illegalCharacter c⟩ s).weight ≤ 2 * s.unread + 1 := by
  cases mode <;> simp [afterError, weight, h]

/-- An item costs one character at least, or the reporting of one. -/
theorem weight_settle_le (mode : Mode) {s : Scanner} {r : Scanned Token} (h : s.Progress r) :
    (settle mode r).2.weight ≤ 2 * s.unread + 1 := by
  cases r with
  | ok token t =>
    rcases h with h | ⟨h, _⟩
    · have := weight_le { scanner := t, mode, finished := token.isEof }
      simp only [settle] at this ⊢
      omega
    · rw [settle, weight_finished h]
      omega
  | error e t =>
    rcases h with h | ⟨h, c, rfl, hc⟩
    · have := weight_le (afterError mode e t)
      rw [scanner_afterError] at this
      simp only [settle]
      omega
    · have := weight_afterError_le mode hc
      simp only [settle]
      omega

/-- Each item brings the lexer closer to its end. -/
theorem weight_next_lt {lx lx' : Lexer} {item : Item} (h : lx.next = some (item, lx')) :
    lx'.weight < lx.weight := by
  unfold next at h
  split at h
  · cases h
  next hf =>
  have hlx' : (settle lx.mode lx.scan).2 = lx' := by simp_all
  have hw : lx.weight = 2 * lx.scanner.unread + (if lx.skipPending then 0 else 1) + 1 :=
    if_neg hf
  rw [← hlx', hw]
  unfold scan
  split
  · by_cases he : lx.scanner.lookahead = .eof
    · simp [Scanner.advance, he, Scanner.scan_eof he, settle, weight]
    · have hlt := Scanner.unread_read_lt he
      rw [Scanner.advance, if_neg he]
      cases hr : lx.scanner.read with
      | ok _ t =>
        rw [hr] at hlt
        have := weight_settle_le lx.mode t.progress_scan
        simp only [Scanned.andThen_ok, Scanned.scanner_ok] at hlt ⊢
        omega
      | error e t =>
        rw [hr] at hlt
        have := weight_le (afterError lx.mode e t)
        rw [scanner_afterError] at this
        simp only [Scanned.andThen_error, Scanned.scanner_error, settle] at hlt ⊢
        omega
  · have := weight_settle_le lx.mode lx.scanner.progress_scan
    omega

/-- The items still to come, after those in `items`, and the lexer at its end. -/
def drain (lx : Lexer) (items : Array Item) : Array Item × Lexer :=
  match _h : lx.next with
  | none => (items, lx)
  | some (item, lx') => drain lx' (items.push item)
termination_by lx.weight
decreasing_by exact weight_next_lt _h

/-- The items still to come. -/
def items (lx : Lexer) : List Item := (lx.drain #[]).1.toList

end Lexer

/-! ## Lexing a whole source -/

/-- All that a lexer gives: the tokens and the errors, each in order. -/
structure Lexing where
  /-- The tokens. -/
  tokens : TokenList
  /-- The errors. -/
  errors : List LexError
deriving DecidableEq

namespace Lexing

/-- The tokens and errors among the items of a lexer. -/
def ofItems (items : List Lexer.Item) : Lexing where
  tokens := items.filterMap Lexer.Item.token?
  errors := items.filterMap Lexer.Item.error?

/-- The tokens and errors of a source. -/
def ofSource (mode : Lexer.Mode) (source : Source) : Lexing :=
  ofItems (Lexer.ofSource mode source).items

/-- Whether there is an error. -/
def hasErrors (l : Lexing) : Bool := !l.errors.isEmpty

/-- The tokens, or the first error. -/
def result (l : Lexing) : Except LexError TokenList :=
  match l.errors with
  | [] => .ok l.tokens
  | e :: _ => .error e

end Lexing

/-- The tokens of a source, or its first error. -/
def lexSource (source : Source) : Except LexError TokenList :=
  (Lexing.ofSource .halt source).result

/-- The tokens of a text, or its first error. -/
def lex (text : String) : Except LexError TokenList := lexSource (.ofText text)

/-- The tokens of bytes read line by line, or their first error. -/
def lexBytes (bytes : List UInt8) : Except LexError TokenList := lexSource (.ofBytes bytes)

end TinyLang

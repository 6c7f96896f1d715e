import TinyLang.KindSet
import TinyLang.Token

/-!
# Cursors

A cursor stands at a token of a list and moves forward only. It does not move
past the end of the input, and a list that does not end with one reads as if it
did: behind its last token a cursor finds the end of the input, at the position
of that token.
-/

namespace TinyLang

/-- A place in a list of tokens. -/
structure Cursor where
  /-- The tokens from here on. -/
  rest : TokenList
  /-- The number of tokens before. -/
  index : Nat
  /-- Where the end of the input is found behind the last token. -/
  finish : Position

namespace Cursor

/-- A cursor at the first token of a list. -/
def ofList (ts : TokenList) : Cursor where
  rest := ts
  index := 0
  finish := (ts.getLast?.map Token.position).getD .start

/-- The token at the cursor. -/
def current (c : Cursor) : Token := c.rest.head?.getD (.eof c.finish)

/-- The kind of the token at the cursor. -/
def kind (c : Cursor) : Kind := c.current.kind

/-- Whether the cursor stands at the end of the input. -/
def atEnd (c : Cursor) : Bool := c.kind == .eof

/-- The cursor after the token at it. -/
def advance (c : Cursor) : Cursor :=
  if c.atEnd then c else { c with rest := c.rest.tail, index := c.index + 1 }

/-- The number of tokens from here on, without ends of the input. -/
def remaining (c : Cursor) : Nat := c.rest.countP fun t => !t.isEof

/-- Whether a token is one to pass over on the way to a kind of `stops`. -/
def isSkipped (stops : KindSet) (t : Token) : Bool := !t.isEof && !stops.contains t.kind

/-- The cursor at the next token of a kind of `stops`, or at the end of the
    input. -/
def synchronize (stops : KindSet) (c : Cursor) : Cursor where
  rest := c.rest.dropWhile (isSkipped stops)
  index := c.index + (c.rest.takeWhile (isSkipped stops)).length
  finish := c.finish

/-- The number of tokens between two places of a list. -/
def distance (c d : Cursor) : Nat := d.index - c.index

/-! ## What is left -/

/-- The number of tokens that a cursor can still pass. -/
def left (c : Cursor) : Nat := c.rest.length

/-- Passing a token leaves fewer. -/
theorem left_advance_lt {c : Cursor} (h : c.kind ≠ .eof) : c.advance.left < c.left := by
  obtain ⟨rest, index, finish⟩ := c
  cases rest with
  | nil => exact absurd rfl h
  | cons t ts =>
    have : ¬ (Cursor.atEnd ⟨t :: ts, index, finish⟩) = true := by simpa [atEnd] using h
    simp [advance, this, left]

theorem left_advance_le (c : Cursor) : c.advance.left ≤ c.left := by
  by_cases h : c.kind = .eof
  · simp [advance, atEnd, h]
  · exact Nat.le_of_lt (left_advance_lt h)

theorem left_synchronize_le (stops : KindSet) (c : Cursor) :
    (c.synchronize stops).left ≤ c.left :=
  List.Sublist.length_le (List.dropWhile_sublist _)

end Cursor

end TinyLang

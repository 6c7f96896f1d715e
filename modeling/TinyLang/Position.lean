/-!
# Positions

A position is a line and a column of a source. Lines count from one. A column
counts the characters read on its line, so the first character of a line is at
column one, and column zero is the place before it. A source starts before its
first character, at `Position.start`.
-/

namespace TinyLang

/-- A place in a source. -/
structure Position where
  /-- The line, counted from one. -/
  line : Nat
  /-- The number of characters of the line up to and including this one. -/
  column : Nat
deriving DecidableEq, Repr

namespace Position

/-- The place before the first character of a source. -/
def start : Position := ⟨1, 0⟩

instance : Inhabited Position := ⟨start⟩

/-- The next character of the same line. -/
def next (p : Position) : Position := ⟨p.line, p.column + 1⟩

/-- The place before the first character of the next line. -/
def newline (p : Position) : Position := ⟨p.line + 1, 0⟩

/-- Positions are ordered by line, and by column within a line. -/
def compare (p q : Position) : Ordering :=
  (Ord.compare p.line q.line).then (Ord.compare p.column q.column)

/-- A position is written as its line and its column with a colon between. -/
def render (p : Position) : String :=
  toString p.line ++ ":" ++ toString p.column

end Position

end TinyLang

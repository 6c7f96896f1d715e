import TinyLang.Source

/-!
# Reading line by line

Bytes are read through a buffer of one line. A read takes the next character out of the
buffer. Where there is none left, the buffer is filled with the next line, up to and with
its line end, until there is no further line. A line that is not UTF-8 is gone with the read
that fails, and leaves the buffer empty.
-/

namespace TinyLang

/-- Bytes in the course of being read line by line. -/
structure LineReader where
  /-- The bytes behind the line in the buffer. -/
  bytes : List UInt8
  /-- The line in the buffer. -/
  line : String
  /-- How many bytes of the line were read. This is always a place between characters. -/
  offset : line.Pos
  /-- Whether the end of the bytes was found. -/
  exhausted : Bool

namespace LineReader

/-- The bytes up to and with the next line end, and those behind it. -/
def cutLine : List UInt8 → List UInt8 × List UInt8
  | [] => ([], [])
  | b :: bytes =>
    if b == 10 then ([b], bytes)
    else
      let (line, rest) := cutLine bytes
      (b :: line, rest)

theorem cutLine_append (bytes : List UInt8) : (cutLine bytes).1 ++ (cutLine bytes).2 = bytes := by
  induction bytes with
  | nil => rfl
  | cons b bytes ih =>
    rw [cutLine]
    split
    · rfl
    · exact congrArg (b :: ·) ih

/-- A reader at the start of a line in the buffer. -/
def filled (bytes : List UInt8) (line : String) (exhausted : Bool) : LineReader :=
  { bytes, line, offset := line.startPos, exhausted }

/-- A reader at the start of given bytes. -/
def ofBytes (bytes : List UInt8) : LineReader := filled bytes "" false

/-- One read: a character, the end of the bytes, or a fault; and the reader after it. -/
def next (r : LineReader) : Except ReadError (Option Char) × LineReader :=
  if hend : r.offset = r.line.endPos then
    if _hexhausted : r.exhausted then (.ok none, r)
    else
      let line := (cutLine r.bytes).1
      let rest := (cutLine r.bytes).2
      match Source.decode line with
      | .error e => (.error e, filled rest "" false)
      | .ok text => next (filled rest text line.isEmpty)
  else (.ok (some (r.offset.get hend)), { r with offset := r.offset.next hend })
termination_by 2 * r.bytes.length + if r.exhausted then 0 else 1
decreasing_by
  have happend := congrArg List.length (cutLine_append r.bytes)
  rw [List.length_append] at happend
  simp only [filled, List.isEmpty_iff, if_neg _hexhausted]
  split
  · next hline =>
    rw [hline] at happend
    omega
  · next hline =>
    have := List.length_pos_iff.2 hline
    omega

end LineReader

end TinyLang

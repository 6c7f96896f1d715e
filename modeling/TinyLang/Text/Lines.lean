/-!
# Lines

A line runs up to and including its line end. Cut into lines, a sequence is
their concatenation again (`flatten_pieces`), every line but the last ends in a
line end, and no line is empty. The lines of a text, as they are shown, have
lost their line ends.
-/

namespace TinyLang.Text

/-- The loop of `pieces`: `piece` is the unfinished piece, last element first,
    and `done` are the finished ones. -/
def piecesLoop {α : Type} (stop : α → Bool) (piece : List α) (done : Array (List α)) :
    List α → Array (List α)
  | [] => if piece.isEmpty then done else done.push piece.reverse
  | a :: as =>
    if stop a then piecesLoop stop [] (done.push (a :: piece).reverse) as
    else piecesLoop stop (a :: piece) done as

/-- The sequence cut after every element that `stop` picks. -/
def pieces {α : Type} (stop : α → Bool) (as : List α) : List (List α) :=
  (piecesLoop stop [] #[] as).toList

/-- Nothing is lost by cutting. -/
theorem flatten_pieces {α : Type} (stop : α → Bool) (as : List α) :
    (pieces stop as).flatten = as := by
  suffices h : ∀ (as piece : List α) (done : Array (List α)),
      (piecesLoop stop piece done as).toList.flatten
        = done.toList.flatten ++ (piece.reverse ++ as) by
    simpa [pieces] using h as [] #[]
  intro as
  induction as with
  | nil =>
    intro piece done
    cases piece <;> simp [piecesLoop]
  | cons a as ih =>
    intro piece done
    rw [piecesLoop]
    split <;> simp [ih]

/-- A line without its line end: the line feed, and a carriage return right
    before it. -/
def dropLineEnd (line : List Char) : List Char :=
  match line.reverse with
  | '\n' :: '\r' :: cs => cs.reverse
  | '\n' :: cs => cs.reverse
  | _ => line

/-- The lines of a text, without their line ends. -/
def lines (s : String) : List String :=
  (pieces (· == '\n') s.toList).map fun line => String.ofList (dropLineEnd line)

end TinyLang.Text

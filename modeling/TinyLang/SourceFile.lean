import TinyLang.Text.Lines

/-!
# Source files

A source file is a text and the path it was found at. What is said about a
source quotes its lines, which are counted from one; a listing has them at hand.
-/

namespace TinyLang

/-- A text with the path it was found at. -/
structure SourceFile where
  /-- Where the text was found. -/
  path : String
  /-- The text. -/
  text : String
deriving DecidableEq, Repr

/-- The path of a source file and the lines of its text. -/
structure Listing where
  /-- Where the text was found. -/
  path : String
  /-- The lines of the text. -/
  lines : Array String
deriving DecidableEq, Repr

/-- The listing of a source file. -/
def SourceFile.listing (f : SourceFile) : Listing := ⟨f.path, (Text.lines f.text).toArray⟩

/-- The line with a given number, if there is one. -/
def Listing.line? (l : Listing) (number : Nat) : Option String :=
  if number = 0 then none else l.lines[number - 1]?

end TinyLang

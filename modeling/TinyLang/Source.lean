import TinyLang.Text.Lines

/-!
# Sources

A source gives one character for each read, until it ends or fails. It is the
list of what its next reads give, with the fault, if any, that every read after
them gives again. The source of a text gives its characters and ends; a source
of bytes is read line by line, and a line that is not UTF-8 costs one failed
read, after which the next line follows.
-/

namespace TinyLang

/-- Why something could not be read. -/
inductive ReadError where
  /-- The bytes are not UTF-8. -/
  | notUtf8
  /-- There is no file of that name. -/
  | notFound
  /-- A name on the way to the file is not that of a directory. -/
  | notDirectory
  /-- The name is that of a directory. -/
  | isDirectory
  /-- A name on the path is longer than a name may be. -/
  | nameTooLong
  /-- The path has a NUL character in it. -/
  | nulInPath
  /-- Any other fault, with what is said about it. -/
  | other (message : String)
deriving DecidableEq, Repr

/-- What is said about a failed read. -/
def ReadError.message : ReadError → String
  | notUtf8 => "stream did not contain valid UTF-8"
  | notFound => "No such file or directory (os error 2)"
  | notDirectory => "Not a directory (os error 20)"
  | isDirectory => "Is a directory (os error 21)"
  | nameTooLong => "File name too long (os error 36)"
  | nulInPath => "file name contained an unexpected NUL byte"
  | other message => message

/-- What can be read, one character at a time. -/
structure Source where
  /-- What the next reads give. -/
  reads : List (Except ReadError Char)
  /-- What every read after them gives: the end of the source, or a fault. -/
  fault : Option ReadError

namespace Source

/-- One read: a character, the end of the source, or a fault; and the source
    after it. -/
def next (s : Source) : Except ReadError (Option Char) × Source :=
  match s.reads, s.fault with
  | .ok c :: reads, _ => (.ok (some c), { s with reads })
  | .error e :: reads, _ => (.error e, { s with reads })
  | [], none => (.ok none, s)
  | [], some e => (.error e, s)

/-- The source of given characters. -/
def ofChars (cs : List Char) : Source := ⟨cs.map .ok, none⟩

/-- The source of a text. -/
def ofText (text : String) : Source := ofChars text.toList

/-- The source of a text that cannot be read further. -/
def failing (text : String) (e : ReadError) : Source := ⟨text.toList.map .ok, some e⟩

/-- The text that bytes stand for in UTF-8. -/
def decode (bytes : List UInt8) : Except ReadError String :=
  match String.fromUTF8? ⟨bytes.toArray⟩ with
  | some text => .ok text
  | none => .error .notUtf8

/-- The lines of given bytes, each with its line end and each decoded on its
    own. -/
def byteLines (bytes : List UInt8) : List (Except ReadError String) :=
  (Text.pieces (· == 10) bytes).map decode

/-- The reads of a line: its characters, or one failed read. -/
def lineReads : Except ReadError String → List (Except ReadError Char)
  | .ok text => text.toList.map .ok
  | .error e => [.error e]

/-- The source of given bytes, read line by line. -/
def ofBytes (bytes : List UInt8) : Source := ⟨(byteLines bytes).flatMap lineReads, none⟩

/-- The characters that can still be read, up to the end or the first fault. -/
def readable (s : Source) : List Char :=
  (s.reads.takeWhile Except.isOk).filterMap Except.toOption

end Source

end TinyLang

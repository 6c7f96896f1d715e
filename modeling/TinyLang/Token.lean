import TinyLang.Kind
import TinyLang.Position
import TinyLang.Text.Escaped
import TinyLang.Text.Numeral

/-!
# Tokens

A token is a kind, the text it was written with if its kind carries one, and
the position of its first character. `Token.spelling` is the text that stands
for a token in a source.
-/

namespace TinyLang

/-- A token of a source. Only names, numbers and truth values have a text of
    their own; the value of every other token is empty. -/
structure Token where
  /-- What the token is. -/
  kind : Kind
  /-- The text of a name, number or truth value. -/
  value : String
  /-- Where the first character of the token stands. -/
  position : Position
  /-- A kind that carries no text has none. -/
  value_eq_empty : kind.hasValue = false → value = ""
deriving DecidableEq

namespace Token

/-- A token with a text, which is dropped if the kind carries none. -/
def of (kind : Kind) (value : String) (position : Position) : Token where
  kind := kind
  value := if kind.hasValue then value else ""
  position := position
  value_eq_empty := by simp +contextual

/-- A token without a text. -/
def bare (kind : Kind) (position : Position) : Token := ⟨kind, "", position, fun _ => rfl⟩

/-- The end of the input. -/
def eof (position : Position) : Token := bare .eof position

instance : Inhabited Token := ⟨eof .start⟩

/-- Whether the token is a number. -/
def isNumber (t : Token) : Bool := t.kind == .num

/-- Whether the token is the end of the input. -/
def isEof (t : Token) : Bool := t.kind == .eof

/-- The number a token stands for, if it is one that fits a word of 64 bits. -/
def number? (t : Token) : Option Nat :=
  if t.isNumber then Text.word64? t.value else none

/-- The text that stands for the token in a source. -/
def spelling (t : Token) : String :=
  if t.kind.hasValue then t.value else t.kind.tag

/-- A token in short: its kind, its text in quotes if it has one, and its
    position. -/
def describe (t : Token) : String :=
  let text := if t.value.isEmpty then "" else "(" ++ Text.quoted t.value ++ ")"
  t.kind.tag ++ text ++ " @ " ++ t.position.render

/-- A token as a line of the token listing. -/
def listing (t : Token) : String :=
  "Position: " ++ t.position.render ++ ", Token Kind: " ++ t.kind.tag ++ ", Value: " ++ t.value

@[simp] theorem kind_bare (k : Kind) (p : Position) : (bare k p).kind = k := rfl

@[simp] theorem isEof_eof (p : Position) : (eof p).isEof = true := rfl

end Token

/-! ## Lists of tokens -/

/-- The tokens of a source, in order. -/
abbrev TokenList := List Token

namespace TokenList

/-- Whether the list ends with the end of the input. -/
def isComplete (ts : TokenList) : Bool := ts.getLast?.any Token.isEof

/-- The kinds of the tokens. -/
def kinds (ts : TokenList) : List Kind := ts.map Token.kind

/-- A list in short: its tokens in short. -/
def describe (ts : TokenList) : String :=
  "TokenList \x7b tokens: [" ++ ", ".intercalate (ts.map Token.describe) ++ "] \x7d"

/-- A place that a list does not have. -/
structure OutOfBounds where
  /-- The length of the list. -/
  length : Nat
  /-- The place that was asked for. -/
  index : Nat
deriving DecidableEq, Repr

/-- What is said about a place that a list does not have. -/
def OutOfBounds.message (e : OutOfBounds) : String :=
  "index out of bounds: the len is " ++ toString e.length ++ " but the index is "
    ++ toString e.index

/-- The token at a place that the list is expected to have. -/
def fetch (ts : TokenList) (i : Nat) : Except OutOfBounds Token :=
  match ts[i]? with
  | some t => .ok t
  | none => .error ⟨ts.length, i⟩

end TokenList

end TinyLang

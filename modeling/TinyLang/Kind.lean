/-!
# Kinds of tokens

Every token of Tiny is of one of thirty-five kinds: names, numbers and the two
truth values, which carry the text they were written with; the reserved words
and the symbols, which are written in one way only; and the end of the input.
The kinds come in a fixed order (`Kind.all`), the order in which a set of kinds
is listed.
-/

namespace TinyLang

/-- The kind of a token. -/
inductive Kind where
  | ident
  | num
  | boolean
  | kwProgram
  | kwIf
  | kwThen
  | kwElse
  | kwWhile
  | kwDo
  | kwPrint
  | kwNot
  | kwOr
  | kwAnd
  | kwBool
  | kwInt
  | kwEnd
  | kwMod
  | colon
  | assign
  | eq
  | ltEq
  | lt
  | gt
  | gtEq
  | notEq
  | plus
  | minus
  | star
  | slash
  | semicolon
  | lparen
  | rparen
  | dot
  | comma
  | eof
deriving DecidableEq, Repr, Inhabited

namespace Kind

/-- All kinds, each once, in order. -/
def all : List Kind :=
  [ident, num, boolean, kwProgram, kwIf, kwThen, kwElse, kwWhile, kwDo, kwPrint, kwNot, kwOr,
    kwAnd, kwBool, kwInt, kwEnd, kwMod, colon, assign, eq, ltEq, lt, gt, gtEq, notEq, plus, minus,
    star, slash, semicolon, lparen, rparen, dot, comma, eof]

/-- The place of a kind in the order of the kinds. -/
def index (k : Kind) : Nat := k.ctorIdx

/-- The kind at a place of the order, if there is one. -/
def ofIndex? (i : Nat) : Option Kind := all[i]?

/-- The tag of a kind: the spelling of a reserved word or symbol, and a word
    that stands for the whole class otherwise. -/
def tag : Kind → String
  | ident => "ID"
  | num => "NUM"
  | boolean => "BooleanLiteral"
  | kwProgram => "program"
  | kwIf => "if"
  | kwThen => "then"
  | kwElse => "else"
  | kwWhile => "while"
  | kwDo => "do"
  | kwPrint => "print"
  | kwNot => "not"
  | kwOr => "or"
  | kwAnd => "and"
  | kwBool => "bool"
  | kwInt => "int"
  | kwEnd => "end"
  | kwMod => "mod"
  | colon => ":"
  | assign => ":="
  | eq => "="
  | ltEq => "=<"
  | lt => "<"
  | gt => ">"
  | gtEq => ">="
  | notEq => "!="
  | plus => "+"
  | minus => "-"
  | star => "*"
  | slash => "/"
  | semicolon => ";"
  | lparen => "("
  | rparen => ")"
  | dot => "."
  | comma => ","
  | eof => "end-of-file"

/-- The name of a kind, a word also where the tag is a symbol. -/
def name : Kind → String
  | ident => "Ident"
  | num => "Num"
  | boolean => "BooleanLiteral"
  | kwProgram => "Program"
  | kwIf => "If"
  | kwThen => "Then"
  | kwElse => "Else"
  | kwWhile => "While"
  | kwDo => "Do"
  | kwPrint => "Print"
  | kwNot => "Not"
  | kwOr => "Or"
  | kwAnd => "And"
  | kwBool => "Bool"
  | kwInt => "Int"
  | kwEnd => "End"
  | kwMod => "Mod"
  | colon => "Colon"
  | assign => "Assign"
  | eq => "Eq"
  | ltEq => "LtEq"
  | lt => "Lt"
  | gt => "Gt"
  | gtEq => "GtEq"
  | notEq => "NotEq"
  | plus => "Plus"
  | minus => "Minus"
  | star => "Star"
  | slash => "Slash"
  | semicolon => "Semicolon"
  | lparen => "LParen"
  | rparen => "RParen"
  | dot => "Dot"
  | comma => "Comma"
  | eof => "Eof"

/-- The kind with a given tag. -/
def ofTag? (s : String) : Option Kind := all.find? fun k => k.tag == s

/-- Whether tokens of the kind carry the text they were written with. -/
def hasValue : Kind → Bool
  | ident | num | boolean => true
  | _ => false

/-- Whether tokens of the kind are written with reserved words. -/
def isKeyword : Kind → Bool
  | boolean | kwProgram | kwIf | kwThen | kwElse | kwWhile | kwDo | kwPrint | kwNot | kwOr
  | kwAnd | kwBool | kwInt | kwEnd | kwMod => true
  | _ => false

/-! ## The order of the kinds -/

/-- Every kind stands in the list at its index. -/
theorem all_getElem?_index (k : Kind) : all[k.index]? = some k := by
  cases k <;> rfl

theorem mem_all (k : Kind) : k ∈ all :=
  List.mem_of_getElem? (all_getElem?_index k)

/-- The list of all kinds goes up through the indices. -/
theorem map_index_all : all.map index = List.range 35 := by
  decide

/-- A kind that is listed before another has a smaller index. -/
theorem pairwise_all : all.Pairwise fun k l => k.index < l.index := by
  rw [← List.pairwise_map, map_index_all]
  exact List.pairwise_lt_range

theorem index_lt (k : Kind) : k.index < 35 := by
  cases k <;> decide

theorem index_injective {k l : Kind} (h : k.index = l.index) : k = l := by
  have hk := all_getElem?_index k
  rw [h, all_getElem?_index l] at hk
  exact (Option.some.inj hk).symm

@[simp]
theorem index_inj {k l : Kind} : k.index = l.index ↔ k = l :=
  ⟨index_injective, fun h => h ▸ rfl⟩

/-- Every index below the number of kinds is that of a kind. -/
theorem exists_index_eq {i : Nat} (h : i < 35) : ∃ k : Kind, k.index = i := by
  have h' : ∀ i : Fin 35, ∃ k ∈ all, k.index = i := by decide
  obtain ⟨k, _, hk⟩ := h' ⟨i, h⟩
  exact ⟨k, hk⟩

end Kind

end TinyLang

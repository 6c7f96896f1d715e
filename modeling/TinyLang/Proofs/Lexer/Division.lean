import Mathlib
import TinyLang.Lexer

/-!
# Divisions of a text

How a text is divided into gaps and lexemes, told apart from any way to scan it. A
gap is blanks and comments (`Gap`). A lexeme is what a token is written with, as long
as it can be (`Longest`), or a fault of one or two characters (`Lexeme`). A text is
divided if it is a gap, a lexeme, a gap and so on, with a gap at its end
(`Divides`). Each lexeme has the position of its first character, which is read off
the text before it (`Position.behind`).
-/

namespace TinyLang

/-! ## Positions -/

namespace Position

/-- The position of the character that comes behind a text. -/
def behind (text : List Char) : Position where
  line := text.count '\n' + 1
  column := (text.reverse.takeWhile (· != '\n')).length + 1

theorem behind_nil : behind [] = start.next := rfl

theorem behind_append {c : Char} (h : c ≠ '\n') (text : List Char) :
    behind (text ++ [c]) = (behind text).next := by
  simp [behind, next, h]

theorem behind_append_newline (text : List Char) :
    behind (text ++ ['\n']) = (behind text).newline.next := by
  simp [behind, next, newline]

end Position

/-! ## Kinds with symbols -/

namespace Kind

/-- Whether tokens of the kind are written with a symbol. -/
def isSymbol (k : Kind) : Bool := !k.hasValue && !k.isKeyword && k != .eof

/-- The character that may not follow a symbol, because a longer one or a comment
    would start. -/
def second? : Kind → Option Char
  | eq => some '<'
  | gt => some '='
  | colon => some '='
  | slash => some '/'
  | _ => none

end Kind

theorem Token.spelling_of (k : Kind) (value : String) (p : Position) :
    (of k value p).spelling = if k.hasValue = true then value else k.tag := by
  by_cases h : k.hasValue = true <;> simp [spelling, of, h]

/-! ## Characters of words -/

namespace Text

/-- Whether a character is a letter or a digit of ASCII, or an underscore. -/
def isInWord (c : Char) : Bool :=
  decide ('A' ≤ c ∧ c ≤ 'Z' ∨ 'a' ≤ c ∧ c ≤ 'z' ∨ '0' ≤ c ∧ c ≤ '9' ∨ c = '_')

theorem isInWord_iff {c : Char} :
    isInWord c = true ↔ c.isAlpha = true ∨ c.isDigit = true ∨ c = '_' := by
  simp [isInWord, Char.isAlpha, Char.isUpper, Char.isLower, Char.isDigit, Char.le_def, or_assoc]

end Text

/-- The characters with which a word goes on are those of words. -/
theorem Scanner.isWordChar_eq_isInWord : Scanner.isWordChar = Text.isInWord := by
  funext c
  rw [Bool.eq_iff_iff, Text.isInWord_iff]
  simp [Scanner.isWordChar, Char.isAlphanum, or_assoc]

/-! ## Reserved words -/

namespace ReservedWord

/-- The reserved words, each with the kind of the tokens that are written with it. -/
def table : List (String × Kind) :=
  [("program", .kwProgram), ("if", .kwIf), ("then", .kwThen), ("else", .kwElse),
    ("while", .kwWhile), ("do", .kwDo), ("print", .kwPrint), ("not", .kwNot), ("or", .kwOr),
    ("and", .kwAnd), ("false", .boolean), ("true", .boolean), ("bool", .kwBool), ("int", .kwInt),
    ("end", .kwEnd), ("mod", .kwMod)]

/-- The words with a kind of their own are those of the table. -/
theorem kind?_eq_some_iff {word : String} {k : Kind} :
    kind? word = some k ↔ (word, k) ∈ table := by
  constructor
  · intro h
    have hall : ∀ word ∈ all, ∀ k ∈ kind? word, (word, k) ∈ table := by decide
    exact hall word (List.contains_iff_mem.1 (isReserved_of_kind? h)) k h
  · intro h
    have htable : ∀ e ∈ table, kind? e.1 = some e.2 := by decide
    exact htable _ h

/-- A word is reserved and has the kind of the table, or it is a name. -/
theorem mem_or_classify (word : String) :
    (word, classify word) ∈ table ∨ isReserved word = false ∧ classify word = .ident := by
  cases h : kind? word with
  | some k =>
    rw [classify, h]
    exact .inl (kind?_eq_some_iff.1 h)
  | none =>
    refine .inr ⟨?_, by rw [classify, h, Option.getD_none]⟩
    rw [← isSome_kind?, h, Option.isSome_none]

/-- A reserved word is the text that stands for its kind. -/
theorem spelling_of_mem {word : String} {k : Kind} (h : (word, k) ∈ table) (p : Position) :
    (Token.of k word p).spelling = word := by
  have htable : ∀ e ∈ table, e.2.hasValue = true ∨ e.2.tag = e.1 := by decide
  rw [Token.spelling_of]
  rcases htable _ h with h | h
  · exact if_pos h
  · rw [show k.tag = word from h, ite_self]

end ReservedWord

namespace Lexer

/-! ## Gaps and lexemes -/

/-- Blanks and comments before `rest`. A comment starts with two slashes and goes on
    up to the end of the line, or of the text. -/
inductive Gap (rest : List Char) : List Char → Prop
  /-- There may be nothing. -/
  | nil : Gap rest []
  /-- A blank. -/
  | blank {c : Char} {gap : List Char} : Text.isBlank c = true → Gap rest gap →
      Gap rest (c :: gap)
  /-- A comment. -/
  | comment {body gap : List Char} : '\n' ∉ body → (∀ c, (gap ++ rest).head? = some c → c = '\n') →
      Gap rest gap → Gap rest ('/' :: '/' :: body ++ gap)

/-- Whether a run of characters that `accept` allows ends before `rest`. -/
def Stops (accept : Char → Bool) (rest : List Char) : Prop :=
  ∀ c, rest.head? = some c → accept c = false

theorem stops_nil (accept : Char → Bool) : Stops accept [] := nofun

theorem stops_dropWhile (accept : Char → Bool) (rest : List Char) :
    Stops accept (rest.dropWhile accept) := by
  intro c hc
  have := List.head?_dropWhile_not accept rest
  rw [hc] at this
  exact this

theorem Gap.append_blanks {rest blanks gap : List Char} (h : Gap rest gap)
    (hblanks : ∀ c ∈ blanks, Text.isBlank c = true) : Gap rest (blanks ++ gap) := by
  induction blanks with
  | nil => exact h
  | cons c blanks ih =>
    exact .blank (hblanks c List.mem_cons_self)
      (ih fun d hd => hblanks d (List.mem_cons_of_mem _ hd))

theorem Gap.append_comment {rest r gap : List Char} (h : Gap rest gap)
    (hr : r.dropWhile (· != '\n') = gap ++ rest) :
    Gap rest ('/' :: '/' :: r.takeWhile (· != '\n') ++ gap) := by
  refine .comment ?_ ?_ h
  · intro hmem
    simpa using List.mem_takeWhile_imp hmem
  · intro c hc
    rw [← hr] at hc
    simpa using stops_dropWhile (· != '\n') r c hc

/-- The kinds of tokens that are written with given characters before `rest`, where
    no more characters could be taken. -/
inductive Longest (rest : List Char) : Kind → List Char → Prop
  /-- A name starts with a letter, and is no reserved word. -/
  | name {c : Char} {w : List Char} : c.isAlpha = true →
      (∀ d ∈ w, Text.isInWord d = true) → ReservedWord.isReserved (.ofList (c :: w)) = false →
      Stops Text.isInWord rest → Longest rest .ident (c :: w)
  /-- A reserved word. -/
  | reserved {k : Kind} {s : List Char} : (String.ofList s, k) ∈ ReservedWord.table →
      Stops Text.isInWord rest → Longest rest k s
  /-- A number is digits. -/
  | number {c : Char} {w : List Char} : c.isDigit = true → (∀ d ∈ w, d.isDigit = true) →
      Stops Char.isDigit rest → Longest rest .num (c :: w)
  /-- A symbol is written in one way. -/
  | symbol {k : Kind} {s : List Char} : k.isSymbol = true → k.tag = .ofList s →
      (∀ c, k.second? = some c → rest.head? ≠ some c) → Longest rest k s

/-- Whether a symbol starts with a character. -/
def startsSymbol (c : Char) : Bool :=
  ['/', '=', '>', ':', '!'].contains c || (Scanner.single? c).isSome

/-- What a token starts with. -/
theorem Longest.start {rest w : List Char} {k : Kind} {c : Char} (h : Longest rest k (c :: w)) :
    c.isAlpha = true ∨ c.isDigit = true ∨ startsSymbol c = true := by
  have hhead : ∀ {word : String}, word = .ofList (c :: w) → word.toList.head? = some c := by
    rintro _ rfl
    rw [String.toList_ofList, List.head?_cons]
  cases h with
  | name hc => exact .inl hc
  | number hc => exact .inr (.inl hc)
  | reserved hk _ =>
    have htable : ∀ e ∈ ReservedWord.table, e.1.toList.head?.all Char.isAlpha = true := by decide
    have := htable _ hk
    rw [hhead rfl] at this
    exact .inl this
  | symbol hk htag _ =>
    have htags : ∀ k ∈ Kind.all, k.isSymbol = true →
        k.tag.toList.head?.all startsSymbol = true := by decide
    have := htags k k.mem_all hk
    rw [hhead htag] at this
    exact .inr (.inr this)

/-- What is given for the characters `s` between `text` and `rest`. -/
inductive Lexeme (text s rest : List Char) : Item → Prop
  /-- A token. -/
  | token {t : Token} : t.spelling = .ofList s → Longest rest t.kind s →
      t.position = .behind text → Lexeme text s rest (.ok t)
  /-- A character that starts no token. -/
  | illegal {c : Char} : s = [c] → Text.isBlank c = false →
      (∀ k w rest', ¬ Longest rest' k (c :: w)) →
      Lexeme text s rest (.error ⟨.behind text, .illegalCharacter c⟩)
  /-- An exclamation mark before a blank or at the end. -/
  | mark : s = ['!'] → (∀ c, rest.head? = some c → Text.isBlank c = true) →
      Lexeme text s rest (.error ⟨.behind text, .illegalCharacter '!'⟩)
  /-- A character in the place of the second half of `!=`. -/
  | half {c : Char} : s = ['!', c] → Text.isBlank c = false → c ≠ '=' →
      Lexeme text s rest (.error ⟨.behind (text ++ ['!']), .illegalCharacter c⟩)

/-- Whether what is given for the characters `s` depends on what comes behind them. A token
    could be longer and an exclamation mark could be half of a symbol, but any other character
    at fault is settled. -/
def Item.Awaits (s : List Char) : Item → Prop
  | .ok _ => True
  | .error _ => s = ['!']

/-- An error among the lexemes is a character at fault. -/
theorem Lexeme.exists_illegalCharacter {text s rest : List Char} {e : LexError}
    (h : Lexeme text s rest (.error e)) : ∃ c, e.fault = .illegalCharacter c := by
  cases h <;> exact ⟨_, rfl⟩

section Token

variable {text rest : List Char}

/-- The longest word is a lexeme. -/
theorem lexeme_word {c : Char} (hc : c.isAlpha = true) {word : String}
    (hword : word = .ofList (c :: rest.takeWhile Text.isInWord)) :
    Lexeme text (c :: rest.takeWhile Text.isInWord) (rest.dropWhile Text.isInWord)
      (.ok (.of (ReservedWord.classify word) word (.behind text))) := by
  have hstops := stops_dropWhile Text.isInWord rest
  rcases ReservedWord.mem_or_classify word with hmem | ⟨hnot, hident⟩
  · refine .token ?_ ?_ rfl
    · rw [ReservedWord.spelling_of_mem hmem, hword]
    · rw [hword] at hmem ⊢
      exact .reserved hmem hstops
  · rw [hident]
    refine .token ?_ ?_ rfl
    · rw [Token.spelling_of, hword]
      rfl
    · rw [hword] at hnot
      exact .name hc (fun d hd => List.mem_takeWhile_imp hd) hnot hstops

/-- The longest number is a lexeme. -/
theorem lexeme_number {c : Char} (hc : c.isDigit = true) {digits : String}
    (hdigits : digits = .ofList (c :: rest.takeWhile Char.isDigit)) :
    Lexeme text (c :: rest.takeWhile Char.isDigit) (rest.dropWhile Char.isDigit)
      (.ok (.of .num digits (.behind text))) := by
  refine .token ?_ ?_ rfl
  · rw [Token.spelling_of, hdigits]
    rfl
  · exact .number hc (fun d hd => List.mem_takeWhile_imp hd) (stops_dropWhile _ rest)

theorem lexeme_symbol {k : Kind} {s : List Char} (hk : k.isSymbol = true) (htag : k.tag = .ofList s)
    (hrest : ∀ c, k.second? = some c → rest.head? ≠ some c) :
    Lexeme text s rest (.ok (.bare k (.behind text))) := by
  refine .token ?_ (.symbol hk htag hrest) rfl
  have hvalue : k.hasValue = false := by
    simp only [Kind.isSymbol, Bool.and_eq_true, Bool.not_eq_true'] at hk
    exact hk.1.1
  rw [← htag]
  exact if_neg (by simp [hvalue])

end Token

/-- The items of `rest` behind `text`, with a gap before each and one at the end. -/
inductive Divides : List Char → List Char → List Item → Prop
  /-- Only a gap is left. -/
  | done {text gap : List Char} : Gap [] gap → Divides text gap []
  /-- A gap and a lexeme come first. -/
  | item {text gap s rest : List Char} {i : Item} {is : List Item} : Gap (s ++ rest) gap →
      Lexeme (text ++ gap) s rest i → Divides (text ++ gap ++ s) rest is →
      Divides text (gap ++ (s ++ rest)) (i :: is)

/-! ## No lexeme is the end of the input -/

section Eof

variable {text rest : List Char}

theorem Longest.ne_eof {k : Kind} {s : List Char} (h : Longest rest k s) : k ≠ .eof := by
  have htable : ∀ e ∈ ReservedWord.table, e.2 ≠ .eof := by decide
  cases h with
  | name | number => nofun
  | reserved hk => exact htable _ hk
  | symbol hk =>
    rintro rfl
    cases hk

theorem Lexeme.isEof_eq_false {s : List Char} {t : Token} (h : Lexeme text s rest (.ok t)) :
    t.isEof = false := by
  cases h with
  | token _ hk _ => simpa [Token.isEof] using hk.ne_eof

theorem Divides.isEof_eq_false {is : List Item} (h : Divides text rest is) {t : Token}
    (ht : .ok t ∈ is) : t.isEof = false := by
  induction h with
  | done => cases ht
  | item _ hi _ ih =>
    rcases List.mem_cons.1 ht with rfl | ht
    · exact hi.isEof_eq_false
    · exact ih ht

end Eof

end Lexer

end TinyLang

import TinyLang.Proofs.Lexer.Comments
import TinyLang.Proofs.Lexer.Legality
import TinyLang.Proofs.Lexer.Order

/-!
# Printing tokens

Tokens are printed with a space between each two (`TokenList.printed`). A token is
well-formed if its value is one that tokens of its kind can have (`Token.isWellFormed`). All
tokens of a text are (`Lexer.Lexeme.isWellFormed`), and a well-formed token is a lexeme
wherever it is printed (`Lexer.lexeme_movedTo`). So a printed text is divided into the tokens
it was printed from, each at its place (`Lexer.divides_printed`), and lexing is the inverse
of printing (`lex_printed`).
-/

namespace TinyLang

namespace Token

/-- Whether the value of a token is one that tokens of its kind can have. -/
def isWellFormed (t : Token) : Bool :=
  match t.kind with
  | .ident => t.value.toList.head?.any Char.isAlpha && t.value.toList.all Text.isInWord &&
      !ReservedWord.isReserved t.value
  | .num => !t.value.isEmpty && t.value.toList.all Char.isDigit
  | .boolean => t.value == "true" || t.value == "false"
  | _ => t.value.isEmpty

/-- The token in another place. -/
def movedTo (t : Token) (p : Position) : Token := { t with position := p }

variable {t : Token}

theorem isWellFormed_of_hasValue_eq_false (h : t.kind.hasValue = false) :
    t.isWellFormed = true := by
  obtain ⟨kind, value, position, hvalue⟩ := t
  obtain rfl := hvalue h
  cases kind with
  | ident | num | boolean => cases h
  | _ => rfl

end Token

/-! ## Printed tokens -/

namespace TokenList

/-- The text of the tokens, with a space between each two. -/
def printed (ts : TokenList) : String := " ".intercalate (ts.map Token.spelling)

/-- What stands before the token with the index `i` in the text of the tokens. -/
def printedBefore (ts : TokenList) (i : Nat) : String :=
  String.join ((ts.take i).map fun t => t.spelling ++ " ")

/-- The tokens where they stand in their text, which is one line. -/
def placed (ts : TokenList) : TokenList :=
  ts.mapIdx fun i t => t.movedTo ⟨1, (ts.printedBefore i).length + 1⟩

variable {t : Token} {ts : TokenList}

@[simp]
theorem printedBefore_zero (ts : TokenList) : ts.printedBefore 0 = "" := by
  simp [printedBefore]

@[simp]
theorem printedBefore_cons_succ (t : Token) (ts : TokenList) (i : Nat) :
    printedBefore (t :: ts) (i + 1) = t.spelling ++ " " ++ ts.printedBefore i := by
  simp [printedBefore]

theorem content_placed (ts : TokenList) :
    ts.placed.map Token.content = ts.map Token.content := by
  refine List.ext_getElem? fun i => ?_
  rw [placed, List.getElem?_map, List.getElem?_map, List.getElem?_mapIdx, Option.map_map]
  rfl

end TokenList

/-- Behind a text without line ends the first line goes on. -/
theorem Position.behind_of_notMem {text : List Char} (h : '\n' ∉ text) :
    behind text = ⟨1, text.length + 1⟩ := by
  have hall : ∀ c ∈ text.reverse, (c != '\n') = true := by
    intro c hc
    simpa using ne_of_mem_of_not_mem (List.mem_reverse.1 hc) h
  rw [behind, List.count_eq_zero_of_not_mem h, List.takeWhile_eq_self_iff.2 hall,
    List.length_reverse]

/-! ## Well-formed tokens are lexemes -/

namespace Lexer

variable {text rest s : List Char} {i : Item} {is : List Item} {t : Token}

/-- The tag of a kind without values is a reserved word or a symbol. -/
theorem longest_tag {k : Kind} (hk : k.hasValue = false) (heof : k ≠ .eof) :
    Longest [] k k.tag.toList := by
  have hkinds : ∀ k ∈ Kind.all, k.hasValue = false → k ≠ .eof →
      (k.tag, k) ∈ ReservedWord.table ∨ k.isSymbol = true := by decide
  rcases hkinds k k.mem_all hk heof with h | h
  · exact .reserved (by rwa [String.ofList_toList]) (stops_nil _)
  · exact .symbol h String.ofList_toList.symm nofun

/-- A well-formed token is the longest one that its spelling starts with. -/
theorem longest_spelling (h : t.isWellFormed = true) (heof : t.isEof = false) :
    Longest [] t.kind t.spelling.toList := by
  obtain ⟨kind, value, position, hvalue⟩ := t
  cases hk : kind.hasValue with
  | false =>
    rw [Token.spelling, if_neg (by simp [hk])]
    exact longest_tag hk (by simpa [Token.isEof] using heof)
  | true =>
    rw [Token.spelling, if_pos hk]
    dsimp only
    cases kind with
    | ident =>
      simp only [Token.isWellFormed, Bool.and_eq_true, Bool.not_eq_true'] at h
      obtain ⟨⟨hhead, hword⟩, hreserved⟩ := h
      rw [← String.ofList_toList (s := value)] at hreserved
      generalize value.toList = w at *
      cases w with
      | nil => cases hhead
      | cons c w =>
        exact .name hhead (fun d hd => List.all_eq_true.1 hword d (List.mem_cons_of_mem _ hd))
          hreserved (stops_nil _)
    | num =>
      simp only [Token.isWellFormed, Bool.and_eq_true, Bool.not_eq_true'] at h
      obtain ⟨hne, hdigits⟩ := h
      cases hw : value.toList with
      | nil =>
        obtain rfl := String.toList_eq_nil_iff.1 hw
        cases hne
      | cons c w =>
        rw [hw] at hdigits
        obtain ⟨hc, hw⟩ := List.forall_mem_cons.1 (List.all_eq_true.1 hdigits)
        exact .number hc hw (stops_nil _)
    | boolean =>
      simp only [Token.isWellFormed, Bool.or_eq_true, beq_iff_eq] at h
      rcases h with rfl | rfl
      · exact .reserved (by decide) (stops_nil _)
      · exact .reserved (by decide) (stops_nil _)
    | _ => cases hk

/-- A well-formed token is a lexeme at the end of a text. -/
theorem lexeme_movedTo (h : t.isWellFormed = true) (heof : t.isEof = false) (text : List Char) :
    Lexeme text t.spelling.toList [] (.ok (t.movedTo (.behind text))) :=
  .token (String.ofList_toList.symm) (longest_spelling h heof) rfl

/-! ## Lexemes are well-formed tokens -/

theorem Lexeme.isWellFormed (h : Lexeme text s rest (.ok t)) : t.isWellFormed = true := by
  obtain ⟨kind, value, position, hvalue⟩ := t
  cases h with
  | token hspelling hk hposition =>
    dsimp only at hk
    rw [Token.spelling] at hspelling
    cases hk with
    | @name c w hc hw hreserved _ =>
      have hw : (c :: w).all Text.isInWord = true :=
        List.all_eq_true.2 (List.forall_mem_cons.2 ⟨isInWord_of_isAlpha hc, hw⟩)
      obtain rfl : value = .ofList (c :: w) := hspelling
      rw [Token.isWellFormed]
      dsimp only
      rw [String.toList_ofList, List.head?_cons, Option.any_some, hc, hw, hreserved]
      rfl
    | reserved hmem _ =>
      have htable : ∀ e ∈ ReservedWord.table,
          e.2.hasValue = false ∨ e.2 = .boolean ∧ (e.1 == "true" || e.1 == "false") = true := by
        decide
      rcases htable _ hmem with hk | ⟨hk, hword⟩
      · exact Token.isWellFormed_of_hasValue_eq_false hk
      · obtain rfl : kind = .boolean := hk
        obtain rfl : value = .ofList s := hspelling
        exact hword
    | @number c w hc hw _ =>
      have hw : (c :: w).all Char.isDigit = true :=
        List.all_eq_true.2 (List.forall_mem_cons.2 ⟨hc, hw⟩)
      obtain rfl : value = .ofList (c :: w) := hspelling
      simp [Token.isWellFormed, hw]
    | symbol hsymbol _ _ =>
      refine Token.isWellFormed_of_hasValue_eq_false ?_
      simp only [Kind.isSymbol, Bool.and_eq_true, Bool.not_eq_true'] at hsymbol
      exact hsymbol.1.1

theorem Divides.isWellFormed (h : Divides text rest is) (ht : .ok t ∈ is) :
    t.isWellFormed = true := by
  induction h with
  | done => cases ht
  | item _ hi _ ih =>
    rcases List.mem_cons.1 ht with rfl | ht
    · exact hi.isWellFormed
    · exact ih ht

/-- The tokens of a text are well-formed, whatever is made of its errors. -/
theorem isWellFormed_of_mem_tokens {mode : Mode} {text : String}
    (h : t ∈ (Lexing.ofSource mode (.ofText text)).tokens) : t.isWellFormed = true := by
  obtain ⟨is, hdivides⟩ := exists_divides text
  have hmem := mem_collect (mem_filterMap_token?_iff.1 h)
  rw [collect_of_divides hdivides] at hmem
  rcases List.mem_append.1 hmem with hmem | hmem
  · exact hdivides.isWellFormed hmem
  · obtain rfl := Except.ok.inj (List.mem_singleton.1 hmem)
    rfl

/-! ## The division of a printed text -/

theorem Divides.cons_lexeme (h : Divides (text ++ s) rest is) (hi : Lexeme text s rest i) :
    Divides text (s ++ rest) (i :: is) := by
  have hnil := List.append_nil text
  exact .item .nil (by rwa [hnil]) (by rwa [hnil])

/-- The text of well-formed tokens is divided into them. -/
theorem divides_printed {ts : TokenList}
    (h : ∀ t ∈ ts, t.isWellFormed = true ∧ t.isEof = false) (text : List Char) :
    Divides text ts.printed.toList
      ((ts.mapIdx fun i t => t.movedTo (.behind (text ++ (ts.printedBefore i).toList))).map
        .ok) := by
  induction ts generalizing text with
  | nil => exact .done .nil
  | cons t ts ih =>
    obtain ⟨⟨ht, heof⟩, hts⟩ := List.forall_mem_cons.1 h
    have hlexeme := lexeme_movedTo ht heof text
    rw [List.mapIdx_cons, List.map_cons, TokenList.printedBefore_zero, String.toList_empty,
      List.append_nil]
    cases ts with
    | nil =>
      have hprinted : TokenList.printed [t] = t.spelling := String.intercalate_singleton
      have : Divides text (t.spelling.toList ++ []) _ := .cons_lexeme (.done .nil) hlexeme
      rwa [List.append_nil, ← hprinted] at this
    | cons u ts =>
      have hprinted : (TokenList.printed (t :: u :: ts)).toList =
          t.spelling.toList ++ ' ' :: (TokenList.printed (u :: ts)).toList := by
        simp [TokenList.printed]
      -- the space is the gap before the first of the other tokens
      have hspace : Gap (TokenList.printed (u :: ts)).toList [' '] := .blank (by decide) .nil
      have hothers := (ih hts (text ++ t.spelling.toList ++ [' '])).prepend_gap hspace
      rw [hprinted]
      refine .cons_lexeme ?_ (hlexeme.append_cons (fun _ => ends_of_isBlank (by decide) _) _)
      simpa using hothers

/-- The text of well-formed tokens is one line. -/
theorem behind_printedBefore {ts : TokenList}
    (h : ∀ t ∈ ts, t.isWellFormed = true ∧ t.isEof = false) (i : Nat) :
    Position.behind (ts.printedBefore i).toList = ⟨1, (ts.printedBefore i).length + 1⟩ := by
  have hline : '\n' ∉ (ts.printedBefore i).toList := by
    intro hmem
    rw [TokenList.printedBefore, String.toList_join, List.flatMap_map, List.mem_flatMap] at hmem
    obtain ⟨t, ht, hmem⟩ := hmem
    obtain ⟨hwf, heof⟩ := h t (List.mem_of_mem_take ht)
    rw [String.toList_append, List.mem_append] at hmem
    rcases hmem with hmem | hmem
    · exact (longest_spelling hwf heof).ne_newline _ hmem rfl
    · cases List.mem_singleton.1 hmem
  rw [Position.behind_of_notMem hline, String.length_toList]

end Lexer

/-! ## Printing and lexing -/

theorem Lexing.result_map_ok (ts : TokenList) : (ofItems (ts.map .ok)).result = .ok ts := by
  induction ts with
  | nil => rfl
  | cons t ts ih =>
    rw [List.map_cons, result_cons_ok, ih]
    rfl

/-- The tokens of a printed text are those that it was printed from, and the end of the
    input. -/
theorem lex_printed_eq_placed {ts : TokenList}
    (h : ∀ t ∈ ts, t.isWellFormed = true ∧ t.isEof = false) :
    lex ts.printed = .ok (ts.placed ++ [.eof (.behind ts.printed.toList)]) := by
  have hdivides := Lexer.divides_printed h []
  simp only [List.nil_append, Lexer.behind_printedBefore h] at hdivides
  rw [Lexing.lex_eq_result, Lexer.collect_of_divides hdivides, Lexing.result_append,
    Lexing.result_map_ok]
  rfl

/-- Lexing is the inverse of printing: of well-formed tokens other than the end of the input,
    each is given back where it was printed, and then the end of the input. All tokens of a
    text are well-formed, whether or not errors are passed over; so the tokens of a text, if
    there are any, can be printed, but for the end of the input behind them, and are given
    back with their kinds and values. -/
theorem lex_printed :
    (∀ ts : TokenList, (∀ t ∈ ts, t.isWellFormed = true ∧ t.isEof = false) →
      lex ts.printed = .ok (ts.placed ++ [.eof (.behind ts.printed.toList)])) ∧
    ∀ text : String,
      (∀ ts, lex text = .ok ts → ∀ t ∈ ts, t.isWellFormed = true) ∧
      (∀ mode, ∀ t ∈ (Lexing.ofSource mode (.ofText text)).tokens, t.isWellFormed = true) ∧
      ∀ ts, lex text = .ok ts → ∃ (us vs : TokenList) (p : Position), ts = us ++ [.eof p] ∧
        (∀ t ∈ us, t.isEof = false) ∧ lex us.printed = .ok vs ∧
        vs.map Token.content = ts.map Token.content := by
  refine ⟨fun ts => lex_printed_eq_placed, fun text => ⟨fun ts hts t ht => ?_,
    fun mode t => Lexer.isWellFormed_of_mem_tokens, fun ts hts => ?_⟩⟩
  · have htokens := (Lexing.result_eq_ok_iff.1 hts).2
    rw [← htokens] at ht
    exact Lexer.isWellFormed_of_mem_tokens ht
  · obtain ⟨is, hdivides, rfl⟩ := exists_divides_of_lex_eq_ok hts
    have hwf : ∀ t ∈ is.filterMap Lexer.Item.token?, t.isWellFormed = true ∧ t.isEof = false := by
      intro t ht
      have hmem := Lexer.mem_filterMap_token?_iff.1 ht
      exact ⟨hdivides.isWellFormed hmem, hdivides.isEof_eq_false hmem⟩
    refine ⟨is.filterMap Lexer.Item.token?, _, .behind text.toList, rfl,
      fun t ht => (hwf t ht).2, lex_printed_eq_placed hwf, ?_⟩
    rw [List.map_append, List.map_append, TokenList.content_placed]
    rfl

/-- An assignment, with tokens of every sort. -/
def TokenList.assignment : TokenList :=
  [.of .ident "x1" ⟨1, 1⟩, .bare .assign ⟨1, 3⟩, .of .num "042" ⟨1, 5⟩, .bare .ltEq ⟨1, 8⟩,
    .of .boolean "true" ⟨1, 10⟩, .bare .kwMod ⟨1, 15⟩]

/-- A text without spaces is printed with spaces, and its tokens are given back. -/
theorem lex_printed_assignment :
    lex "x1:=042=<true mod" = .ok (TokenList.assignment ++ [.eof ⟨1, 18⟩]) ∧
      (∀ t ∈ TokenList.assignment, t.isWellFormed = true ∧ t.isEof = false) ∧
      TokenList.assignment.printed = "x1 := 042 =< true mod" ∧
      lex "x1 := 042 =< true mod" = .ok [.of .ident "x1" ⟨1, 1⟩, .bare .assign ⟨1, 4⟩,
        .of .num "042" ⟨1, 7⟩, .bare .ltEq ⟨1, 11⟩, .of .boolean "true" ⟨1, 14⟩,
        .bare .kwMod ⟨1, 19⟩, .eof ⟨1, 22⟩] ∧
      (∀ t ∈ TokenList.assignment ++ [.eof ⟨1, 18⟩], t.isWellFormed = true) := by
  have hlex : lex "x1:=042=<true mod" = .ok (TokenList.assignment ++ [.eof ⟨1, 18⟩]) := by
    decide +kernel
  have hwf : ∀ t ∈ TokenList.assignment, t.isWellFormed = true ∧ t.isEof = false := by decide
  have hprinted : TokenList.assignment.printed = "x1 := 042 =< true mod" := by decide +kernel
  have hplaced := lex_printed.1 TokenList.assignment hwf
  rw [hprinted] at hplaced
  refine ⟨hlex, hwf, hprinted, ?_, (lex_printed.2 "x1:=042=<true mod").1 _ hlex⟩
  rw [hplaced]
  decide +kernel

end TinyLang

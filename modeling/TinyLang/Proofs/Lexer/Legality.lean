import TinyLang.Proofs.Lexer.Uniqueness

/-!
# What can be lexed

Which texts have tokens only, told by their characters alone. The code of a line is what
stands before its first two slashes (`Lexer.code`), and each character of it has to be
legal where it stands (`Lexer.Legal`): blanks, letters, digits and symbols always are, an
underscore behind a letter of its word, an exclamation mark before `=`.

Lexing succeeds if and only if the code of every line has legal characters only, and
else fails at the first character that is not legal (`lex_ok_iff_legal`). The proof goes
along a division of the text. Gaps and tokens have no offending character in them, and a
lexeme that is a fault starts with one, as long as it stands in the code of its line and
no word goes on across its start (`Lexer.Ready`).
-/

namespace TinyLang

namespace Lexer

/-! ## Legal characters -/

/-- What stands on a line before its first two slashes. -/
def code : List Char → List Char
  | [] => []
  | c :: line => if c = '/' ∧ line.head? = some '/' then [] else c :: code line

/-- The characters that are symbols or parts of symbols wherever they stand. -/
def symbols : List Char :=
  [':', '=', '<', '>', '+', '-', '*', '/', ';', '(', ')', '.', ',']

/-- Whether the character `c` may stand in the code of a line, between `before` and
    `after`. An underscore needs a letter before it in its run of letters, digits and
    underscores. -/
def Legal (before : List Char) (c : Char) (after : List Char) : Prop :=
  Text.isBlank c = true ∨ c.isAlpha = true ∨ c.isDigit = true ∨ c ∈ symbols ∨
    c = '_' ∧ (∃ d ∈ before.reverse.takeWhile Text.isInWord, d.isAlpha = true) ∨
    c = '!' ∧ after.head? = some '='

/-- Whether all characters in the code of a line are legal. -/
def LegalLine (line : List Char) : Prop :=
  ∀ before c after, code line = before ++ c :: after → Legal before c after

/-- What stands behind the last line end of a text. -/
def lastLine (text : List Char) : List Char := (text.reverse.takeWhile (· != '\n')).reverse

/-- What stands before the first line end of a text. -/
def firstLine (text : List Char) : List Char := text.takeWhile (· != '\n')

/-- Whether the character `c`, between `before` and `after` in a text, stands in the code
    of its line and is not legal there. -/
def Offends (before : List Char) (c : Char) (after : List Char) : Prop :=
  ∃ rest, code (lastLine before ++ c :: firstLine after) = lastLine before ++ c :: rest ∧
    ¬ Legal (lastLine before) c rest

/-- The error for an offending character, which is what is illegal; but behind an
    exclamation mark the next character is, if there is one that is no blank. -/
def fault (before : List Char) (c : Char) (after : List Char) : LexError :=
  match after.head?.filter fun d => c == '!' && !Text.isBlank d with
  | some d => ⟨.behind (before ++ [c]), .illegalCharacter d⟩
  | none => ⟨.behind before, .illegalCharacter c⟩

/-- No character of `s` offends, between `text` and `rest`. -/
def Clean (text s rest : List Char) : Prop :=
  ∀ before c after, s = before ++ c :: after → ¬ Offends (text ++ before) c (after ++ rest)

/-- The character `c` between `before` and `after` is the first of a text to offend. -/
structure FirstOffence (text before : List Char) (c : Char) (after : List Char) : Prop where
  text : text = before ++ c :: after
  offends : Offends before c after
  first : Clean [] before (c :: after)

variable {text rest before after s gap line : List Char} {c d : Char}

/-! ## The code of a line -/

theorem code_cons_of_ne (hc : ¬ (c = '/' ∧ line.head? = some '/')) :
    code (c :: line) = c :: code line :=
  if_neg hc

theorem code_isPrefix (line : List Char) : code line <+: line := by
  induction line with
  | nil => exact List.prefix_rfl
  | cons c line ih =>
    rw [code]
    split
    · exact List.nil_prefix
    · exact (List.prefix_cons_inj c).2 ih

/-- There are no two slashes in the code of a line. -/
theorem code_ne_append_slashes (line before after : List Char) :
    code line ≠ before ++ '/' :: '/' :: after := by
  induction line generalizing before with
  | nil => simp [code]
  | cons c line ih =>
    rw [code]
    split
    · simp
    · next hc =>
      intro h
      cases before with
      | nil =>
        obtain ⟨rfl, hline⟩ := List.cons.inj h
        obtain ⟨t, ht⟩ := code_isPrefix line
        rw [hline] at ht
        exact hc ⟨rfl, by rw [← ht]; rfl⟩
      | cons b before => exact ih before (List.cons.inj h).2

/-- The code of a line goes on with any character but a slash. -/
theorem head?_of_code (hd : d ≠ '/')
    (h : code (before ++ c :: d :: line) = before ++ c :: rest) : rest.head? = some d := by
  induction before with
  | nil =>
    rw [List.nil_append, List.nil_append, code_cons_of_ne (by simp [hd]),
      code_cons_of_ne (by simp [hd])] at h
    rw [← (List.cons.inj h).2]
    rfl
  | cons b before ih =>
    rw [List.cons_append, List.cons_append, code] at h
    split at h
    · cases h
    · exact ih (List.cons.inj h).2

/-! ## Lines of a text -/

theorem lastLine_append_newline (text : List Char) : lastLine (text ++ ['\n']) = [] := by
  simp [lastLine]

theorem lastLine_append (hs : '\n' ∉ s) (text : List Char) :
    lastLine (text ++ s) = lastLine text ++ s := by
  have hs' : ∀ c ∈ s.reverse, (c != '\n') = true := by
    intro c hc
    simpa using ne_of_mem_of_not_mem (List.mem_reverse.1 hc) hs
  rw [lastLine, List.reverse_append, List.takeWhile_append_of_pos hs', List.reverse_append,
    List.reverse_reverse]
  rfl

theorem firstLine_cons (hc : c ≠ '\n') (text : List Char) :
    firstLine (c :: text) = c :: firstLine text :=
  List.takeWhile_cons_of_pos (by simpa using hc)

theorem head?_firstLine_of_ne (hc : c ≠ '\n') :
    (firstLine text).head? = some c ↔ text.head? = some c := by
  cases text with
  | nil => rfl
  | cons b text =>
    by_cases hb : b = '\n'
    · subst hb
      simp [firstLine, Ne.symm hc]
    · rw [firstLine_cons hb]
      rfl

/-- The run of word characters at the end of a text is that of its last line. -/
theorem takeWhile_reverse_lastLine (text : List Char) :
    (lastLine text).reverse.takeWhile Text.isInWord =
      text.reverse.takeWhile Text.isInWord := by
  rw [lastLine, List.reverse_reverse, List.takeWhile_takeWhile]
  congr 1
  funext c
  by_cases hc : c = '\n'
  · subst hc
    rfl
  · simp [hc]

/-! ## Characters that do not offend -/

theorem not_offends_of_legal (h : ∀ r, Legal (lastLine before) c r) : ¬ Offends before c after :=
  fun ⟨r, _, hillegal⟩ => hillegal (h r)

theorem not_offends_of_mem_symbols (hc : c ∈ symbols) : ¬ Offends before c after :=
  not_offends_of_legal fun _ => .inr (.inr (.inr (.inl hc)))

theorem not_offends_of_isBlank (hc : Text.isBlank c = true) : ¬ Offends before c after :=
  not_offends_of_legal fun _ => .inl hc

/-- Letters and digits do not offend, and an underscore does not behind a letter of its
    word. -/
theorem not_offends_of_isInWord (hc : Text.isInWord c = true)
    (hunderscore : c = '_' →
      ∃ d ∈ before.reverse.takeWhile Text.isInWord, d.isAlpha = true) :
    ¬ Offends before c after := by
  refine not_offends_of_legal fun r => ?_
  rw [Text.isInWord_iff] at hc
  rcases hc with hc | hc | hc
  · exact .inr (.inl hc)
  · exact .inr (.inr (.inl hc))
  · refine .inr (.inr (.inr (.inr (.inl ⟨hc, ?_⟩))))
    rw [takeWhile_reverse_lastLine]
    exact hunderscore hc

/-- The first half of `!=` does not offend. -/
theorem not_offends_notEqual : ¬ Offends before '!' ('=' :: after) := by
  rintro ⟨r, hcode, hillegal⟩
  rw [firstLine_cons (by decide)] at hcode
  exact hillegal (.inr (.inr (.inr (.inr (.inr ⟨rfl, head?_of_code (by decide) hcode⟩)))))

/-- What is in a comment does not offend. -/
theorem not_offends_of_comment {body : List Char} (hbody : '\n' ∉ body) :
    ¬ Offends (text ++ '/' :: '/' :: body) c after := by
  rintro ⟨r, hcode, -⟩
  rw [lastLine_append (by simp [hbody]), List.append_assoc, List.append_assoc] at hcode
  exact code_ne_append_slashes _ _ _ hcode

/-! ## Clean parts -/

theorem clean_nil : Clean text [] rest := by
  intro before c after h
  simp at h

theorem clean_cons : Clean text (c :: s) rest ↔
    ¬ Offends text c (s ++ rest) ∧ Clean (text ++ [c]) s rest := by
  refine ⟨fun h => ⟨?_, ?_⟩, fun ⟨hc, h⟩ => ?_⟩
  · have := h [] c s rfl
    rwa [List.append_nil] at this
  · rintro before d after rfl
    have := h (c :: before) d after rfl
    rwa [List.append_assoc]
  · intro before d after heq
    cases before with
    | nil =>
      obtain ⟨rfl, rfl⟩ := List.cons.inj heq
      rwa [List.append_nil]
    | cons b before =>
      obtain ⟨rfl, hs⟩ := List.cons.inj heq
      have := h before d after hs
      rwa [List.append_assoc] at this

theorem clean_append : Clean text (s ++ gap) rest ↔
    Clean text s (gap ++ rest) ∧ Clean (text ++ s) gap rest := by
  induction s generalizing text with
  | nil => simp [clean_nil]
  | cons c s ih => simp [clean_cons, ih, and_assoc]

/-! ## Gaps and tokens are clean -/

theorem clean_gap (h : Gap rest gap) : Clean text gap rest := by
  induction h generalizing text with
  | nil => exact clean_nil
  | blank hc _ ih => exact clean_cons.2 ⟨not_offends_of_isBlank hc, ih⟩
  | @comment body gap hbody _ _ ih =>
    refine clean_append.2 ⟨?_, ih⟩
    rw [clean_cons, clean_cons, List.append_assoc]
    refine ⟨not_offends_of_mem_symbols (by decide), not_offends_of_mem_symbols (by decide), ?_⟩
    rintro before c after rfl
    rw [List.append_assoc]
    exact not_offends_of_comment fun h => hbody (List.mem_append_left _ h)

/-- A word that starts with a letter is clean, and so is one without underscores. -/
theorem clean_word (hs : ∀ c ∈ s, Text.isInWord c = true)
    (hletter : '_' ∈ s → s.head?.any Char.isAlpha = true) : Clean text s rest := by
  rintro before c after rfl
  refine not_offends_of_isInWord (hs c (by simp)) ?_
  rintro rfl
  have hletter := hletter (by simp)
  cases before with
  | nil => cases hletter
  | cons b before =>
    -- the letter at the start of the word is in the run before the underscore
    have hrun : ∀ d ∈ (b :: before).reverse, Text.isInWord d = true := by
      intro d hd
      exact hs d (List.mem_append_left _ (List.mem_reverse.1 hd))
    rw [List.reverse_append, List.takeWhile_append_of_pos hrun]
    exact ⟨b, by simp, hletter⟩

/-- The characters of a symbol are symbols themselves, but for `!=`. -/
theorem mem_symbols_of_tag {k : Kind} (hk : k.isSymbol = true) (htag : k.tag = .ofList s) :
    (∀ c ∈ s, c ∈ symbols) ∨ s = ['!', '='] := by
  have htags : ∀ k ∈ Kind.all, k.isSymbol = true →
      k.tag.toList.all (symbols.contains ·) = true ∨ k.tag.toList = ['!', '='] := by
    decide +kernel
  rcases htags k k.mem_all hk with h | h
  · rw [htag, String.toList_ofList, List.all_eq_true] at h
    exact .inl fun c hc => by simpa using h c hc
  · rw [htag, String.toList_ofList] at h
    exact .inr h

theorem clean_of_longest {k : Kind} (h : Longest rest k s) : Clean text s rest := by
  obtain ⟨c, w, rfl, hcases⟩ := h.cases
  rcases hcases with ⟨hc, hw, -⟩ | ⟨-, hw, -⟩ | ⟨-, hk, htag, -⟩
  · exact clean_word hw fun _ => hc
  · exact clean_word (fun d hd => isInWord_of_isDigit (hw d hd))
      fun hmem => absurd (hw '_' hmem) (by decide)
  · rcases mem_symbols_of_tag hk htag with hs | hs
    · intro before d after heq
      exact not_offends_of_mem_symbols (hs d (by simp [heq]))
    · rw [hs, clean_cons, clean_cons]
      exact ⟨not_offends_notEqual, not_offends_of_mem_symbols (by decide), clean_nil⟩

/-! ## Where a lexeme may start -/

/-- Whether no comment that starts in `text` goes on in `rest`. -/
def InCode (text rest : List Char) : Prop :=
  code (lastLine text ++ firstLine rest) = lastLine text ++ code (firstLine rest)

/-- The next lexeme of a text may start between `text` and `rest`: if the line goes on, it
    does in its code, and if a word goes on, it has no letters so far. -/
structure Ready (text rest : List Char) : Prop where
  inCode : ∀ c, rest.head? = some c → c ≠ '\n' → InCode text rest
  word : ∀ c, rest.head? = some c → Text.isInWord c = true →
    ∀ d ∈ text.reverse.takeWhile Text.isInWord, d.isAlpha = false

theorem ready_nil (rest : List Char) : Ready [] rest := ⟨fun _ _ _ => rfl, nofun⟩

theorem ready_of_line_ends (h : ∀ c, rest.head? = some c → c = '\n') : Ready text rest := by
  refine ⟨fun c hc hne => absurd (h c hc) hne, fun c hc hword => ?_⟩
  obtain rfl := h c hc
  cases hword

theorem InCode.code_cons (h : InCode text (c :: rest)) (hc : c ≠ '\n')
    (hslash : ¬ (c = '/' ∧ rest.head? = some '/')) :
    code (lastLine text ++ c :: firstLine rest) = lastLine text ++ c :: code (firstLine rest) := by
  rw [InCode, firstLine_cons hc, code_cons_of_ne] at h
  · exact h
  · rwa [head?_firstLine_of_ne (by decide)]

theorem InCode.cons (h : InCode text (c :: rest)) (hc : c ≠ '\n')
    (hslash : ¬ (c = '/' ∧ rest.head? = some '/')) : InCode (text ++ [c]) rest := by
  rw [InCode, lastLine_append (by simpa using hc.symm), List.append_assoc, List.append_assoc]
  exact h.code_cons hc hslash

theorem InCode.append (h : InCode text (s ++ rest)) (hs : ∀ c ∈ s, c ≠ '\n' ∧ c ≠ '/') :
    InCode (text ++ s) rest := by
  induction s generalizing text with
  | nil => rwa [List.append_nil]
  | cons c s ih =>
    obtain ⟨⟨hc, hslash⟩, hs⟩ := List.forall_mem_cons.1 hs
    have := ih (h.cons hc fun h => hslash h.1) hs
    rwa [List.append_assoc] at this

theorem Ready.of_blank (h : Ready text (c :: rest)) (hc : Text.isBlank c = true) :
    Ready (text ++ [c]) rest := by
  refine ⟨fun d hd hne => ?_, fun d hd hword e he => ?_⟩
  · by_cases hline : c = '\n'
    · subst hline
      rw [InCode, lastLine_append_newline]
      rfl
    · refine (h.inCode c rfl hline).cons hline ?_
      rintro ⟨rfl, -⟩
      exact absurd hc (by decide)
  · -- no word goes on across a blank
    have hnot : Text.isInWord c = false := by
      by_contra hword
      rw [isBlank_of_isInWord (by simpa using hword)] at hc
      cases hc
    rw [List.reverse_append, List.reverse_singleton, List.singleton_append,
      List.takeWhile_cons_of_neg (by simp [hnot])] at he
    cases he

theorem Ready.of_gap (h : Ready text (gap ++ rest)) (hgap : Gap rest gap) :
    Ready (text ++ gap) rest := by
  induction hgap generalizing text with
  | nil => rwa [List.append_nil]
  | @blank c gap hc _ ih =>
    have := ih (h.of_blank hc)
    rwa [List.append_assoc] at this
  | comment _ hline _ ih =>
    rw [← List.append_assoc]
    exact ih (ready_of_line_ends hline)

/-- A symbol with a slash in it is the slash. -/
theorem eq_slash_of_tag {k : Kind} (hk : k.isSymbol = true) (htag : k.tag = .ofList s)
    (hs : '/' ∈ s) : s = ['/'] ∧ k.second? = some '/' := by
  have htags : ∀ k ∈ Kind.all, k.isSymbol = true → k.tag.toList.contains '/' = true →
      k.tag.toList = ['/'] ∧ k.second? = some '/' := by decide +kernel
  have := htags k k.mem_all hk
  rw [htag, String.toList_ofList] at this
  exact this (List.contains_iff_mem.2 hs)

theorem Longest.ne_newline {k : Kind} (h : Longest rest k s) : ∀ c ∈ s, c ≠ '\n' := by
  obtain ⟨c, w, rfl, hcases⟩ := h.cases
  rintro d hd rfl
  rcases hcases with ⟨-, hw, -⟩ | ⟨-, hw, -⟩ | ⟨-, hk, htag, -⟩
  · cases hw _ hd
  · cases hw _ hd
  · cases startsSymbol_of_tag hk htag _ hd

theorem InCode.of_longest {k : Kind} (h : InCode text (s ++ rest)) (hk : Longest rest k s) :
    InCode (text ++ s) rest := by
  have hline := hk.ne_newline
  by_cases hslash : '/' ∈ s
  · obtain ⟨c, w, rfl, hcases⟩ := hk.cases
    rcases hcases with ⟨-, hw, -⟩ | ⟨-, hw, -⟩ | ⟨-, hsymbol, htag, hsecond⟩
    · cases hw _ hslash
    · cases hw _ hslash
    · obtain ⟨hs, hslash⟩ := eq_slash_of_tag hsymbol htag hslash
      rw [hs] at h ⊢
      exact h.cons (by decide) fun h => hsecond '/' hslash h.2
  · exact h.append fun d hd => ⟨hline d hd, ne_of_mem_of_not_mem hd hslash⟩

theorem Ready.of_longest {k : Kind} (h : Ready text (s ++ rest)) (hk : Longest rest k s) :
    Ready (text ++ s) rest := by
  have hline := hk.ne_newline
  obtain ⟨c, w, hs, hcases⟩ := hk.cases
  refine ⟨fun _ _ _ => (h.inCode c (by rw [hs]; rfl) (hline c (by simp [hs]))).of_longest hk, ?_⟩
  intro d hd hword e he
  rw [List.reverse_append] at he
  rcases hcases with ⟨-, -, hstops, -⟩ | ⟨hc, hw, -⟩ | ⟨-, hsymbol, htag, -⟩
  · rw [hstops d hd] at hword
    cases hword
  · -- a word that goes on behind a number is that number and what it goes on from
    have hdigits : ∀ c ∈ s.reverse, Text.isInWord c = true :=
      fun c hc => isInWord_of_isDigit (hw c (List.mem_reverse.1 hc))
    rw [List.takeWhile_append_of_pos hdigits, List.mem_append, List.mem_reverse] at he
    rcases he with he | he
    · by_contra halpha
      have := isDigit_of_isAlpha (by simpa using halpha)
      rw [hw e he] at this
      cases this
    · exact h.word c (by rw [hs]; rfl) (isInWord_of_isDigit hc) e he
  · have hnot : ∀ c ∈ s, Text.isInWord c = false :=
      fun c hc => (classes_of_startsSymbol (startsSymbol_of_tag hsymbol htag c hc)).1
    rcases List.eq_nil_or_concat s with rfl | ⟨init, l, rfl⟩
    · cases hs
    · rw [List.concat_eq_append, List.reverse_append, List.reverse_singleton,
        List.singleton_append, List.cons_append,
        List.takeWhile_cons_of_neg (by simp [hnot l (by simp)])] at he
      cases he

/-! ## Faults offend -/

/-- What starts a token on its own. -/
theorem exists_longest (h : c.isAlpha = true ∨ c.isDigit = true ∨ c ∈ symbols ∨ c = '!') :
    ∃ k w, Longest [] k (c :: w) := by
  rcases h with h | h | h | rfl
  · rcases ReservedWord.mem_or_classify (.ofList [c]) with hmem | ⟨hnot, -⟩
    · exact ⟨_, [], .reserved hmem (stops_nil _)⟩
    · exact ⟨.ident, [], .name h nofun hnot (stops_nil _)⟩
  · exact ⟨.num, [], .number h nofun (stops_nil _)⟩
  · have hall : symbols.all (fun c => Kind.all.any fun k =>
        k.isSymbol && k.tag == .ofList [c]) = true := by decide +kernel
    have := List.all_eq_true.1 hall c h
    simp only [List.any_eq_true, Bool.and_eq_true, beq_iff_eq] at this
    obtain ⟨k, -, hk, htag⟩ := this
    exact ⟨k, [], .symbol hk htag nofun⟩
  · exact ⟨.notEq, ['='], longest_notEqual⟩

/-- What the first error in `rest` is, behind `text`. -/
inductive FirstFault (text rest : List Char) : Option LexError → Prop
  /-- There is none. -/
  | none : Clean text rest [] → FirstFault text rest none
  /-- There is one for the first character that offends. -/
  | some {s after : List Char} {c : Char} : rest = s ++ c :: after → Clean text s (c :: after) →
      Offends (text ++ s) c after → FirstFault text rest (some (fault (text ++ s) c after))

variable {e : LexError} {o : Option LexError}

theorem FirstFault.prepend (h : FirstFault (text ++ s) rest o) (hs : Clean text s rest) :
    FirstFault text (s ++ rest) o := by
  cases h with
  | none hrest =>
    refine .none (clean_append.2 ⟨?_, hrest⟩)
    rwa [List.append_nil]
  | @some s' after c hrest hs' hoffends =>
    subst hrest
    rw [List.append_assoc] at hoffends ⊢
    exact .some (List.append_assoc _ _ _).symm (clean_append.2 ⟨hs, hs'⟩) hoffends

theorem firstFault_of_offends (h : Offends text c rest) (he : fault text c rest = e) :
    FirstFault text (c :: rest) (some e) := by
  have : FirstFault text (c :: rest) (.some (fault (text ++ []) c rest)) :=
    .some (s := []) rfl clean_nil (by rwa [List.append_nil])
  rwa [List.append_nil, he] at this

/-- An exclamation mark offends if it is not the first half of `!=`. -/
theorem offends_mark (h : InCode text ('!' :: rest)) (hrest : rest.head? ≠ some '=') :
    Offends text '!' rest := by
  refine ⟨_, h.code_cons (by decide) (by simp), ?_⟩
  rintro (hc | hc | hc | hc | ⟨hc, -⟩ | ⟨-, hcode⟩)
  iterate 3 cases hc
  · exact absurd hc (by decide)
  · cases hc
  · obtain ⟨r, hr⟩ := code_isPrefix (firstLine rest)
    refine hrest ((head?_firstLine_of_ne (by decide)).1 ?_)
    rw [← hr, List.head?_append, hcode]
    rfl

/-- A character that starts no token offends. -/
theorem offends_of_forall_not_longest (hready : Ready text (c :: rest))
    (hblank : Text.isBlank c = false) (h : ∀ k w rest', ¬ Longest rest' k (c :: w)) :
    Offends text c rest := by
  have hnot : ¬ (c.isAlpha = true ∨ c.isDigit = true ∨ c ∈ symbols ∨ c = '!') := by
    intro hc
    obtain ⟨k, w, hk⟩ := exists_longest hc
    exact h k w [] hk
  have hline : c ≠ '\n' := by
    rintro rfl
    cases hblank
  have hslash : ¬ (c = '/' ∧ rest.head? = some '/') := by
    rintro ⟨rfl, -⟩
    exact h _ _ _ longest_slash
  refine ⟨_, (hready.inCode c rfl hline).code_cons hline hslash, ?_⟩
  rintro (hc | hc | hc | hc | ⟨rfl, d, hd, hletter⟩ | ⟨hc, -⟩)
  · rw [hblank] at hc
    cases hc
  · exact hnot (.inl hc)
  · exact hnot (.inr (.inl hc))
  · exact hnot (.inr (.inr (.inl hc)))
  · -- the letter would be in the word that goes on with the underscore
    rw [takeWhile_reverse_lastLine] at hd
    rw [hready.word '_' rfl rfl d hd] at hletter
    cases hletter
  · exact hnot (.inr (.inr (.inr hc)))

/-- A fault starts with a character that offends, and is the error for it. -/
theorem Lexeme.firstFault (h : Lexeme text s rest (.error e)) (hready : Ready text (s ++ rest)) :
    FirstFault text (s ++ rest) (some e) := by
  cases h with
  | @illegal c hs hblank hnone =>
    subst hs
    have hmark : (c == '!') = false := by
      rw [beq_eq_false_iff_ne]
      rintro rfl
      exact hnone _ _ _ longest_notEqual
    refine firstFault_of_offends (offends_of_forall_not_longest hready hblank hnone) ?_
    simp [fault, hmark]
  | mark hs hrest =>
    subst hs
    refine firstFault_of_offends (offends_mark (hready.inCode '!' rfl (by decide)) ?_) ?_
    · intro hequal
      exact absurd (hrest _ hequal) (by decide)
    · have hfilter : (rest.head?.filter fun d => '!' == '!' && !Text.isBlank d) = .none := by
        rw [Option.filter_eq_none_iff]
        intro d hd
        simp [hrest d hd]
      change fault text '!' rest = _
      rw [fault, hfilter]
  | @half c hs hblank hne =>
    subst hs
    refine firstFault_of_offends (offends_mark (hready.inCode '!' rfl (by decide)) ?_) ?_
    · simpa using hne
    · have hfilter : ((c :: rest).head?.filter fun d => '!' == '!' && !Text.isBlank d) = .some c :=
        Option.filter_some_pos (by simp [hblank])
      change fault text '!' (c :: rest) = _
      rw [fault, hfilter]

/-- The first error that a text is divided into is that for its first offending
    character. -/
theorem Divides.firstFault {is : List Item} (h : Divides text rest is)
    (hready : Ready text rest) : FirstFault text rest (is.filterMap Item.error?).head? := by
  induction h with
  | done hgap => exact .none (clean_gap hgap)
  | @item text gap s rest i is hgap hi _ ih =>
    have hready := hready.of_gap hgap
    refine .prepend ?_ (clean_gap hgap)
    cases i with
    | error e => exact hi.firstFault hready
    | ok t =>
      cases hi with
      | token _ hk _ => exact (ih (hready.of_longest hk)).prepend (clean_of_longest hk)

/-! ## Texts line by line -/

/-- A line is clean if and only if its code is legal. -/
theorem clean_line (hline : '\n' ∉ line) (htext : lastLine text = [])
    (hrest : ∀ d, rest.head? = some d → d = '\n') : Clean text line rest ↔ LegalLine line := by
  have hoffends : ∀ before c after, line = before ++ c :: after →
      (Offends (text ++ before) c (after ++ rest) ↔
        ∃ r, code line = before ++ c :: r ∧ ¬ Legal before c r) := by
    rintro before c after rfl
    have hbefore : '\n' ∉ before := fun h => hline (List.mem_append_left _ h)
    have hafter : '\n' ∉ after := fun h => hline (by simp [h])
    have hfirst : firstLine (after ++ rest) = after := by
      rw [firstLine, takeWhile_append_of_forall (fun d hd => by
        simpa using ne_of_mem_of_not_mem hd hafter) (fun d hd => by simp [hrest d hd])]
    rw [Offends, lastLine_append hbefore, htext, hfirst, List.nil_append]
  constructor
  · intro h before c r hcode
    obtain ⟨t, ht⟩ := code_isPrefix line
    have hsplit : line = before ++ c :: (r ++ t) := by
      rw [← ht, hcode, List.append_assoc, List.cons_append]
    by_contra hillegal
    exact h before c _ hsplit ((hoffends before c _ hsplit).2 ⟨r, hcode, hillegal⟩)
  · intro h before c after hsplit hoff
    obtain ⟨r, hcode, hillegal⟩ := (hoffends before c after hsplit).1 hoff
    exact hillegal (h before c r hcode)

/-- A text is clean if and only if the code of each of its lines is legal. -/
theorem clean_iff_legalLine (above text : List Char) (habove : lastLine above = []) :
    Clean above text [] ↔ ∀ line ∈ text.splitOn '\n', LegalLine line := by
  by_cases hmem : '\n' ∈ text
  · obtain ⟨line, below, htext, hline⟩ := List.eq_append_cons_of_mem hmem
    have hlt : below.length < text.length := by
      rw [htext, List.length_append, List.length_cons]
      omega
    rw [htext, List.splitOn_append_cons_self_of_not_mem hline, List.forall_mem_cons,
      ← clean_iff_legalLine (above ++ line ++ ['\n']) below (lastLine_append_newline _),
      clean_append, clean_line hline habove (by simp), clean_cons]
    exact and_congr_right' (and_iff_right (not_offends_of_isBlank (by decide)))
  · rw [List.splitOn_eq_singleton hmem, List.forall_mem_singleton,
      clean_line hmem habove (by simp)]
termination_by text.length

/-- There is one first character that offends. -/
theorem FirstOffence.unique {before' after' : List Char} {c' : Char}
    (h : FirstOffence text before c after) (h' : FirstOffence text before' c' after') :
    before = before' ∧ c = c' ∧ after = after' := by
  rcases List.append_eq_append_iff.1 (h.text.symm.trans h'.text) with
    ⟨m, hbefore, hrest⟩ | ⟨m, hbefore, hrest⟩
  · cases m with
    | nil =>
      obtain ⟨hc, hafter⟩ := List.cons.inj hrest
      exact ⟨by rw [hbefore, List.append_nil], hc, hafter⟩
    | cons d m =>
      obtain ⟨rfl, rfl⟩ := List.cons.inj hrest
      exact absurd h.offends (h'.first before c m hbefore)
  · cases m with
    | nil =>
      obtain ⟨hc, hafter⟩ := List.cons.inj hrest
      exact ⟨by rw [hbefore, List.append_nil], hc.symm, hafter.symm⟩
    | cons d m =>
      obtain ⟨rfl, rfl⟩ := List.cons.inj hrest
      exact absurd h'.offends (h.first before' c' m hbefore)

end Lexer

/-- A text has tokens if and only if the code of each of its lines is legal. Else there is
    the error for the first character of the text that offends. -/
theorem lex_ok_iff_legal (text : String) :
    ((∃ ts, lex text = .ok ts) ↔ ∀ line ∈ text.toList.splitOn '\n', Lexer.LegalLine line) ∧
      ∀ e, lex text = .error e ↔ ∃ before c after,
        Lexer.FirstOffence text.toList before c after ∧ e = Lexer.fault before c after := by
  obtain ⟨is, hdivides⟩ := Lexer.exists_divides text
  have hfirst := hdivides.firstFault (Lexer.ready_nil _)
  have herrors : (Lexing.ofItems (Lexer.collect text)).errors.head? =
      (is.filterMap Lexer.Item.error?).head? := by
    rw [Lexer.collect_of_divides hdivides, Lexing.ofItems, List.filterMap_append]
    simp [Lexer.Item.error?]
  simp only [Lexing.lex_eq_result, Lexing.exists_result_eq_ok_iff, Lexing.result_eq_error_iff,
    herrors, ← Lexer.clean_iff_legalLine [] text.toList rfl]
  generalize (is.filterMap Lexer.Item.error?).head? = o at hfirst
  cases hfirst with
  | none hclean =>
    refine ⟨iff_of_true rfl hclean, fun e => iff_of_false (by simp) ?_⟩
    rintro ⟨before, c, after, h, -⟩
    exact hclean before c after h.text (by rw [List.append_nil]; exact h.offends)
  | @some s after c htext hclean hoffends =>
    have h : Lexer.FirstOffence text.toList s c after := ⟨htext, hoffends, hclean⟩
    refine ⟨iff_of_false (by simp) fun hall => ?_, fun e => ⟨?_, ?_⟩⟩
    · exact hall s c after htext (by rw [List.append_nil]; exact hoffends)
    · rintro he
      exact ⟨s, c, after, h, (Option.some.inj he).symm⟩
    · rintro ⟨before, c', after', h', rfl⟩
      obtain ⟨rfl, rfl, rfl⟩ := h.unique h'
      rfl

end TinyLang

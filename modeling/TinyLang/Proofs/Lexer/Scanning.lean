import TinyLang.Proofs.Lexer.Division

/-!
# Scanning a text

A scanner of a text always stands between what it passed over and the rest
(`Scanner.between`). Each part of scanning brings it from one such place to another,
which is told by equations (`advance_between`, `takeWhile_between`,
`skipBlanks_between`, ...). What the scanner makes of the characters ahead is a
lexeme of the text, or the start of a comment (`scans_lexeme`).
-/

namespace TinyLang

namespace Scanner

/-- The scanner that stands between `text` and `rest`. -/
def between (inComment failed : Bool) (text rest : List Char) : Scanner where
  source := .ofChars rest.tail
  lookahead := rest.head?.elim .eof .char
  position := .behind text
  inComment
  failed

variable {inComment failed : Bool} {text rest : List Char} {c : Char}

@[simp]
theorem current_between : (between inComment failed text rest).current = rest.head? := by
  cases rest <;> rfl

@[simp]
theorem position_between : (between inComment failed text rest).position = .behind text := rfl

/-! ## Single characters -/

/-- After a read the scanner stands behind what was ahead before. -/
theorem read_of_source {s : Scanner} (hs : s.source = .ofChars rest)
    (hp : s.position.next = .behind text) :
    s.read = .ok () (between s.inComment s.failed text rest) := by
  obtain ⟨_, _, _, _, _⟩ := s
  obtain rfl := hs
  cases rest <;> simp_all [read, Source.ofChars, Source.next, between]

theorem advance_between (hc : c ≠ '\n') :
    (between inComment failed text (c :: rest)).advance =
      .ok () (between inComment failed (text ++ [c]) rest) := by
  rw [advance, if_neg (by simp [between])]
  exact read_of_source rfl (Position.behind_append hc text).symm

theorem advance_countLine_between :
    (countLine c (between inComment failed text (c :: rest))).advance =
      .ok () (between inComment failed (text ++ [c]) rest) := by
  by_cases hc : c = '\n'
  · subst hc
    rw [countLine, if_pos rfl, advance, if_neg (by simp [between])]
    exact read_of_source rfl (Position.behind_append_newline text).symm
  · rw [countLine, if_neg hc]
    exact advance_between hc

/-! ## Runs of characters -/

theorem takeWhile_eq (accept : Char → Bool) (word : String) (s : Scanner) :
    s.takeWhile accept word =
      match s.current with
      | none => .ok word s
      | some c =>
        if accept c then s.advance.andThen fun _ t => t.takeWhile accept (word.push c)
        else .ok word s := by
  rw [takeWhile]
  split
  · next h => rw [h]
  · next c h =>
    rw [h]
    dsimp only
    split
    · split
      · next ht => rw [ht, Scanned.andThen_ok]
      · next ht => rw [ht, Scanned.andThen_error]
    · rfl

theorem push_append_ofList (word : String) (c : Char) (w : List Char) :
    word.push c ++ .ofList w = word ++ .ofList (c :: w) := by
  rw [String.push_eq_append, String.append_assoc, String.singleton_eq_ofList,
    ← String.ofList_append, List.singleton_append]

theorem takeWhile_between {accept : Char → Bool} (haccept : accept '\n' = false) (word : String) :
    (between inComment failed text rest).takeWhile accept word =
      .ok (word ++ .ofList (rest.takeWhile accept))
        (between inComment failed (text ++ rest.takeWhile accept) (rest.dropWhile accept)) := by
  induction rest generalizing text word with
  | nil =>
    rw [takeWhile_eq]
    simp
  | cons c rest ih =>
    rw [takeWhile_eq, current_between, List.head?_cons]
    dsimp only
    by_cases hc : accept c = true
    · have hne : c ≠ '\n' := by
        rintro rfl
        rw [haccept] at hc
        cases hc
      rw [if_pos hc, advance_between hne, Scanned.andThen_ok, ih, List.takeWhile_cons_of_pos hc,
        List.dropWhile_cons_of_pos hc, List.append_assoc, push_append_ofList]
      rfl
    · rw [if_neg hc, List.takeWhile_cons_of_neg hc, List.dropWhile_cons_of_neg hc]
      simp

theorem skipComment_eq (s : Scanner) :
    s.skipComment =
      match s.current with
      | none => .ok () { s with inComment := false }
      | some c =>
        if c = '\n' then .ok () { s with inComment := false }
        else s.advance.andThen fun _ t => t.skipComment := by
  rw [skipComment]
  split
  · next h => rw [h]
  · next c h =>
    rw [h]
    dsimp only
    split
    · rfl
    · split
      · next ht => rw [ht, Scanned.andThen_ok]
      · next ht => rw [ht, Scanned.andThen_error]

/-- A comment is passed over up to the end of the line. -/
theorem skipComment_between :
    (between inComment failed text rest).skipComment =
      .ok () (between false failed (text ++ rest.takeWhile (· != '\n'))
        (rest.dropWhile (· != '\n'))) := by
  induction rest generalizing text with
  | nil =>
    rw [skipComment_eq, List.takeWhile_nil, List.append_nil]
    rfl
  | cons c rest ih =>
    rw [skipComment_eq, current_between, List.head?_cons]
    dsimp only
    by_cases hc : c = '\n'
    · subst hc
      rw [if_pos rfl, List.takeWhile_cons_of_neg (by simp), List.dropWhile_cons_of_neg (by simp),
        List.append_nil]
      rfl
    · have hne : (c != '\n') = true := by simpa using hc
      rw [if_neg hc, advance_between hc, Scanned.andThen_ok, ih,
        List.takeWhile_cons_of_pos (p := (· != '\n')) hne,
        List.dropWhile_cons_of_pos (p := (· != '\n')) hne, List.append_assoc]
      rfl

theorem skipBlanks_eq (s : Scanner) :
    s.skipBlanks =
      match s.current with
      | none => .ok () s
      | some c =>
        if Text.isBlank c then (countLine c s).advance.andThen fun _ t => t.skipBlanks
        else .ok () s := by
  rw [skipBlanks]
  split
  · next h => rw [h]
  · next c h =>
    rw [h]
    dsimp only
    split
    · split
      · next ht => rw [ht, Scanned.andThen_ok]
      · next ht => rw [ht, Scanned.andThen_error]
    · rfl

theorem skipBlanks_between :
    (between inComment failed text rest).skipBlanks =
      .ok () (between inComment failed (text ++ rest.takeWhile Text.isBlank)
        (rest.dropWhile Text.isBlank)) := by
  induction rest generalizing text with
  | nil =>
    rw [skipBlanks_eq, List.takeWhile_nil, List.append_nil]
    rfl
  | cons c rest ih =>
    rw [skipBlanks_eq, current_between, List.head?_cons]
    dsimp only
    by_cases hc : Text.isBlank c = true
    · rw [if_pos hc, advance_countLine_between, Scanned.andThen_ok, ih,
        List.takeWhile_cons_of_pos hc, List.dropWhile_cons_of_pos hc, List.append_assoc]
      rfl
    · rw [if_neg hc, List.takeWhile_cons_of_neg hc, List.dropWhile_cons_of_neg hc, List.append_nil]

/-! ## Lexemes -/

section Lexeme

variable (failed : Bool) (text rest : List Char)

/-- What the scanner makes of the characters ahead. A character at fault is still ahead after
    it was reported, unless it is an exclamation mark. -/
inductive Scans : Scanned (Option Token) → Prop
  /-- A comment starts. -/
  | comment {r : List Char} : rest = '/' :: '/' :: r →
      Scans (.ok none (between true failed (text ++ ['/']) ('/' :: r)))
  /-- A token. -/
  | token {s r : List Char} {t : Token} : rest = s ++ r → Lexer.Lexeme text s r (.ok t) →
      Scans (.ok (some t) (between false failed (text ++ s) r))
  /-- An exclamation mark at fault, which was passed over. -/
  | mark {r : List Char} : rest = '!' :: r → (∀ c, r.head? = some c → Text.isBlank c = true) →
      Scans (.error ⟨.behind text, .illegalCharacter '!'⟩ (between false true (text ++ ['!']) r))
  /-- Any other character at fault, which is still ahead. -/
  | ahead {s r : List Char} {c : Char} : rest = s ++ (c :: r) → c ≠ '\n' → s ++ [c] ≠ ['!'] →
      Lexer.Lexeme text (s ++ [c]) r (.error ⟨.behind (text ++ s), .illegalCharacter c⟩) →
      Scans (.error ⟨.behind (text ++ s), .illegalCharacter c⟩
        (between false true (text ++ s) (c :: r)))

end Lexeme

theorem pair_between {second : Char} (hc : c ≠ '\n') (hsecond : second ≠ '\n') (start : Position)
    (both alone : Kind) :
    (between inComment failed text (c :: rest)).pair start second both alone =
      if rest.head? = some second then
        .ok (.bare both start) (between inComment failed (text ++ [c, second]) rest.tail)
      else .ok (.bare alone start) (between inComment failed (text ++ [c]) rest) := by
  rw [pair, advance_between hc, Scanned.andThen_ok, current_between]
  split
  · next h =>
    obtain ⟨r, rfl⟩ := List.head?_eq_some_iff.1 h
    rw [advance_between hsecond, List.append_assoc]
    rfl
  · rfl

/-- A symbol that a second character makes another symbol. -/
theorem scans_pair {second : Char} {both alone : Kind} (hc : c ≠ '\n') (hsecond : second ≠ '\n')
    (hboth : both.isSymbol = true ∧ both.tag = .ofList [c, second] ∧ both.second? = none)
    (halone : alone.isSymbol = true ∧ alone.tag = .ofList [c] ∧ alone.second? = some second) :
    Scans failed text (c :: rest)
      (((between false failed text (c :: rest)).pair (.behind text) second both alone).map some) := by
  rw [pair_between hc hsecond]
  split
  · next h =>
    obtain ⟨r, rfl⟩ := List.head?_eq_some_iff.1 h
    refine .token (s := [c, second]) rfl (Lexer.lexeme_symbol hboth.1 hboth.2.1 ?_)
    rw [hboth.2.2]
    nofun
  · next h =>
    refine .token (s := [c]) rfl (Lexer.lexeme_symbol halone.1 halone.2.1 ?_)
    rw [halone.2.2]
    rintro _ ⟨⟩
    exact h

theorem scans_slash :
    Scans failed text ('/' :: rest)
      ((between false failed text ('/' :: rest)).slash (.behind text)) := by
  rw [slash, advance_between (by decide), Scanned.andThen_ok, current_between]
  split
  · next h =>
    obtain ⟨r, rfl⟩ := List.head?_eq_some_iff.1 h
    exact .comment rfl
  · next h =>
    refine .token (s := ['/']) rfl (Lexer.lexeme_symbol rfl rfl ?_)
    rintro _ ⟨⟩
    exact h

theorem scans_notEqual :
    Scans failed text ('!' :: rest)
      (((between false failed text ('!' :: rest)).notEqual (.behind text)).map some) := by
  rw [notEqual, advance_between (by decide), Scanned.andThen_ok, current_between]
  cases rest with
  | nil => exact .mark rfl nofun
  | cons d r =>
    dsimp only [List.head?_cons]
    -- the second half of `!=`, a blank, or a character in its place
    split
    · next h =>
      subst h
      rw [advance_between (by decide), List.append_assoc]
      exact .token (s := ['!', '=']) rfl (Lexer.lexeme_symbol rfl rfl nofun)
    split
    · next h hd =>
      refine .mark rfl ?_
      rintro _ ⟨⟩
      exact hd
    · next h hd =>
      have hd : Text.isBlank d = false := by simpa using hd
      refine .ahead (s := ['!']) rfl ?_ (by simp) (.half rfl hd h)
      rintro rfl
      exact absurd hd (by decide)

theorem single?_eq_some {k : Kind} (h : single? c = some k) :
    k.isSymbol = true ∧ k.tag = .ofList [c] ∧ k.second? = none := by
  unfold single? at h
  split at h
  all_goals
    cases h
    try exact ⟨rfl, rfl, rfl⟩

theorem scans_word (hc : c.isAlpha = true) :
    Scans failed text (c :: rest)
      (((between false failed text (c :: rest)).takeWhile isWordChar "").map fun word =>
        some (.of (ReservedWord.classify word) word (.behind text))) := by
  have hword : Text.isInWord c = true := Text.isInWord_iff.2 (.inl hc)
  rw [isWordChar_eq_isInWord, takeWhile_between (by decide), String.empty_append,
    List.takeWhile_cons_of_pos hword, List.dropWhile_cons_of_pos hword]
  refine .token ?_ (Lexer.lexeme_word hc rfl)
  rw [List.cons_append, List.takeWhile_append_dropWhile]

theorem scans_number (hc : c.isDigit = true) :
    Scans failed text (c :: rest)
      (((between false failed text (c :: rest)).takeWhile Char.isDigit "").map fun digits =>
        some (.of .num digits (.behind text))) := by
  rw [takeWhile_between (by decide), String.empty_append, List.takeWhile_cons_of_pos hc,
    List.dropWhile_cons_of_pos hc]
  refine .token ?_ (Lexer.lexeme_number hc rfl)
  rw [List.cons_append, List.takeWhile_append_dropWhile]

theorem scans_single {k : Kind} (hc : c ≠ '\n') (hk : single? c = some k) :
    Scans failed text (c :: rest)
      ((between false failed text (c :: rest)).advance.map fun _ =>
        some (.bare k (.behind text))) := by
  obtain ⟨hsymbol, htag, hsecond⟩ := single?_eq_some hk
  rw [advance_between hc]
  refine .token (s := [c]) rfl (Lexer.lexeme_symbol hsymbol htag ?_)
  rw [hsecond]
  nofun

theorem scans_illegal (hblank : Text.isBlank c = false) (hc : c ≠ '\n')
    (hnone : ∀ k w rest', ¬ Lexer.Longest rest' k (c :: w)) :
    Scans failed text (c :: rest)
      ((between false failed text (c :: rest)).illegal (.behind text) c) := by
  have hlexeme : Lexer.Lexeme text [c] rest (.error ⟨.behind text, .illegalCharacter c⟩) :=
    .illegal rfl hblank hnone
  have hahead : Scans failed text (c :: rest)
      (.error ⟨.behind (text ++ []), .illegalCharacter c⟩
        (between false true (text ++ []) (c :: rest))) := by
    refine .ahead (s := []) rfl hc ?_ ?_
    · rintro ⟨⟩
      exact hnone .notEq ['='] [] (.symbol rfl rfl nofun)
    · rw [List.append_nil]
      exact hlexeme
  rwa [List.append_nil] at hahead

/-- What the scanner makes of a character that is no blank is a lexeme, or the start
    of a comment. -/
theorem scans_lexeme (hblank : Text.isBlank c = false) :
    Scans failed text (c :: rest)
      ((between false failed text (c :: rest)).lexeme (.behind text) c) := by
  have hc : c ≠ '\n' := by
    rintro rfl
    exact absurd hblank (by decide)
  -- the cases are those of the scanner, in its order
  rw [lexeme]
  split
  · next halpha => exact scans_word halpha
  split
  · next hdigit => exact scans_number hdigit
  split
  · next h =>
    subst h
    exact scans_slash
  split
  · next h =>
    subst h
    exact scans_pair (by decide) (by decide) ⟨rfl, rfl, rfl⟩ ⟨rfl, rfl, rfl⟩
  split
  · next h =>
    subst h
    exact scans_pair (by decide) (by decide) ⟨rfl, rfl, rfl⟩ ⟨rfl, rfl, rfl⟩
  split
  · next h =>
    subst h
    exact scans_pair (by decide) (by decide) ⟨rfl, rfl, rfl⟩ ⟨rfl, rfl, rfl⟩
  split
  · next h =>
    subst h
    exact scans_notEqual
  split
  · next k h => exact scans_single hc h
  · next halpha hdigit hslash heq hgt hcolon hmark _ hsingle =>
    refine scans_illegal hblank hc fun k w rest' h => ?_
    rcases h.start with h | h | h
    · exact halpha h
    · exact hdigit h
    · simp [Lexer.startsSymbol, hslash, heq, hgt, hcolon, hmark, hsingle] at h

end Scanner

end TinyLang

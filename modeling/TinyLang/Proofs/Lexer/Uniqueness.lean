import TinyLang.Proofs.Lexer.Halting

/-!
# A text is divided in one way

A text has only one division into gaps and lexemes (`Lexer.Divides.unique`): a gap is
as long as it can be, because no lexeme starts as a gap goes on (`Gap.unique`), and the
lexeme behind it is settled by its first character and by what may follow
(`Lexeme.unique`). So whoever divides a text knows what its lexer gives
(`Lexer.collect_of_divides`).
-/

namespace TinyLang

/-- A token is its kind, its spelling and its position. -/
theorem Token.eq_of_spelling {t u : Token} (hkind : t.kind = u.kind)
    (hspelling : t.spelling = u.spelling) (hposition : t.position = u.position) : t = u := by
  obtain ⟨kind, value, position, hvalue⟩ := t
  obtain ⟨_, value', _, hvalue'⟩ := u
  obtain rfl := hkind
  obtain rfl := hposition
  cases hk : kind.hasValue with
  | true =>
    obtain rfl : value = value' := by simpa [spelling, hk] using hspelling
    rfl
  | false =>
    obtain rfl := hvalue hk
    obtain rfl := hvalue' hk
    rfl

namespace Lexer

variable {text rest rest' gap gap' s s' : List Char} {k k' : Kind} {c : Char}

/-! ## Classes of characters -/

/-- The characters with which symbols start. -/
def symbolStarts : List Char :=
  ['/', '=', '>', ':', '!', '<', '+', '-', '*', ';', '(', ')', '.', ',']

theorem mem_symbolStarts (h : startsSymbol c = true) : c ∈ symbolStarts := by
  simp only [startsSymbol, Bool.or_eq_true, List.contains_eq_mem, decide_eq_true_eq] at h
  rcases h with h | h
  · exact List.mem_append_left ['<', '+', '-', '*', ';', '(', ')', '.', ','] h
  · unfold Scanner.single? at h
    split at h <;> first | decide | cases h

/-- What starts a symbol is part of no word and no blank. -/
theorem classes_of_startsSymbol (h : startsSymbol c = true) :
    Text.isInWord c = false ∧ Text.isBlank c = false := by
  have hall : symbolStarts.all (fun c => !Text.isInWord c && !Text.isBlank c) = true := by
    decide
  simpa using List.all_eq_true.1 hall c (mem_symbolStarts h)

theorem isInWord_of_isAlpha (h : c.isAlpha = true) : Text.isInWord c = true :=
  Text.isInWord_iff.2 (.inl h)

theorem isInWord_of_isDigit (h : c.isDigit = true) : Text.isInWord c = true :=
  Text.isInWord_iff.2 (.inr (.inl h))

theorem startsSymbol_of_isInWord (h : Text.isInWord c = true) : startsSymbol c = false := by
  by_contra hc
  have := (classes_of_startsSymbol (Bool.not_eq_false _ ▸ hc)).1
  rw [h] at this
  cases this

theorem isDigit_of_isAlpha (h : c.isAlpha = true) : c.isDigit = false := by
  simp [Char.isAlpha, Char.isUpper, Char.isLower, Char.isDigit, UInt32.le_iff_toNat_le] at *
  omega

/-- What is part of a word is no blank. -/
theorem isBlank_of_isInWord (h : Text.isInWord c = true) : Text.isBlank c = false := by
  simp only [Text.isInWord, decide_eq_true_eq, Char.le_def, UInt32.le_iff_toNat_le] at h
  rw [← or_assoc, ← or_assoc] at h
  rcases h with h | rfl
  · have hn : c.toNat = c.val.toNat := rfl
    simp only [UInt32.reduceToNat, Char.reduceVal] at h
    by_contra hb
    simp only [Text.isBlank, Bool.not_eq_false, Bool.or_eq_true, Bool.and_eq_true,
      decide_eq_true_eq, beq_iff_eq] at hb
    omega
  · decide

/-! ## Runs of characters -/

/-- No run goes on across a character where runs end. -/
theorem takeWhile_append_of_stops {accept : Char → Bool} (s : List Char)
    (hrest : Stops accept rest) : (s ++ rest).takeWhile accept = s.takeWhile accept := by
  induction s with
  | nil =>
    cases rest with
    | nil => rfl
    | cons c r => exact List.takeWhile_cons_of_neg (by simp [hrest c rfl])
  | cons c s ih => rw [List.cons_append, List.takeWhile_cons, List.takeWhile_cons, ih]

/-- A run that ends where it has to is the longest one. -/
theorem takeWhile_append_of_forall {accept : Char → Bool} (hs : ∀ c ∈ s, accept c = true)
    (hrest : Stops accept rest) : (s ++ rest).takeWhile accept = s := by
  rw [takeWhile_append_of_stops s hrest, List.takeWhile_eq_self_iff]
  exact hs

/-- Runs of one text that end where they have to are equal. -/
theorem run_unique {accept : Char → Bool} (hs : ∀ c ∈ s, accept c = true)
    (hs' : ∀ c ∈ s', accept c = true) (hrest : Stops accept rest) (hrest' : Stops accept rest')
    (h : s ++ rest = s' ++ rest') : s = s' := by
  rw [← takeWhile_append_of_forall hs hrest, h, takeWhile_append_of_forall hs' hrest']

/-! ## Gaps -/

/-- No gap goes on with `rest`: neither a blank nor a comment comes next. -/
structure GapEnds (rest : List Char) : Prop where
  blank : ∀ c, rest.head? = some c → Text.isBlank c = false
  comment : ∀ r, rest ≠ '/' :: '/' :: r

theorem gapEnds_nil : GapEnds [] := ⟨nofun, nofun⟩

theorem GapEnds.cons_blank_ne (h : GapEnds rest) (hc : Text.isBlank c = true) (r : List Char) :
    rest ≠ c :: r := by
  rintro rfl
  have := h.blank c rfl
  rw [hc] at this
  cases this

/-- A gap is as long as it can be. -/
theorem Gap.unique (h : Gap rest gap) (h' : Gap rest' gap') (hends : GapEnds rest)
    (hends' : GapEnds rest') (heq : gap ++ rest = gap' ++ rest') : gap = gap' := by
  -- on gaps that begin alike; a gap that is at its end where the other goes on would
  -- have a blank or a comment behind it
  induction h generalizing gap' with
  | nil =>
    cases h' with
    | nil => rfl
    | blank hc _ => exact absurd heq (hends.cons_blank_ne hc _)
    | comment => exact absurd heq (hends.comment _)
  | @blank c gap hc _ ih =>
    cases h' with
    | nil => exact absurd heq.symm (hends'.cons_blank_ne hc _)
    | @blank _ gap'' _ hgap'' =>
      obtain ⟨rfl, hrest⟩ := List.cons.inj heq
      rw [ih hgap'' hrest]
    | comment =>
      obtain ⟨rfl, -⟩ := List.cons.inj heq
      exact absurd hc (by decide)
  | @comment body gap hbody hline _ ih =>
    cases h' with
    | nil => exact absurd heq.symm (hends'.comment _)
    | blank hc _ =>
      obtain ⟨rfl, -⟩ := List.cons.inj heq
      exact absurd hc (by decide)
    | @comment body' gap'' hbody' hline' hgap'' =>
      have heq : body ++ (gap ++ rest) = body' ++ (gap'' ++ rest') := by simpa using heq
      have hrun : ∀ {b : List Char}, '\n' ∉ b → ∀ c ∈ b, (c != '\n') = true := by
        rintro b hb c hc
        simpa using ne_of_mem_of_not_mem hc hb
      have hstops : ∀ {r : List Char}, (∀ c, r.head? = some c → c = '\n') →
          Stops (· != '\n') r := by
        rintro r hr c hc
        simpa using hr c hc
      obtain rfl := run_unique (hrun hbody) (hrun hbody') (hstops hline) (hstops hline') heq
      rw [ih hgap'' (List.append_cancel_left heq)]

/-! ## Lexemes -/

/-- Every character of a symbol starts a symbol. -/
theorem startsSymbol_of_tag (hk : k.isSymbol = true) (htag : k.tag = .ofList s) :
    ∀ c ∈ s, startsSymbol c = true := by
  have htags : ∀ k ∈ Kind.all, k.isSymbol = true → k.tag.toList.all startsSymbol = true := by
    decide
  have := htags k k.mem_all hk
  rwa [htag, String.toList_ofList, List.all_eq_true] at this

theorem classify_of_not_isReserved {word : String} (h : ReservedWord.isReserved word = false) :
    ReservedWord.classify word = .ident := by
  rw [← ReservedWord.isSome_kind?, Option.isSome_eq_false_iff, Option.isNone_iff_eq_none] at h
  rw [ReservedWord.classify, h, Option.getD_none]

/-- What the characters of a token are, as its first character tells. -/
theorem Longest.cases (h : Longest rest k s) :
    ∃ c w, s = c :: w ∧
      (c.isAlpha = true ∧ (∀ d ∈ s, Text.isInWord d = true) ∧
          Stops Text.isInWord rest ∧ k = ReservedWord.classify (.ofList s) ∨
        c.isDigit = true ∧ (∀ d ∈ s, d.isDigit = true) ∧ Stops Char.isDigit rest ∧ k = .num ∨
        startsSymbol c = true ∧ k.isSymbol = true ∧ k.tag = .ofList s ∧
          ∀ d, k.second? = some d → rest.head? ≠ some d) := by
  cases h with
  | @name c w hc hw hreserved hstops =>
    exact ⟨c, w, rfl, .inl ⟨hc, List.forall_mem_cons.2 ⟨isInWord_of_isAlpha hc, hw⟩, hstops,
      (classify_of_not_isReserved hreserved).symm⟩⟩
  | reserved hk hstops =>
    have htable : ∀ e ∈ ReservedWord.table, e.1.toList.head?.any Char.isAlpha = true ∧
        e.1.toList.all Text.isInWord = true ∧ ReservedWord.classify e.1 = e.2 := by decide
    obtain ⟨halpha, hword, hclass⟩ := htable _ hk
    rw [String.toList_ofList] at halpha hword
    cases s with
    | nil => cases halpha
    | cons c w =>
      exact ⟨c, w, rfl, .inl ⟨halpha, List.all_eq_true.1 hword, hstops, hclass.symm⟩⟩
  | @number c w hc hw hstops =>
    exact ⟨c, w, rfl, .inr (.inl ⟨hc, List.forall_mem_cons.2 ⟨hc, hw⟩, hstops, rfl⟩)⟩
  | symbol hk htag hsecond =>
    cases s with
    | nil =>
      have htags : ∀ k ∈ Kind.all, k.tag ≠ "" := by decide
      exact absurd htag (htags k k.mem_all)
    | cons c w =>
      exact ⟨c, w, rfl, .inr (.inr ⟨startsSymbol_of_tag hk htag c List.mem_cons_self, hk, htag,
        hsecond⟩)⟩

/-- Whether the symbol `k'` is the symbol `k` and the character that may not follow that. -/
def lengthens (k k' : Kind) : Bool :=
  k.second?.isSome && k'.tag.toList == k.tag.toList ++ k.second?.toList

/-- Symbols that start alike are the same, or the second character of the longer one may
    not follow the shorter one. -/
theorem symbol_cases : ∀ k ∈ Kind.all, ∀ k' ∈ Kind.all, k.isSymbol = true → k'.isSymbol = true →
    k.tag.toList.head? = k'.tag.toList.head? →
      k = k' ∨ lengthens k k' = true ∨ lengthens k' k = true := by
  decide +kernel

/-- A symbol is not cut short. -/
theorem symbol_not_cut (htag : k.tag = .ofList s) (htag' : k'.tag = .ofList s')
    (hsecond : ∀ d, k.second? = some d → rest.head? ≠ some d) (hlonger : lengthens k k' = true) :
    s ++ rest ≠ s' ++ rest' := by
  rw [lengthens, Bool.and_eq_true, beq_iff_eq] at hlonger
  obtain ⟨hsome, hlonger⟩ := hlonger
  obtain ⟨d, hd⟩ := Option.isSome_iff_exists.1 hsome
  rw [htag, htag', hd, String.toList_ofList, String.toList_ofList] at hlonger
  intro heq
  rw [hlonger, List.append_assoc] at heq
  have := List.append_cancel_left heq
  exact hsecond d hd (by rw [this]; rfl)

theorem symbol_unique (hk : k.isSymbol = true) (hk' : k'.isSymbol = true)
    (htag : k.tag = .ofList s) (htag' : k'.tag = .ofList s')
    (hsecond : ∀ d, k.second? = some d → rest.head? ≠ some d)
    (hsecond' : ∀ d, k'.second? = some d → rest'.head? ≠ some d)
    (hhead : s.head? = s'.head?) (heq : s ++ rest = s' ++ rest') : s = s' ∧ k = k' := by
  have hheads : k.tag.toList.head? = k'.tag.toList.head? := by
    rwa [htag, htag', String.toList_ofList, String.toList_ofList]
  rcases symbol_cases k k.mem_all k' k'.mem_all hk hk' hheads with rfl | hlonger | hlonger
  · exact ⟨String.ofList_injective (htag.symm.trans htag'), rfl⟩
  · exact absurd heq (symbol_not_cut htag htag' hsecond hlonger)
  · exact absurd heq.symm (symbol_not_cut htag' htag hsecond' hlonger)

/-- The characters of a token are settled by the text that they start. -/
theorem Longest.unique (h : Longest rest k s) (h' : Longest rest' k' s')
    (heq : s ++ rest = s' ++ rest') : s = s' ∧ k = k' := by
  obtain ⟨c, w, rfl, hcases⟩ := h.cases
  obtain ⟨c', w', rfl, hcases'⟩ := h'.cases
  obtain rfl : c = c' := (List.cons.inj heq).1
  -- the first character is a letter, a digit or the start of a symbol, for both alike
  rcases hcases with ⟨hc, hw, hstops, hk⟩ | ⟨hc, hw, hstops, hk⟩ | ⟨hc, hk, htag, hsecond⟩
  · rcases hcases' with ⟨-, hw', hstops', hk'⟩ | ⟨hc', -⟩ | ⟨hc', -⟩
    · have hs := run_unique hw hw' hstops hstops' heq
      exact ⟨hs, by rw [hk, hk', hs]⟩
    · exact absurd hc' (by simp [isDigit_of_isAlpha hc])
    · exact absurd hc' (by simp [startsSymbol_of_isInWord (isInWord_of_isAlpha hc)])
  · rcases hcases' with ⟨hc', -⟩ | ⟨-, hw', hstops', hk'⟩ | ⟨hc', -⟩
    · exact absurd hc (by simp [isDigit_of_isAlpha hc'])
    · exact ⟨run_unique hw hw' hstops hstops' heq, by rw [hk, hk']⟩
    · exact absurd hc' (by simp [startsSymbol_of_isInWord (isInWord_of_isDigit hc)])
  · rcases hcases' with ⟨hc', -⟩ | ⟨hc', -⟩ | ⟨-, hk', htag', hsecond'⟩
    · exact absurd hc (by simp [startsSymbol_of_isInWord (isInWord_of_isAlpha hc')])
    · exact absurd hc (by simp [startsSymbol_of_isInWord (isInWord_of_isDigit hc')])
    · exact symbol_unique hk hk' htag htag' hsecond hsecond' rfl heq

/-- The symbols that start with an exclamation mark or a slash are one each. -/
theorem Longest.symbol_of_mark_or_slash {w : List Char} (h : Longest rest k (c :: w))
    (hc : c = '!' ∨ c = '/') :
    (c = '!' → w = ['=']) ∧ (c = '/' → w = [] ∧ rest.head? ≠ some '/') := by
  have htags : ∀ k ∈ Kind.all, k.isSymbol = true →
      (k.tag.toList.head? = some '!' → k.tag.toList = ['!', '=']) ∧
        (k.tag.toList.head? = some '/' → k.tag.toList = ['/'] ∧ k.second? = some '/') := by
    decide +kernel
  obtain ⟨c', w', hcons, hcases⟩ := h.cases
  obtain ⟨rfl, rfl⟩ := List.cons.inj hcons
  rcases hcases with ⟨halpha, -⟩ | ⟨hdigit, -⟩ | ⟨-, hk, htag, hsecond⟩
  · rcases hc with rfl | rfl <;> cases halpha
  · rcases hc with rfl | rfl <;> cases hdigit
  · have := htags k k.mem_all hk
    rw [htag, String.toList_ofList, List.head?_cons] at this
    refine ⟨?_, ?_⟩
    · rintro rfl
      exact (List.cons.inj (this.1 rfl)).2
    · rintro rfl
      exact ⟨(List.cons.inj (this.2 rfl).1).2, hsecond _ (this.2 rfl).2⟩

theorem Longest.of_mark {w : List Char} (h : Longest rest k ('!' :: w)) : w = ['='] :=
  (h.symbol_of_mark_or_slash (.inl rfl)).1 rfl

/-- A slash is a token if no other slash follows. -/
theorem Longest.of_slash {w : List Char} (h : Longest rest k ('/' :: w)) :
    w = [] ∧ rest.head? ≠ some '/' :=
  (h.symbol_of_mark_or_slash (.inr rfl)).2 rfl

/-- A token may start with an exclamation mark. -/
theorem longest_notEqual : Longest [] .notEq ['!', '='] := .symbol rfl rfl nofun

theorem longest_slash : Longest [] .slash ['/'] := .symbol rfl rfl nofun

section Lexeme

variable {i : Item} {t t' : Token} {e e' : LexError}

/-- The characters of a token are no fault. -/
theorem Lexeme.ne_error_of_longest (h : Lexeme text s' rest' (.error e)) (hk : Longest rest k s) :
    s ++ rest ≠ s' ++ rest' := by
  obtain ⟨c, w, rfl, -⟩ := hk.cases
  intro heq
  cases h with
  | illegal hs _ hnone =>
    subst hs
    obtain rfl := (List.cons.inj heq).1
    exact hnone k w rest hk
  | mark hs hrest =>
    subst hs
    obtain rfl := (List.cons.inj heq).1
    obtain rfl := hk.of_mark
    have hw : '=' :: rest = rest' := (List.cons.inj heq).2
    subst hw
    exact absurd (hrest '=' rfl) (by decide)
  | half hs _ hne =>
    subst hs
    obtain rfl := (List.cons.inj heq).1
    obtain rfl := hk.of_mark
    exact hne (List.cons.inj (List.cons.inj heq).2).1.symm

theorem Lexeme.unique_ok (h : Lexeme text s rest (.ok t)) (h' : Lexeme text s' rest' (.ok t'))
    (heq : s ++ rest = s' ++ rest') : s = s' ∧ t = t' := by
  cases h with
  | token hspelling hk hposition =>
    cases h' with
    | token hspelling' hk' hposition' =>
      obtain ⟨rfl, hkind⟩ := hk.unique hk' heq
      exact ⟨rfl, Token.eq_of_spelling hkind (hspelling.trans hspelling'.symm)
        (hposition.trans hposition'.symm)⟩

theorem Lexeme.unique_error (h : Lexeme text s rest (.error e))
    (h' : Lexeme text s' rest' (.error e')) (heq : s ++ rest = s' ++ rest') :
    s = s' ∧ e = e' := by
  cases h with
  | illegal hs _ hnone =>
    subst hs
    cases h' with
    | illegal hs' =>
      subst hs'
      obtain rfl := (List.cons.inj heq).1
      exact ⟨rfl, rfl⟩
    | mark hs' | half hs' =>
      subst hs'
      obtain rfl := (List.cons.inj heq).1
      exact absurd longest_notEqual (hnone _ _ _)
  | mark hs hrest =>
    subst hs
    cases h' with
    | illegal hs' _ hnone =>
      subst hs'
      obtain rfl := (List.cons.inj heq).1
      exact absurd longest_notEqual (hnone _ _ _)
    | mark hs' =>
      subst hs'
      exact ⟨rfl, rfl⟩
    | @half c hs' hblank =>
      subst hs'
      have hw : rest = c :: rest' := (List.cons.inj heq).2
      exact absurd (hrest c (by rw [hw]; rfl)) (by simp [hblank])
  | @half c hs hblank =>
    subst hs
    cases h' with
    | illegal hs' _ hnone =>
      subst hs'
      obtain rfl := (List.cons.inj heq).1
      exact absurd longest_notEqual (hnone _ _ _)
    | mark hs' hrest =>
      subst hs'
      have hw : c :: rest = rest' := (List.cons.inj heq).2
      exact absurd (hrest c (by rw [← hw]; rfl)) (by simp [hblank])
    | half hs' =>
      subst hs'
      obtain rfl := (List.cons.inj (List.cons.inj heq).2).1
      exact ⟨rfl, rfl⟩

/-- A lexeme is settled by the text that it starts. -/
theorem Lexeme.unique {i' : Item} (h : Lexeme text s rest i) (h' : Lexeme text s' rest' i')
    (heq : s ++ rest = s' ++ rest') : s = s' ∧ i = i' := by
  cases i with
  | ok t =>
    cases i' with
    | ok t' =>
      obtain ⟨hs, rfl⟩ := h.unique_ok h' heq
      exact ⟨hs, rfl⟩
    | error e' =>
      cases h with
      | token _ hk _ => exact absurd heq (h'.ne_error_of_longest hk)
  | error e =>
    cases i' with
    | ok t' =>
      cases h' with
      | token _ hk _ => exact absurd heq.symm (h.ne_error_of_longest hk)
    | error e' =>
      obtain ⟨hs, rfl⟩ := h.unique_error h' heq
      exact ⟨hs, rfl⟩

/-- A lexeme has a first character, which is no blank. -/
theorem Lexeme.exists_cons (h : Lexeme text s rest i) :
    ∃ c w, s = c :: w ∧ Text.isBlank c = false := by
  cases h with
  | token _ hk _ =>
    obtain ⟨c, w, rfl, hcases⟩ := hk.cases
    refine ⟨c, w, rfl, ?_⟩
    rcases hcases with ⟨hc, -⟩ | ⟨hc, -⟩ | ⟨hc, -⟩
    · exact isBlank_of_isInWord (isInWord_of_isAlpha hc)
    · exact isBlank_of_isInWord (isInWord_of_isDigit hc)
    · exact (classes_of_startsSymbol hc).2
  | illegal hs hblank _ => exact ⟨_, _, hs, hblank⟩
  | mark hs _ => exact ⟨_, _, hs, by decide⟩
  | half hs _ _ => exact ⟨_, _, hs, by decide⟩

/-- No gap goes on with a lexeme. -/
theorem Lexeme.gapEnds (h : Lexeme text s rest i) : GapEnds (s ++ rest) := by
  refine ⟨fun c hc => ?_, fun r hr => ?_⟩
  · obtain ⟨d, w, rfl, hd⟩ := h.exists_cons
    obtain rfl : d = c := by simpa using hc
    exact hd
  · cases h with
    | token _ hk _ =>
      obtain ⟨c, w, rfl, -⟩ := hk.cases
      obtain rfl := (List.cons.inj hr).1
      obtain ⟨rfl, hslash⟩ := hk.of_slash
      have hrest : rest = '/' :: r := (List.cons.inj hr).2
      exact hslash (by rw [hrest]; rfl)
    | illegal hs _ hnone =>
      subst hs
      obtain rfl := (List.cons.inj hr).1
      exact hnone _ _ _ longest_slash
    | mark hs | half hs =>
      subst hs
      cases (List.cons.inj hr).1

end Lexeme

/-! ## Divisions -/

/-- What only a gap is left of has no lexeme in it. -/
theorem Gap.not_lexeme {i : Item} (h : Gap [] (gap ++ (s ++ rest))) (hgap : Gap (s ++ rest) gap) :
    ¬ Lexeme text s rest i := by
  intro hi
  have heq := h.unique hgap gapEnds_nil hi.gapEnds (List.append_nil _)
  obtain ⟨c, w, rfl, -⟩ := hi.exists_cons
  simp at heq

/-- A text is divided in one way. -/
theorem Divides.unique {is js : List Item} (h : Divides text rest is)
    (h' : Divides text rest js) : is = js := by
  generalize hrest : rest = rest₀ at h'
  induction h generalizing js rest₀ with
  | done hgap =>
    cases h' with
    | done => rfl
    | item hgap' hi' _ =>
      rw [hrest] at hgap
      exact absurd hi' (hgap.not_lexeme hgap')
  | @item text gap s rest i is hgap hi hd ih =>
    cases h' with
    | done hgap' =>
      rw [← hrest] at hgap'
      exact absurd hi (hgap'.not_lexeme hgap)
    | @item _ gap' s' rest' i' is' hgap' hi' hd' =>
      obtain rfl := hgap.unique hgap' hi.gapEnds hi'.gapEnds hrest
      have heq := List.append_cancel_left hrest
      obtain ⟨rfl, rfl⟩ := hi.unique hi' heq
      rw [ih rest' (List.append_cancel_left heq) hd']

/-- The items of a text, read off a division. -/
theorem collect_of_divides {text : String} {is : List Item} (h : Divides [] text.toList is) :
    collect text = is ++ [.ok (.eof (.behind text.toList))] := by
  obtain ⟨js, hitems, hdivides, -⟩ := drain_of_stands _ #[] (stands_ofText text)
  rw [h.unique hdivides]
  exact hitems

/-- Every text has a division. -/
theorem exists_divides (text : String) : ∃ is, Divides [] text.toList is := by
  obtain ⟨is, -, hdivides, -⟩ := drain_of_stands _ #[] (stands_ofText text)
  exact ⟨is, hdivides⟩

end Lexer

end TinyLang

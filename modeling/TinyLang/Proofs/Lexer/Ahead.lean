import TinyLang.Proofs.Lexer.Latch

/-!
# What is ahead of a scanner

The characters that a scanner of any source can still pass over (`Scanner.ahead`) are the one
ahead and those that can be read behind it, up to the end of the source or its first fault.
Each part of scanning takes characters off the front of them (`Scanner.ahead_takeWhile`,
`Scanner.takes_lexeme`, ...) and, if it is neither the start nor the rest of a comment, leaves
the scanner inside a comment or outside as it was. A token other than the end of the input, and
an error behind the character ahead, leave fewer characters (`Scanner.shrinks_nextToken`).
-/

namespace TinyLang

variable {α β : Type}

namespace Source

variable {s s' : Source} {c : Char} {e : ReadError}

theorem readable_of_next_char (h : s.next = (.ok (some c), s')) :
    s.readable = c :: s'.readable := by
  obtain ⟨reads, fault⟩ := s
  rcases reads with _ | ⟨_ | d, reads⟩
  · cases fault <;> cases h
  · cases h
  · cases h
    rfl

theorem readable_of_next_end (h : s.next = (.ok none, s')) : s.readable = [] := by
  obtain ⟨reads, fault⟩ := s
  rcases reads with _ | ⟨_ | d, reads⟩
  · rfl
  · cases h
  · cases h

theorem readable_of_next_error (h : s.next = (.error e, s')) : s.readable = [] := by
  obtain ⟨reads, fault⟩ := s
  rcases reads with _ | ⟨_ | d, reads⟩
  · rfl
  · rfl
  · cases h

end Source

namespace Scanned

variable {r : Scanned α} {f : α → Scanner → Scanned β} {t : Scanner}

theorem andThen_eq_ok {b : β} (h : r.andThen f = .ok b t) :
    ∃ a u, r = .ok a u ∧ f a u = .ok b t := by
  cases r with
  | ok a u => exact ⟨a, u, rfl, h⟩
  | error e u => cases h

theorem andThen_eq_error {e : LexError} (h : r.andThen f = .error e t) :
    r = .error e t ∨ ∃ a u, r = .ok a u ∧ f a u = .error e t := by
  cases r with
  | ok a u => exact .inr ⟨a, u, rfl, h⟩
  | error e u =>
    cases h
    exact .inl rfl

end Scanned

namespace Scanner

variable {s t : Scanner} {c : Char} {e : LexError}

/-- The characters that can still be passed over: the one ahead, and those that can be read
    behind it. -/
def ahead (s : Scanner) : List Char :=
  match s.lookahead with
  | .char c => c :: s.source.readable
  | .unprimed | .eof => []

theorem head?_ahead (s : Scanner) : s.ahead.head? = s.current := by
  unfold ahead current
  cases s.lookahead <;> rfl

theorem ahead_of_current_none (h : s.current = none) : s.ahead = [] :=
  List.head?_eq_none_iff.1 ((head?_ahead s).trans h)

theorem ahead_of_current (h : s.current = some c) : s.ahead = c :: s.source.readable := by
  rw [ahead, lookahead_of_current h]

/-! ## Single characters -/

/-- After a read what could be read is ahead. -/
theorem ahead_read (s : Scanner) : s.read.scanner.ahead = s.source.readable := by
  cases hnext : s.source.next with
  | mk given source =>
  rcases given with cause | _ | d
  · rw [read, hnext, Source.readable_of_next_error hnext]
    rfl
  · rw [read, hnext, Source.readable_of_next_end hnext]
    rfl
  · rw [read, hnext, Source.readable_of_next_char hnext]
    rfl

/-- A read that fails leaves nothing ahead. -/
theorem ahead_of_read_error (h : s.read = .error e t) :
    t.ahead = [] ∧ ∃ cause, e.fault = .unreadable cause := by
  unfold read at h
  dsimp only at h
  split at h
  · cases h
  · cases h
  · cases h
    exact ⟨rfl, _, rfl⟩

theorem inComment_read (s : Scanner) : s.read.scanner.inComment = s.inComment := by
  unfold read
  dsimp only
  split <;> rfl

theorem advance_of_current (h : s.current = some c) : s.advance = s.read :=
  if_neg (lookahead_ne_eof h)

/-- Passing over the character ahead takes it off what is ahead. -/
theorem ahead_advance (h : s.current = some c) : s.ahead = c :: s.advance.scanner.ahead := by
  rw [ahead_of_current h, advance_of_current h, ahead_read]

theorem ahead_of_advance_error (h : s.advance = .error e t) :
    t.ahead = [] ∧ ∃ cause, e.fault = .unreadable cause := by
  unfold advance at h
  split at h
  · cases h
  · exact ahead_of_read_error h

theorem primed_read (s : Scanner) : s.read.scanner.lookahead ≠ .unprimed := by
  unfold read
  dsimp only
  split <;> nofun

theorem primed_advance (s : Scanner) : s.advance.scanner.lookahead ≠ .unprimed := by
  unfold advance
  split
  · next h =>
    rw [Scanned.scanner_ok, h]
    nofun
  · exact primed_read s

theorem primed_of_current (h : s.current = some c) : s.lookahead ≠ .unprimed := by
  rw [lookahead_of_current h]
  nofun

theorem inComment_advance (s : Scanner) : s.advance.scanner.inComment = s.inComment := by
  unfold advance
  split
  · rfl
  · exact inComment_read s

/-! ## Runs of characters -/

theorem ahead_takeWhile (accept : Char → Bool) (text : String) (s : Scanner) :
    (s.takeWhile accept text).scanner.ahead = s.ahead.dropWhile accept := by
  fun_induction takeWhile accept text s with
  | case1 text s hc =>
    rw [Scanned.scanner_ok, ahead_of_current_none hc]
    rfl
  | case2 text s c hc haccept t ht ih =>
    rw [ih, ahead_advance hc, ht, List.dropWhile_cons_of_pos haccept, Scanned.scanner_ok]
  | case3 text s c hc haccept e t ht =>
    rw [ahead_advance hc, ht, List.dropWhile_cons_of_pos haccept, Scanned.scanner_error,
      Scanned.scanner_error, (ahead_of_advance_error ht).1]
    rfl
  | case4 text s c hc haccept =>
    rw [Scanned.scanner_ok, ahead_of_current hc, List.dropWhile_cons_of_neg haccept]

theorem inComment_takeWhile (accept : Char → Bool) (text : String) (s : Scanner) :
    (s.takeWhile accept text).scanner.inComment = s.inComment := by
  fun_induction takeWhile accept text s with
  | case1 | case4 => rfl
  | case2 text s c hc _ t ht ih =>
    rw [ih, ← inComment_advance s, ht, Scanned.scanner_ok]
  | case3 text s c hc _ e t ht =>
    rw [← inComment_advance s, ht, Scanned.scanner_error, Scanned.scanner_error]

theorem primed_takeWhile (accept : Char → Bool) (text : String) (s : Scanner)
    (hs : s.lookahead ≠ .unprimed) :
    (s.takeWhile accept text).scanner.lookahead ≠ .unprimed := by
  fun_induction takeWhile accept text s with
  | case1 | case4 => exact hs
  | case2 text s c hc _ t ht ih =>
    have hprimed := primed_advance s
    rw [ht] at hprimed
    exact ih hprimed
  | case3 text s c hc _ e t ht =>
    have hprimed := primed_advance s
    rw [ht] at hprimed
    exact hprimed

theorem ahead_countLine (c : Char) (s : Scanner) : (countLine c s).ahead = s.ahead := by
  unfold countLine
  split <;> rfl

theorem inComment_countLine (c : Char) (s : Scanner) :
    (countLine c s).inComment = s.inComment := by
  unfold countLine
  split <;> rfl

theorem ahead_skipBlanks (s : Scanner) :
    s.skipBlanks.scanner.ahead = s.ahead.dropWhile Text.isBlank := by
  fun_induction skipBlanks s with
  | case1 s hc =>
    rw [Scanned.scanner_ok, ahead_of_current_none hc]
    rfl
  | case2 s c hc hblank t ht ih =>
    rw [ih, ← ahead_countLine c s, ahead_advance ((current_countLine c s).trans hc), ht,
      List.dropWhile_cons_of_pos hblank, Scanned.scanner_ok]
  | case3 s c hc hblank e t ht =>
    rw [← ahead_countLine c s, ahead_advance ((current_countLine c s).trans hc), ht,
      List.dropWhile_cons_of_pos hblank, Scanned.scanner_error, (ahead_of_advance_error ht).1]
    rfl
  | case4 s c hc hblank =>
    rw [Scanned.scanner_ok, ahead_of_current hc, List.dropWhile_cons_of_neg hblank]

theorem inComment_skipBlanks (s : Scanner) :
    s.skipBlanks.scanner.inComment = s.inComment := by
  fun_induction skipBlanks s with
  | case1 | case4 => rfl
  | case2 s c hc _ t ht ih =>
    rw [ih, ← inComment_countLine c s, ← inComment_advance (countLine c s), ht,
      Scanned.scanner_ok]
  | case3 s c hc _ e t ht =>
    rw [← inComment_countLine c s, ← inComment_advance (countLine c s), ht,
      Scanned.scanner_error]

theorem ahead_skipComment (s : Scanner) :
    s.skipComment.scanner.ahead = s.ahead.dropWhile (· != '\n') := by
  fun_induction skipComment s with
  | case1 s hc =>
    have hs : s.ahead = [] := ahead_of_current_none hc
    rw [hs]
    exact hs
  | case2 s hc =>
    have hs := ahead_of_current hc
    rw [hs, List.dropWhile_cons_of_neg (by decide)]
    exact hs
  | case3 s c hc hne t ht ih =>
    rw [ih, ahead_advance hc, ht, List.dropWhile_cons_of_pos (by simpa using hne),
      Scanned.scanner_ok]
  | case4 s c hc hne e t ht =>
    rw [ahead_advance hc, ht, List.dropWhile_cons_of_pos (by simpa using hne),
      Scanned.scanner_error, (ahead_of_advance_error ht).1]
    rfl

/-- A comment is left behind at its end. -/
theorem inComment_of_skipComment_ok (h : s.skipComment = .ok () t) : t.inComment = false := by
  fun_induction skipComment s with
  | case1 | case2 => cases h; rfl
  | case3 s c hc hne u hu ih => exact ih h
  | case4 => cases h

/-- A source that cannot be read in a comment leaves the scanner inside it. -/
theorem inComment_of_skipComment_error (h : s.skipComment = .error e t) :
    t.inComment = s.inComment := by
  fun_induction skipComment s with
  | case1 | case2 => cases h
  | case3 s c hc hne u hu ih => rw [ih h, ← inComment_advance s, hu, Scanned.scanner_ok]
  | case4 s c hc hne e' u hu =>
    cases h
    rw [← inComment_advance s, hu, Scanned.scanner_error]

theorem ahead_of_skipComment_error (h : s.skipComment = .error e t) :
    t.ahead = [] ∧ ∃ cause, e.fault = .unreadable cause := by
  fun_induction skipComment s with
  | case1 | case2 => cases h
  | case3 s c hc hne u hu ih => exact ih h
  | case4 s c hc hne e' u hu =>
    cases h
    exact ahead_of_advance_error hu

theorem ahead_of_skipBlanks_error (h : s.skipBlanks = .error e t) :
    t.ahead = [] ∧ ∃ cause, e.fault = .unreadable cause := by
  fun_induction skipBlanks s with
  | case1 | case4 => cases h
  | case2 s c hc hblank u hu ih => exact ih h
  | case3 s c hc hblank e' u hu =>
    cases h
    exact ahead_of_advance_error hu

/-- Passes over the rest of a comment, if the scanner is inside one. -/
def leaveComment (s : Scanner) : Scanned Unit :=
  if s.inComment then s.skipComment else .ok () s

theorem skipGap_eq (s : Scanner) :
    s.skipGap = s.leaveComment.andThen fun _ t => t.skipBlanks := by
  rw [skipGap, leaveComment]
  split <;> rfl

theorem ahead_leaveComment_suffix (s : Scanner) : s.leaveComment.scanner.ahead <:+ s.ahead := by
  unfold leaveComment
  split
  · rw [ahead_skipComment]
    exact List.dropWhile_suffix _
  · exact List.suffix_rfl

theorem skipComment_of_leaveComment_error (h : s.leaveComment = .error e t) :
    s.inComment = true ∧ s.skipComment = .error e t := by
  unfold leaveComment at h
  split at h
  · next hin => exact ⟨hin, h⟩
  · cases h

theorem inComment_of_leaveComment_ok (h : s.leaveComment = .ok () t) : t.inComment = false := by
  unfold leaveComment at h
  split at h
  · exact inComment_of_skipComment_ok h
  · next hin =>
    cases h
    exact Bool.eq_false_iff.2 hin

theorem ahead_skipGap_suffix (s : Scanner) : s.skipGap.scanner.ahead <:+ s.ahead := by
  have hcomment := ahead_leaveComment_suffix s
  rw [skipGap_eq]
  cases hs : s.leaveComment with
  | ok _ t =>
    rw [hs] at hcomment
    rw [Scanned.andThen_ok, ahead_skipBlanks]
    exact (List.dropWhile_suffix _).trans hcomment
  | error e t =>
    rw [hs] at hcomment
    exact hcomment

/-! ## Lexemes -/

/-- Whether a scanner that has read something has a rest of `text` ahead, and is inside a
    comment or not. -/
structure Leaves (text : List Char) (inComment : Bool) (t : Scanner) : Prop where
  ahead : t.ahead <:+ text
  inComment : t.inComment = inComment
  primed : t.lookahead ≠ .unprimed

variable {text : List Char} {inComment : Bool}

theorem Leaves.andThen {r : Scanned α} {f : α → Scanner → Scanned β}
    (h : Leaves text inComment r.scanner)
    (hf : ∀ a t, t.lookahead ≠ .unprimed → Leaves t.ahead t.inComment (f a t).scanner) :
    Leaves text inComment (r.andThen f).scanner := by
  cases r with
  | ok a t =>
    have ht := hf a t h.primed
    exact ⟨ht.ahead.trans h.ahead, ht.inComment.trans h.inComment, ht.primed⟩
  | error e t => exact h

theorem leaves_self (hs : s.lookahead ≠ .unprimed) : Leaves s.ahead s.inComment s :=
  ⟨List.suffix_rfl, rfl, hs⟩

theorem leaves_illegal {position : Position} (hs : s.lookahead ≠ .unprimed) :
    Leaves s.ahead s.inComment (s.illegal position c : Scanned α).scanner :=
  ⟨List.suffix_rfl, rfl, hs⟩

theorem leaves_advance (hc : s.current = some c) :
    Leaves s.ahead.tail s.inComment s.advance.scanner := by
  refine ⟨?_, inComment_advance s, primed_advance s⟩
  rw [ahead_advance hc]
  exact List.suffix_rfl

theorem leaves_advance_self (hc : s.current = some c) :
    Leaves s.ahead s.inComment s.advance.scanner :=
  ⟨(leaves_advance hc).ahead.trans (List.tail_suffix _), inComment_advance s, primed_advance s⟩

theorem leaves_takeWhile {accept : Char → Bool} (hc : s.current = some c)
    (haccept : accept c = true) (word : String) :
    Leaves s.ahead.tail s.inComment (s.takeWhile accept word).scanner := by
  refine ⟨?_, inComment_takeWhile accept word s,
    primed_takeWhile accept word s (primed_of_current hc)⟩
  rw [ahead_takeWhile, ahead_of_current hc, List.dropWhile_cons_of_pos haccept]
  exact List.dropWhile_suffix _

theorem leaves_pair (hc : s.current = some c) (start : Position) (second : Char)
    (both alone : Kind) :
    Leaves s.ahead.tail s.inComment (s.pair start second both alone).scanner := by
  refine (leaves_advance hc).andThen fun _ t ht => ?_
  split
  · next hsecond =>
    rw [Scanned.scanner_map]
    exact leaves_advance_self hsecond
  · exact leaves_self ht

theorem leaves_notEqual (hc : s.current = some c) (start : Position) :
    Leaves s.ahead.tail s.inComment (s.notEqual start).scanner := by
  refine (leaves_advance hc).andThen fun _ t ht => ?_
  split
  · next hd =>
    split
    · rw [Scanned.scanner_map]
      exact leaves_advance_self hd
    · split <;> exact leaves_illegal ht
  · exact leaves_illegal ht

/-- What the scanner makes of the characters ahead: the start of a comment, which is where two
    slashes stand, a token or an error that takes a character at least, or an error at a
    character that stays ahead. -/
inductive Takes (s : Scanner) : Scanned (Option Token) → Prop
  /-- A comment starts. -/
  | comment {u : Scanner} {v : List Char} : s.ahead = '/' :: '/' :: v → u.ahead = '/' :: v →
      u.inComment = true → Takes s (.ok none u)
  /-- A token. -/
  | token {token : Token} {u : Scanner} : (∀ v, s.ahead ≠ '/' :: '/' :: v) →
      Leaves s.ahead.tail s.inComment u → Takes s (.ok (some token) u)
  /-- A fault behind the character ahead. -/
  | fault {e : LexError} {u : Scanner} : (∀ v, s.ahead ≠ '/' :: '/' :: v) →
      Leaves s.ahead.tail s.inComment u → Takes s (.error e u)
  /-- The character ahead is at fault. -/
  | illegal {c : Char} : (∀ v, s.ahead ≠ '/' :: '/' :: v) → s.current = some c →
      Takes s (s.illegal s.position c)

theorem takes_map {r : Scanned α} (hslashes : ∀ v, s.ahead ≠ '/' :: '/' :: v)
    (hr : Leaves s.ahead.tail s.inComment r.scanner) (f : α → Token) :
    Takes s (r.map fun a => some (f a)) := by
  cases r with
  | ok a u => exact .token hslashes hr
  | error e u => exact .fault hslashes hr

theorem takes_slash (hc : s.current = some '/') (start : Position) :
    Takes s (s.slash start) := by
  have hahead := ahead_advance hc
  have hleaves := leaves_advance hc
  rw [slash]
  cases hs : s.advance with
  | error e t =>
    rw [hs] at hahead hleaves
    have ht : t.ahead = [] := (ahead_of_advance_error hs).1
    refine .fault (fun v hv => ?_) hleaves
    rw [hahead, Scanned.scanner_error, ht] at hv
    cases hv
  | ok _ t =>
    rw [hs] at hahead hleaves
    rw [Scanned.andThen_ok]
    split
    · next hsecond =>
      have ht := ahead_of_current hsecond
      rw [Scanned.scanner_ok, ht] at hahead
      exact .comment hahead ht rfl
    · next hsecond =>
      refine .token (fun v hv => hsecond ?_) hleaves
      rw [hahead, Scanned.scanner_ok] at hv
      rw [← head?_ahead, List.tail_eq_of_cons_eq hv, List.head?_cons]

/-- What the scanner makes of the character ahead. -/
theorem takes_lexeme (hc : s.current = some c) : Takes s (s.lexeme s.position c) := by
  have hslashes (hne : c ≠ '/') (v : List Char) : s.ahead ≠ '/' :: '/' :: v := by
    rw [ahead_of_current hc]
    exact fun h => hne (List.head_eq_of_cons_eq h)
  unfold lexeme
  split
  · next h =>
    have hword : isWordChar c = true := by simp [isWordChar, Char.isAlphanum, h]
    exact takes_map (hslashes (by rintro rfl; cases h)) (leaves_takeWhile hc hword _) _
  split
  · next h =>
    exact takes_map (hslashes (by rintro rfl; cases h)) (leaves_takeWhile hc h _) _
  split
  · next h =>
    subst h
    exact takes_slash hc _
  next hne =>
  iterate 3
    split
    · exact takes_map (hslashes hne) (leaves_pair hc _ _ _ _) id
  split
  · exact takes_map (hslashes hne) (leaves_notEqual hc _) id
  split
  · exact takes_map (hslashes hne) (leaves_advance hc) _
  · exact .illegal (hslashes hne) hc

/-! ## Tokens -/

/-- Whether a scanner that has read something has fewer characters ahead than another. -/
def Fewer (s t : Scanner) : Prop :=
  t.lookahead ≠ .unprimed ∧ t.ahead.length < s.ahead.length

theorem Leaves.fewer {u : Scanner} (h : Leaves s.ahead.tail inComment u)
    (hc : s.current = some c) : Fewer s u := by
  have := h.ahead.length_le
  rw [ahead_of_current hc] at this
  refine ⟨h.primed, ?_⟩
  rw [ahead_of_current hc]
  exact Nat.lt_succ_of_le this

theorem Fewer.of_le {u : Scanner} (h : Fewer t u) (hle : t.ahead.length ≤ s.ahead.length) :
    Fewer s u :=
  ⟨h.1, Nat.lt_of_lt_of_le h.2 hle⟩

/-- How far scanning for a token brings a scanner: fewer characters are ahead, unless it is
    at the end of the source, or the source cannot be read, or the character ahead is at
    fault. -/
def Shrinks (s : Scanner) : Scanned Token → Prop
  | .ok token t => token.isEof = true ∨ Fewer s t
  | .error e t => (∃ cause, e.fault = .unreadable cause) ∨ Fewer s t ∨
      t.ahead.length ≤ s.ahead.length ∧
        ∃ c, e = ⟨t.position, .illegalCharacter c⟩ ∧ t.current = some c

theorem Shrinks.of_le {r : Scanned Token} (h : Shrinks t r)
    (hle : t.ahead.length ≤ s.ahead.length) : Shrinks s r := by
  cases r with
  | ok token u => exact h.imp_right fun hu => hu.of_le hle
  | error e u =>
    exact h.imp_right (Or.imp (fun hu => hu.of_le hle) fun ⟨hu, hillegal⟩ =>
      ⟨Nat.le_trans hu hle, hillegal⟩)

theorem unreadable_of_skipGap_error (h : s.skipGap = .error e t) :
    ∃ cause, e.fault = .unreadable cause := by
  rw [skipGap_eq] at h
  rcases Scanned.andThen_eq_error h with h | ⟨_, u, -, h⟩
  · exact (ahead_of_skipComment_error (skipComment_of_leaveComment_error h).2).2
  · exact (ahead_of_skipBlanks_error h).2

/-- A token or an error leaves fewer characters ahead. -/
theorem shrinks_nextToken (s : Scanner) : Shrinks s s.nextToken := by
  fun_induction nextToken s with
  | case1 s e t hg => exact .inl (unreadable_of_skipGap_error hg)
  | case2 s t hg hc => exact .inl rfl
  | case3 s t hg c hc e u hl =>
    have hle := (ahead_skipGap_suffix s).length_le
    have htakes := takes_lexeme hc
    rw [hg] at hle
    rw [hl] at htakes
    refine Shrinks.of_le (t := t) ?_ hle
    cases htakes with
    | fault _ hleaves => exact .inr (.inl (hleaves.fewer hc))
    | illegal _ hc => exact .inr (.inr ⟨Nat.le_refl _, _, rfl, hc⟩)
  | case4 s t hg c hc token u hl =>
    have hle := (ahead_skipGap_suffix s).length_le
    have htakes := takes_lexeme hc
    rw [hg] at hle
    rw [hl] at htakes
    cases htakes with
    | token _ hleaves => exact .inr ((hleaves.fewer hc).of_le hle)
  | case5 s t hg c hc u hl ih =>
    have hle := (ahead_skipGap_suffix s).length_le
    have htakes := takes_lexeme hc
    rw [hg] at hle
    rw [hl] at htakes
    cases htakes with
    | comment ht hu =>
      -- the first of the two slashes was taken, and the scan goes on inside the comment
      refine ih.of_le (Nat.le_trans ?_ hle)
      rw [Scanned.scanner_ok, ht, hu]
      exact Nat.le_succ _

end Scanner

end TinyLang

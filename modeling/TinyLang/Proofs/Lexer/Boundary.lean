import TinyLang.Proofs.Lexer.Uniqueness

/-!
# The ends of lexemes

What a lexeme is depends on the text behind it only through the first character there. So a
lexeme at the end of a text stays what it is if the text goes on with a character that cannot
be part of it (`Lexer.Ends`): a blank ends every lexeme (`Lexer.ends_of_isBlank`), and a
comment ends every lexeme but a slash and an exclamation mark (`Lexer.ends_slash`). If there
is more of the text behind a lexeme, it makes no difference how the text goes on
(`Lexer.Lexeme.append_cons`).
-/

namespace TinyLang

namespace Lexer

variable {text rest gap gap' s : List Char} {d : Char} {i : Item} {is : List Item}

/-! ## Characters behind a lexeme -/

/-- Whether a lexeme `s` does not go on with the character `d`. -/
structure Ends (s : List Char) (d : Char) : Prop where
  word : Text.isInWord d = false
  symbol : ∀ k : Kind, k.tag = .ofList s → k.second? ≠ some d
  mark : s = ['!'] → Text.isBlank d = true

/-- No lexeme goes on across a blank. -/
theorem ends_of_isBlank (hd : Text.isBlank d = true) (s : List Char) : Ends s d where
  word := by
    by_contra hword
    rw [isBlank_of_isInWord (by simpa using hword)] at hd
    cases hd
  symbol k _ hsecond := by
    have hall : ∀ k ∈ Kind.all, k.second?.all (!Text.isBlank ·) = true := by decide
    have := hall k k.mem_all
    rw [hsecond, Option.all_some, hd] at this
    cases this
  mark _ := hd

/-- A lexeme goes on with a slash only if it is a slash or an exclamation mark itself. -/
theorem ends_slash (hs : ∀ c, s.getLast? = some c → c ≠ '/' ∧ c ≠ '!') : Ends s '/' where
  word := by decide
  symbol k htag hsecond := by
    have hall : ∀ k ∈ Kind.all, k.second? = some '/' → k.tag = .ofList ['/'] := by decide
    obtain rfl := String.ofList_injective (htag.symm.trans (hall k k.mem_all hsecond))
    exact (hs '/' rfl).1 rfl
  mark := by
    rintro rfl
    exact absurd rfl (hs '!' rfl).2

/-! ## Texts that go on -/

theorem Stops.append_cons {accept : Char → Bool} (h : Stops accept rest)
    (hd : rest = [] → accept d = false) (more : List Char) : Stops accept (rest ++ d :: more) := by
  cases rest with
  | nil =>
    rintro _ ⟨⟩
    exact hd rfl
  | cons => exact h

/-- A gap stays one if there is more of the text behind it, or a line end comes next. -/
theorem Gap.append_cons (h : Gap rest gap) (hd : rest = [] → d = '\n') (more : List Char) :
    Gap (rest ++ d :: more) gap := by
  induction h with
  | nil => exact .nil
  | blank hc _ ih => exact .blank hc ih
  | @comment body gap hbody hline _ ih =>
    refine .comment hbody ?_ ih
    rw [← List.append_assoc]
    generalize hrest : gap ++ rest = r at hline
    cases r with
    | nil =>
      rintro _ ⟨⟩
      exact hd (List.append_eq_nil_iff.1 hrest).2
    | cons => exact hline

theorem Longest.append_cons {k : Kind} (h : Longest rest k s) (hd : rest = [] → Ends s d)
    (more : List Char) : Longest (rest ++ d :: more) k s := by
  have hword : rest = [] → Text.isInWord d = false := fun hrest => (hd hrest).word
  cases h with
  | name hc hw hreserved hstops =>
    exact .name hc hw hreserved (hstops.append_cons hword more)
  | reserved hk hstops => exact .reserved hk (hstops.append_cons hword more)
  | number hc hw hstops =>
    refine .number hc hw (hstops.append_cons (fun hrest => ?_) more)
    by_contra hdigit
    have := isInWord_of_isDigit (by simpa using hdigit)
    rw [hword hrest] at this
    cases this
  | symbol hk htag hsecond =>
    refine .symbol hk htag fun c hc => ?_
    cases rest with
    | nil =>
      rintro ⟨⟩
      exact (hd rfl).symbol k htag hc
    | cons => exact hsecond c hc

/-- A lexeme stays one if there is more of the text behind it, or a character that it does not
    go on with comes next. -/
theorem Lexeme.append_cons (h : Lexeme text s rest i) (hd : rest = [] → Ends s d)
    (more : List Char) : Lexeme text s (rest ++ d :: more) i := by
  cases h with
  | token hspelling hk hposition => exact .token hspelling (hk.append_cons hd more) hposition
  | illegal hs hblank hnone => exact .illegal hs hblank hnone
  | mark hs hrest =>
    refine .mark hs ?_
    cases rest with
    | nil =>
      rintro _ ⟨⟩
      exact (hd rfl).mark hs
    | cons => exact hrest
  | half hs hblank hne => exact .half hs hblank hne

/-! ## Gaps one behind the other -/

theorem Gap.append (h : Gap rest gap') (h' : Gap (gap' ++ rest) gap) : Gap rest (gap ++ gap') := by
  induction h' with
  | nil => exact h
  | blank hc _ ih => exact .blank hc ih
  | comment hbody hline _ ih =>
    rw [List.append_assoc]
    refine .comment hbody (fun c hc => hline c ?_) ih
    rwa [List.append_assoc] at hc

/-- A gap that comes before a divided text belongs to the first gap of it. -/
theorem Divides.prepend_gap (h : Divides (text ++ gap) rest is) (hgap : Gap rest gap) :
    Divides text (gap ++ rest) is := by
  generalize htext : text ++ gap = before at h
  cases h with
  | @done _ gap' hgap' =>
    refine .done (hgap'.append ?_)
    rwa [List.append_nil]
  | @item _ gap' s rest i is hgap' hi hd =>
    subst htext
    rw [List.append_assoc text gap gap'] at hi hd
    rw [← List.append_assoc]
    exact .item (hgap'.append hgap) hi hd

end Lexer

end TinyLang

import TinyLang.Proofs.Lexer.Halting
import TinyLang.Proofs.Lexer.Uniqueness

/-!
# The order of tokens

The tokens of a text stand one behind the other (`pairwise_of_lex_eq_ok`): what is divided
off a text has a character at least, so each lexeme leaves a later position behind it
(`Position.compare_behind_append`). The end of the input stands behind all of them and comes
once.
-/

namespace TinyLang

namespace Position

variable {p q r : Position}

theorem compare_eq_lt_iff :
    p.compare q = .lt ↔ p.line < q.line ∨ p.line = q.line ∧ p.column < q.column := by
  rw [compare, Ordering.then_eq_lt, Nat.compare_eq_lt, Nat.compare_eq_eq, Nat.compare_eq_lt]

theorem compare_trans (h : p.compare q = .lt) (h' : q.compare r = .lt) : p.compare r = .lt := by
  rw [compare_eq_lt_iff] at *
  omega

theorem compare_behind_singleton (text : List Char) (c : Char) :
    (behind text).compare (behind (text ++ [c])) = .lt := by
  rw [compare_eq_lt_iff]
  by_cases hc : c = '\n'
  · subst hc
    rw [behind_append_newline]
    exact .inl (Nat.lt_succ_self _)
  · rw [behind_append hc]
    exact .inr ⟨rfl, Nat.lt_succ_self _⟩

/-- What is behind a longer text comes later. -/
theorem compare_behind_append {s : List Char} (hs : s ≠ []) (text : List Char) :
    (behind text).compare (behind (text ++ s)) = .lt := by
  induction s generalizing text with
  | nil => exact absurd rfl hs
  | cons c s ih =>
    have hfirst := compare_behind_singleton text c
    by_cases hnil : s = []
    · rw [hnil]
      exact hfirst
    · have := ih hnil (text ++ [c])
      rw [List.append_assoc] at this
      exact compare_trans hfirst this

end Position

namespace Lexer

variable {text rest : List Char} {is : List Item}

/-- A token stands before a part of the text that is not empty. -/
theorem Divides.exists_behind (h : Divides text rest is) {t : Token} (ht : .ok t ∈ is) :
    ∃ before after, rest = before ++ after ∧ after ≠ [] ∧ t.position = .behind (text ++ before) := by
  induction h with
  | done => cases ht
  | @item text gap s rest i is _ hi _ ih =>
    rcases List.mem_cons.1 ht with rfl | ht
    · obtain ⟨c, w, rfl, -⟩ := hi.exists_cons
      cases hi with
      | token _ _ hposition => exact ⟨gap, _, rfl, by simp, hposition⟩
    · obtain ⟨before, after, rfl, hafter, hposition⟩ := ih ht
      exact ⟨gap ++ (s ++ before), after, by simp, hafter, by simpa using hposition⟩

/-- The tokens of a divided text stand one behind the other. -/
theorem Divides.pairwise (h : Divides text rest is) :
    (is.filterMap Item.token?).Pairwise fun t u => t.position.compare u.position = .lt := by
  induction h with
  | done => exact .nil
  | @item text gap s rest i is _ hi hd ih =>
    cases i with
    | error e => exact ih
    | ok t =>
      refine List.pairwise_cons.2 ⟨fun u hu => ?_, ih⟩
      obtain ⟨before, after, -, -, hposition⟩ := hd.exists_behind (mem_filterMap_token?_iff.1 hu)
      obtain ⟨c, w, rfl, -⟩ := hi.exists_cons
      cases hi with
      | token _ _ htoken =>
        rw [htoken, hposition, List.append_assoc _ (c :: w)]
        exact Position.compare_behind_append (by simp) _

end Lexer

/-- The tokens of a text are those of a division of it, and the end of the input behind
    them. -/
theorem exists_divides_of_lex_eq_ok {text : String} {ts : TokenList} (h : lex text = .ok ts) :
    ∃ is, Lexer.Divides [] text.toList is ∧
      ts = is.filterMap Lexer.Item.token? ++ [.eof (.behind text.toList)] := by
  obtain ⟨is, hdivides⟩ := Lexer.exists_divides text
  refine ⟨is, hdivides, ?_⟩
  rw [Lexing.lex_eq_result, Lexer.collect_of_divides hdivides] at h
  rw [← (Lexing.hasErrors_of_result_eq_ok h).2, Lexing.ofItems, List.filterMap_append]
  rfl

/-- The tokens of a text stand one behind the other, and the end of the input stands behind
    all of them. -/
theorem pairwise_of_lex_eq_ok {text : String} {ts : TokenList} (h : lex text = .ok ts) :
    ts.Pairwise fun t u => t.position.compare u.position = .lt := by
  obtain ⟨is, hdivides, rfl⟩ := exists_divides_of_lex_eq_ok h
  refine List.pairwise_append.2 ⟨hdivides.pairwise, List.pairwise_singleton _ _, ?_⟩
  intro t ht u hu
  obtain rfl := List.mem_singleton.1 hu
  obtain ⟨before, after, hrest, hafter, hposition⟩ :=
    hdivides.exists_behind (Lexer.mem_filterMap_token?_iff.1 ht)
  rw [hposition, hrest]
  exact Position.compare_behind_append hafter _

end TinyLang

import Mathlib
import TinyLang.Proofs.Parser.Move

/-!
# Input

What a parser reads is the kinds of the tokens up to the end of the input
(`Parser.input`). A parser that matches tokens takes a word off its input and is
otherwise as it was, up to the recorded matches (`Parser.Matched`). One that looks
for the program passes over what comes before it (`Parser.seek_eq`).
-/

namespace TinyLang

open KindSet

namespace TokenList

/-- The kinds of the tokens before the end of the input. -/
def input (ts : TokenList) : List Kind := kinds (ts.takeWhile fun t => !t.isEof)

theorem input_isPrefix (ts : TokenList) : ts.input <+: ts.kinds :=
  (List.takeWhile_prefix _).map _

theorem eof_notMem_input (ts : TokenList) : Kind.eof ∉ ts.input := by
  intro h
  obtain ⟨t, ht, hk⟩ := List.mem_map.1 h
  simpa [Token.isEof, hk] using List.mem_takeWhile_imp ht

theorem input_cons {t : Token} (h : t.kind ≠ .eof) (ts : TokenList) :
    input (t :: ts) = t.kind :: input ts := by
  have : (!t.isEof) = true := by simpa [Token.isEof] using h
  simp [input, kinds, this]

theorem input_cons_of_eof {t : Token} (h : t.kind = .eof) (ts : TokenList) :
    input (t :: ts) = [] := by
  have : (!t.isEof) = false := by simp [Token.isEof, h]
  simp [input, kinds, this]

/-- Tokens none of which is the end of the input come first. -/
theorem input_append {ts : TokenList} (h : ∀ t ∈ ts, t.kind ≠ .eof) (us : TokenList) :
    input (ts ++ us) = kinds ts ++ input us := by
  induction ts with
  | nil => rfl
  | cons t ts ih =>
    rw [List.cons_append, input_cons (h t List.mem_cons_self),
      ih fun t ht => h t (List.mem_cons_of_mem _ ht)]
    rfl

end TokenList

/-! ## Places further on -/

namespace Cursor

/-- The cursor some tokens further on. -/
def skip (c : Cursor) (n : Nat) : Cursor :=
  { c with rest := c.rest.drop n, index := c.index + n }

@[simp] theorem skip_zero (c : Cursor) : c.skip 0 = c := rfl

@[simp]
theorem skip_skip (c : Cursor) (m n : Nat) : (c.skip m).skip n = c.skip (m + n) := by
  simp [skip, Nat.add_assoc]

theorem advance_eq_skip {c : Cursor} (h : c.kind ≠ .eof) : c.advance = c.skip 1 := by
  have : ¬ c.atEnd = true := by simpa [atEnd] using h
  rw [advance, if_neg this, skip, List.drop_one]

theorem synchronize_eq_skip (stops : KindSet) (c : Cursor) :
    c.synchronize stops = c.skip (c.rest.takeWhile (isSkipped stops)).length := by
  have h : (c.rest.takeWhile (isSkipped stops) ++ c.rest.dropWhile (isSkipped stops)).drop
      (c.rest.takeWhile (isSkipped stops)).length = c.rest.dropWhile (isSkipped stops) :=
    List.drop_left
  rw [List.takeWhile_append_dropWhile] at h
  rw [synchronize, skip, h]

theorem isSkipped_single {k : Kind} {t : Token} :
    isSkipped (single k) t = true ↔ t.kind ≠ .eof ∧ t.kind ≠ k := by
  simp [isSkipped, Token.isEof, ne_comm]

/-- A cursor on the way to a kind of `stops` stops there, or at the end of the input. -/
theorem kind_synchronize (stops : KindSet) (c : Cursor) :
    stops.contains (c.synchronize stops).kind = true ∨ (c.synchronize stops).kind = .eof := by
  have hkind : (c.synchronize stops).kind =
      ((c.rest.dropWhile (isSkipped stops)).head?.getD (.eof c.finish)).kind := rfl
  have hstops := List.head?_dropWhile_not (isSkipped stops) c.rest
  rw [hkind]
  cases h : c.rest.dropWhile (isSkipped stops) with
  | nil => exact .inr rfl
  | cons t rest =>
    rw [h, List.head?_cons] at hstops
    rw [List.head?_cons, Option.getD_some]
    have hnot : isSkipped stops t = false := hstops
    by_cases heof : t.kind = .eof
    · exact .inr heof
    · left
      simpa [isSkipped, Token.isEof, heof] using hnot

/-- The token that a cursor finds some tokens further on. -/
theorem current_skip_ofList (ts : TokenList) (n : Nat) :
    ((ofList ts).skip n).current = ts[n]?.getD (.eof (ofList ts).finish) := by
  simp [current, skip, ofList, List.head?_drop]

end Cursor

namespace Parser

/-- The kinds of the tokens from the parser on, up to the end of the input. -/
def input (p : Parser) : List Kind := p.cursor.rest.input

theorem headD_input (p : Parser) : p.input.headD .eof = p.kind := by
  obtain ⟨_, ⟨rest, _, _⟩, _, _, _, _⟩ := p
  cases rest with
  | nil => rfl
  | cons t ts =>
    by_cases h : t.kind = .eof
    · rw [input, TokenList.input_cons_of_eof h]
      exact h.symm
    · rw [input, TokenList.input_cons h]
      rfl

theorem input_eq_nil {p : Parser} (h : p.kind = .eof) : p.input = [] := by
  cases hi : p.input with
  | nil => rfl
  | cons k w =>
    have hk : k = .eof := by
      rw [← h, ← headD_input, hi]
      rfl
    have hmem : Kind.eof ∈ p.input := by simp [hi, hk]
    exact absurd hmem (TokenList.eof_notMem_input _)

/-! ## Matched tokens -/

/-- The parser `q` is the parser `p` after it matched tokens of the kinds `w`. -/
structure Matched (w : List Kind) (p q : Parser) : Prop where
  input : p.input = w ++ q.input
  state : q = { p with cursor := p.cursor.skip w.length, trace := q.trace }

namespace Matched

variable {p q r : Parser} {u w : List Kind}

theorem refl (p : Parser) : Matched [] p p := ⟨rfl, rfl⟩

theorem trans (h : Matched u p q) (h' : Matched w q r) : Matched (u ++ w) p r := by
  refine ⟨?_, ?_⟩
  · rw [h.input, h'.input, List.append_assoc]
  · rw [h'.state, h.state]
    simp

theorem cursor (h : Matched w p q) : q.cursor = p.cursor.skip w.length := by rw [h.state]

theorem options (h : Matched w p q) : q.options = p.options := by rw [h.state]

theorem errors (h : Matched w p q) : q.errors = p.errors := by rw [h.state]

theorem skipped (h : Matched w p q) : q.skipped = p.skipped := by rw [h.state]

theorem lastErrorAt (h : Matched w p q) : q.lastErrorAt = p.lastErrorAt := by rw [h.state]

end Matched

theorem matched_accept {p : Parser} (h : p.kind ≠ .eof) (rule : Rule) :
    Matched [p.kind] p (p.accept rule) := by
  refine ⟨?_, ?_⟩
  · have hcursor : (p.accept rule).cursor = p.cursor.skip 1 := Cursor.advance_eq_skip h
    rw [input, input, hcursor]
    obtain ⟨_, ⟨rest, _, _⟩, _, _, _, _⟩ := p
    cases rest with
    | nil => exact absurd rfl h
    | cons t ts => exact TokenList.input_cons h ts
  · rw [accept, Cursor.advance_eq_skip h]
    rfl

/-! ## Errors -/

/-- A parser that met no error. -/
structure Fresh (p : Parser) : Prop where
  errors : p.errors = #[]
  lastErrorAt : p.lastErrorAt = none

theorem Fresh.of_matched {p q : Parser} {w : List Kind} (hp : Fresh p) (h : Matched w p q) :
    Fresh q :=
  ⟨h.errors.trans hp.errors, h.lastErrorAt.trans hp.lastErrorAt⟩

section Note

variable {p : Parser} (expected : Expected) (rule : Rule) (follow : KindSet)

theorem cursor_note (p : Parser) : (p.note expected rule follow).cursor = p.cursor := by
  rw [note]
  split <;> rfl

theorem options_note (p : Parser) : (p.note expected rule follow).options = p.options := by
  rw [note]
  split <;> rfl

theorem errors_note (hp : Fresh p) :
    (p.note expected rule follow).errors = #[⟨expected, rule.name, p.cursor.current, follow⟩] := by
  have : ¬ p.lastErrorAt = some p.cursor.index := by simp [hp.lastErrorAt]
  rw [note, if_neg this, hp.errors]
  rfl

/-- A parser that stops at the first error stops at every one. -/
theorem mustStop_note (h : p.options.recovery = .halt) :
    (p.note expected rule follow).mustStop = true := by
  rw [mustStop, options_note, h]

end Note

/-! ## Tokens passed over -/

/-- Behind tokens that are passed over comes one that is looked for, or the end of the input. -/
theorem kind_recover (stops : KindSet) (p : Parser) :
    stops.contains (p.recover stops).kind = true ∨ (p.recover stops).kind = .eof :=
  Cursor.kind_synchronize stops p.cursor

/-! ## The start of the program -/

/-- What comes before the program is passed over. -/
theorem seek_eq (p : Parser) :
    ∃ w, p.input = w ++ p.seek.input ∧ .kwProgram ∉ w ∧
      p.seek = { p with cursor := p.cursor.skip w.length, skipped := p.skipped + w.length } := by
  have hskipped : ∀ t ∈ p.cursor.rest.takeWhile (Cursor.isSkipped (single .kwProgram)),
      t.kind ≠ .eof ∧ t.kind ≠ .kwProgram := by
    intro t ht
    exact Cursor.isSkipped_single.1 (List.mem_takeWhile_imp ht)
  refine ⟨TokenList.kinds (p.cursor.rest.takeWhile (Cursor.isSkipped (single .kwProgram))),
    ?_, ?_, ?_⟩
  · have := TokenList.input_append (fun t ht => (hskipped t ht).1)
      (p.cursor.rest.dropWhile (Cursor.isSkipped (single .kwProgram)))
    rwa [List.takeWhile_append_dropWhile] at this
  · intro h
    obtain ⟨t, ht, hk⟩ := List.mem_map.1 h
    exact (hskipped t ht).2 hk
  · rw [seek, recover, Cursor.synchronize_eq_skip, TokenList.kinds, List.length_map]
    simp [Cursor.distance, Cursor.skip]

/-- The parser finds the program, or the end of the input. -/
theorem kind_seek (p : Parser) : p.seek.kind = .kwProgram ∨ p.seek.kind = .eof := by
  have hseek : p.seek.kind = (p.recover (single .kwProgram)).kind := rfl
  have hrecover := kind_recover (single .kwProgram) p
  rw [contains_single, beq_iff_eq] at hrecover
  rw [hseek]
  exact hrecover.imp_left Eq.symm

end Parser

end TinyLang

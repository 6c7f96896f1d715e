import TinyLang.Proofs.Parser.Outline

/-!
# Walks of a cursor

A cursor in a list of tokens is told to pass the token at it, or to pass over tokens up to one of
some kinds, in any order. Whatever it was told, it stands in the list at the end of the input or
before it (`Cursor.standsIn_run`), and what it does next is told by its place alone
(`Cursor.Walks`): before the end it passes the tokens of the list one after the other, at the end
it stays, and it is synchronized at the first place to stop at.

The end of the input is the place of the first one in the list. A list without one has it behind
its last token, where the cursor finds an end of its own.
-/

namespace TinyLang

namespace TokenList

/-- The place of the end of the input: that of the first one in the list, or the place behind
    all tokens if there is none. -/
def endIndex (ts : TokenList) : Nat := ts.findIdx Token.isEof

/-- Whether a cursor on the way to a kind of `stops` stops at a place: a token of such a kind is
    there, or the end of the input is. -/
def StopsAt (ts : TokenList) (stops : KindSet) (i : Nat) : Prop :=
  i = ts.endIndex ∨ ∃ t, ts[i]? = some t ∧ stops.contains t.kind = true

theorem length_input (ts : TokenList) : ts.input.length = ts.endIndex := by
  rw [input, kinds, List.length_map, List.takeWhile_eq_take_findIdx_not,
    List.length_take_of_le List.findIdx_le_length]
  simp only [Bool.not_not, endIndex]

theorem kind_tokenAt_endIndex (ts : TokenList) : (ts.tokenAt ts.endIndex).kind = .eof := by
  rw [tokenAt]
  by_cases h : ts.endIndex < ts.length
  · have heof : (ts[ts.endIndex]).isEof = true := List.findIdx_getElem
    rw [List.getElem?_eq_getElem h, Option.getD_some]
    exact beq_iff_eq.1 heof
  · rw [List.getElem?_eq_none (Nat.le_of_not_lt h)]
    rfl

end TokenList

namespace Cursor

/-! ## Calls -/

/-- What a cursor is told. -/
inductive Call where
  /-- To pass the token at it. -/
  | advance
  /-- To pass over tokens up to one of a kind of `stops`. -/
  | synchronize (stops : KindSet)

/-- What a cursor answers. -/
inductive Answer where
  /-- The token that was at it. -/
  | token (t : Token)
  /-- How far it went. -/
  | distance (n : Nat)

/-- The answer of a cursor to a call. -/
def answer (c : Cursor) : Call → Answer
  | .advance => .token c.current
  | .synchronize stops => .distance (c.distance (c.synchronize stops))

/-- The cursor after a call. -/
def step (c : Cursor) : Call → Cursor
  | .advance => c.advance
  | .synchronize stops => c.synchronize stops

/-- The answers to calls, one after the other, and the cursor after them. -/
def run (c : Cursor) : List Call → List Answer × Cursor
  | [] => ([], c)
  | call :: calls => (c.answer call :: ((c.step call).run calls).1, ((c.step call).run calls).2)

variable {ts : TokenList} {c : Cursor}

/-! ## One call -/

theorem standsIn_step (h : c.StandsIn ts) (call : Call) : (c.step call).StandsIn ts := by
  cases call with
  | advance =>
    by_cases hk : c.kind = .eof
    · rwa [step, Cursor.advance, if_pos (by simp [atEnd, hk])]
    · exact h.advance hk
  | synchronize stops => exact h.synchronize stops

theorem finish_step (c : Cursor) (call : Call) : (c.step call).finish = c.finish := by
  cases call with
  | advance => exact finish_advance c
  | synchronize stops => rfl

theorem index_le_step (c : Cursor) (call : Call) : c.index ≤ (c.step call).index := by
  cases call with
  | advance =>
    rw [step, advance]
    split
    · exact Nat.le_refl _
    · exact Nat.le_succ _
  | synchronize stops => exact Nat.le_add_right _ _

/-! ## Many calls -/

theorem standsIn_run (h : c.StandsIn ts) (calls : List Call) : (c.run calls).2.StandsIn ts := by
  induction calls generalizing c with
  | nil => exact h
  | cons call calls ih => exact ih (standsIn_step h call)

theorem finish_run (c : Cursor) (calls : List Call) : (c.run calls).2.finish = c.finish := by
  induction calls generalizing c with
  | nil => rfl
  | cons call calls ih => exact (ih _).trans (finish_step c call)

theorem index_le_run (c : Cursor) (calls : List Call) : c.index ≤ (c.run calls).2.index := by
  induction calls generalizing c with
  | nil => exact Nat.le_refl _
  | cons call calls ih => exact (index_le_step c call).trans (ih _)

/-! ## The end of the input -/

namespace StandsIn

theorem index_le_endIndex (h : c.StandsIn ts) : c.index ≤ ts.endIndex :=
  h.index_le_input.trans_eq ts.length_input

/-- A cursor finds the end of the input at its place and nowhere else. -/
theorem kind_eq_eof_iff (h : c.StandsIn ts) (hfinish : c.finish = (ofList ts).finish) :
    c.kind = .eof ↔ c.index = ts.endIndex := by
  rw [Cursor.kind, h.current hfinish]
  refine ⟨fun hk => ?_, fun hi => hi ▸ ts.kind_tokenAt_endIndex⟩
  refine Nat.le_antisymm h.index_le_endIndex (Nat.le_of_not_lt fun hlt => ?_)
  have hlength : c.index < ts.length := hlt.trans_le List.findIdx_le_length
  rw [TokenList.tokenAt, List.getElem?_eq_getElem hlength, Option.getD_some] at hk
  exact Bool.false_ne_true ((List.not_of_lt_findIdx hlt).symm.trans (beq_iff_eq.2 hk))

/-! ## Passing tokens -/

theorem run_advances (h : c.StandsIn ts) (hfinish : c.finish = (ofList ts).finish) {n : Nat}
    (hn : c.index + n ≤ ts.endIndex) :
    c.run (.replicate n .advance) = (((ts.drop c.index).take n).map .token, c.skip n) := by
  induction n generalizing c with
  | zero => rfl
  | succ n ih =>
    have hk : c.kind ≠ .eof := by
      rw [Ne, h.kind_eq_eof_iff hfinish]
      omega
    have hstep : c.step .advance = c.skip 1 := advance_eq_skip hk
    have hstands : (c.skip 1).StandsIn ts := hstep ▸ standsIn_step h .advance
    have hindex : (c.skip 1).index = c.index + 1 := rfl
    have hrest := ih hstands hfinish (by omega)
    have hdrop : ts.drop c.index = c.current :: ts.drop (c.index + 1) := by
      rw [← List.tail_drop, ← h.rest, ← List.cons_head?_tail (head?_rest hk)]
      rfl
    rw [List.replicate_succ, run, hstep, hrest, skip_skip, Nat.add_comm 1 n, hdrop,
      List.take_succ_cons, List.map_cons]
    rfl

theorem run_advances_end (h : c.StandsIn ts) (hfinish : c.finish = (ofList ts).finish)
    (hend : c.index = ts.endIndex) (n : Nat) :
    c.run (.replicate n .advance) = (.replicate n (.token (ts.tokenAt ts.endIndex)), c) := by
  have hk : c.kind = .eof := (h.kind_eq_eof_iff hfinish).2 hend
  have hstep : c.step .advance = c := if_pos (by simp [atEnd, hk])
  have hanswer : c.answer .advance = .token (ts.tokenAt ts.endIndex) := by
    rw [answer, h.current hfinish, hend]
  induction n with
  | zero => rfl
  | succ n ih => rw [List.replicate_succ, run, hstep, ih, hanswer, List.replicate_succ]

/-! ## Passing over tokens -/

/-- Behind tokens that are passed over is a place to stop at. -/
theorem stopsAt_synchronize (h : c.StandsIn ts) (hfinish : c.finish = (ofList ts).finish)
    (stops : KindSet) : ts.StopsAt stops (c.synchronize stops).index := by
  have hstands := h.synchronize stops
  have hiff := hstands.kind_eq_eof_iff hfinish
  by_cases hk : (c.synchronize stops).kind = .eof
  · exact .inl (hiff.1 hk)
  · have hstop : stops.contains (c.synchronize stops).kind = true :=
      (kind_synchronize stops c).resolve_right hk
    exact .inr ⟨_, hstands.getElem?.trans (head?_rest hk), hstop⟩

/-- Tokens that are passed over are not at a place to stop at. -/
theorem index_synchronize_le (h : c.StandsIn ts) {stops : KindSet} {i : Nat} (hi : c.index ≤ i)
    (hstop : ts.StopsAt stops i) : (c.synchronize stops).index ≤ i := by
  refine Nat.le_of_not_lt fun hlt => ?_
  rcases hstop with rfl | ⟨t, ht, hcontains⟩
  · exact absurd (h.synchronize stops).index_le_endIndex (Nat.not_le_of_lt hlt)
  · have hindex : (c.synchronize stops).index =
        c.index + (c.rest.takeWhile (isSkipped stops)).length := rfl
    have hrest : c.rest[i - c.index]? = some t := by
      rw [h.rest, List.getElem?_drop, Nat.add_sub_cancel' hi, ht]
    rw [← List.takeWhile_append_dropWhile (p := isSkipped stops) (l := c.rest),
      List.getElem?_append_left (by omega)] at hrest
    have hskipped := List.mem_takeWhile_imp (List.mem_of_getElem? hrest)
    simp [isSkipped, hcontains] at hskipped

end StandsIn

/-! ## Whatever was told -/

/-- What is true of a cursor in the list `ts`, whatever it was told before. -/
structure Walks (ts : TokenList) (c : Cursor) : Prop where
  /-- It stands at the end of the input or before it. -/
  index_le : c.index ≤ ts.endIndex
  /-- It does not go back. -/
  forward : ∀ calls, c.index ≤ (c.run calls).2.index
  /-- The tokens before it and those that remain, without ends of the input, are all that there
      are. -/
  index_add_remaining : c.index + c.remaining = ts.countP fun t => !t.isEof
  /-- Before the end it passes the tokens of the list one after the other. -/
  advances : ∀ n, c.index + n ≤ ts.endIndex →
    (c.run (.replicate n .advance)).1 = ((ts.drop c.index).take n).map .token ∧
      (c.run (.replicate n .advance)).2.index = c.index + n
  /-- At the end it answers with the end of the input, any number of times, and stays as it is. -/
  still : c.index = ts.endIndex → (ts.tokenAt ts.endIndex).isEof = true ∧
    ∀ n, c.run (.replicate n .advance) = (.replicate n (.token (ts.tokenAt ts.endIndex)), c)
  /-- It is synchronized at the first place to stop at, answers with the way to it, and is then
      as if it had passed the tokens on the way one after the other. -/
  synchronizes : ∀ stops, ∃ n, c.answer (.synchronize stops) = .distance n ∧
    IsLeast {i | c.index ≤ i ∧ ts.StopsAt stops i} (c.index + n) ∧
    (c.step (.synchronize stops)).index = c.index + n ∧
    c.step (.synchronize stops) = (c.run (.replicate n .advance)).2

theorem StandsIn.walks (h : c.StandsIn ts) (hfinish : c.finish = (ofList ts).finish) :
    Walks ts c where
  index_le := h.index_le_endIndex
  forward := index_le_run c
  index_add_remaining := h.index_add_remaining
  advances n hn := by
    rw [h.run_advances hfinish hn]
    exact ⟨rfl, rfl⟩
  still hend := ⟨beq_iff_eq.2 ts.kind_tokenAt_endIndex, h.run_advances_end hfinish hend⟩
  synchronizes stops := by
    have hle : c.index ≤ (c.synchronize stops).index := Nat.le_add_right _ _
    have hindex : c.index + c.distance (c.synchronize stops) = (c.synchronize stops).index :=
      Nat.add_sub_cancel' hle
    have hskip : c.synchronize stops = c.skip (c.distance (c.synchronize stops)) := by
      have hdistance : c.distance (c.synchronize stops) =
          (c.rest.takeWhile (isSkipped stops)).length := Nat.add_sub_cancel_left ..
      rw [hdistance]
      exact synchronize_eq_skip stops c
    have hend : c.index + c.distance (c.synchronize stops) ≤ ts.endIndex :=
      hindex ▸ (h.synchronize stops).index_le_endIndex
    refine ⟨c.distance (c.synchronize stops), rfl, ?_, hindex.symm, ?_⟩
    · rw [hindex]
      exact ⟨⟨hle, h.stopsAt_synchronize hfinish stops⟩, fun i hi => h.index_synchronize_le hi.1 hi.2⟩
    · rw [h.run_advances hfinish hend]
      exact hskip

end Cursor

/-- Whatever a cursor at the first token of a list was told, it walks in the list: it goes forward
    up to the end of the input, token by token or to the first place to stop at, and stays there.
    No token before the end is given twice or left out by passing one after the other. -/
theorem cursor_walks (ts : TokenList) (calls : List Cursor.Call) :
    Cursor.Walks ts ((Cursor.ofList ts).run calls).2 :=
  (Cursor.standsIn_run (Cursor.standsIn_ofList ts) calls).walks (Cursor.finish_run _ calls)

end TinyLang

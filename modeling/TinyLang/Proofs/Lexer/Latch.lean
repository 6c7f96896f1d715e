import TinyLang.Proofs.Lexer.Halting

/-!
# The latch of a scanner

A scanner remembers that it met an error: an error sets its latch, and nothing else touches
it (`Scanned.Latches`). This holds of every part of scanning, over any source. So a lexer has
failed if and only if it gave an error (`Lexer.isFailed_drain`).
-/

namespace TinyLang

variable {α β : Type}

/-- Whether a part of scanning that starts with the latch `failed` leaves it as it is, or sets
    it with an error. -/
def Scanned.Latches (failed : Bool) : Scanned α → Prop
  | .ok _ s => s.failed = failed
  | .error _ s => s.failed = true

theorem Scanned.Latches.of_ok {failed : Bool} {r : Scanned α} {a : α} {s : Scanner}
    (h : r.Latches failed) (hr : r = .ok a s) : s.failed = failed := by
  rwa [hr] at h

theorem Scanned.Latches.of_error {failed : Bool} {r : Scanned α} {e : LexError} {s : Scanner}
    (h : r.Latches failed) (hr : r = .error e s) : s.failed = true := by
  rwa [hr] at h

theorem Scanned.Latches.andThen {failed : Bool} {r : Scanned α} {f : α → Scanner → Scanned β}
    (h : r.Latches failed) (hf : ∀ a s, (f a s).Latches s.failed) :
    (r.andThen f).Latches failed := by
  cases r with
  | ok a s =>
    have hs : s.failed = failed := h
    exact hs ▸ hf a s
  | error e s => exact h

theorem Scanned.Latches.map {failed : Bool} {r : Scanned α} (h : r.Latches failed) (f : α → β) :
    (r.map f).Latches failed :=
  h.andThen fun _ _ => rfl

namespace Scanner

/-! ## Parts of scanning -/

theorem latches_read (s : Scanner) : s.read.Latches s.failed := by
  unfold read
  dsimp only
  split <;> rfl

theorem latches_advance (s : Scanner) : s.advance.Latches s.failed := by
  unfold advance
  split
  · rfl
  · exact latches_read s

theorem latches_takeWhile (accept : Char → Bool) (text : String) (s : Scanner) :
    (s.takeWhile accept text).Latches s.failed := by
  fun_induction takeWhile accept text s with
  | case1 | case4 => rfl
  | case2 text s c hc _ t ht ih => rwa [← (latches_advance s).of_ok ht]
  | case3 text s c hc _ e t ht => exact (latches_advance s).of_error ht

theorem latches_skipComment (s : Scanner) : s.skipComment.Latches s.failed := by
  fun_induction skipComment s with
  | case1 | case2 => rfl
  | case3 s c hc _ t ht ih => rwa [← (latches_advance s).of_ok ht]
  | case4 s c hc _ e t ht => exact (latches_advance s).of_error ht

theorem failed_countLine (c : Char) (s : Scanner) : (countLine c s).failed = s.failed := by
  unfold countLine
  split <;> rfl

theorem latches_skipBlanks (s : Scanner) : s.skipBlanks.Latches s.failed := by
  fun_induction skipBlanks s with
  | case1 | case4 => rfl
  | case2 s c hc _ t ht ih =>
    rwa [← failed_countLine c s, ← (latches_advance (countLine c s)).of_ok ht]
  | case3 s c hc _ e t ht => exact (latches_advance (countLine c s)).of_error ht

theorem latches_skipGap (s : Scanner) : s.skipGap.Latches s.failed := by
  unfold skipGap
  split
  · exact (latches_skipComment s).andThen fun _ t => latches_skipBlanks t
  · exact latches_skipBlanks s

theorem latches_pair (s : Scanner) (start : Position) (second : Char) (both alone : Kind) :
    (s.pair start second both alone).Latches s.failed := by
  refine (latches_advance s).andThen fun _ t => ?_
  split
  · exact (latches_advance t).map _
  · rfl

theorem latches_notEqual (s : Scanner) (start : Position) :
    (s.notEqual start).Latches s.failed := by
  refine (latches_advance s).andThen fun _ t => ?_
  split
  · split
    · exact (latches_advance t).map _
    · split <;> rfl
  · rfl

theorem latches_slash (s : Scanner) (start : Position) : (s.slash start).Latches s.failed := by
  refine (latches_advance s).andThen fun _ t => ?_
  split <;> rfl

theorem latches_lexeme (s : Scanner) (start : Position) (c : Char) :
    (s.lexeme start c).Latches s.failed := by
  unfold lexeme
  split
  · exact (latches_takeWhile _ _ s).map _
  split
  · exact (latches_takeWhile _ _ s).map _
  split
  · exact latches_slash s start
  iterate 3
    split
    · exact (latches_pair s start _ _ _).map _
  split
  · exact (latches_notEqual s start).map _
  split
  · exact (latches_advance s).map _
  · rfl

/-! ## Tokens -/

theorem latches_nextToken (s : Scanner) : s.nextToken.Latches s.failed := by
  fun_induction nextToken s with
  | case1 s e t hg => exact (latches_skipGap s).of_error hg
  | case2 s t hg hc => exact (latches_skipGap s).of_ok hg
  | case3 s t hg c hc e u hl => exact (latches_lexeme t t.position c).of_error hl
  | case4 s t hg c hc token u hl =>
    have hgap := (latches_skipGap s).of_ok hg
    have hlexeme := (latches_lexeme t t.position c).of_ok hl
    exact hlexeme.trans hgap
  | case5 s t hg c hc u hl ih =>
    have hgap := (latches_skipGap s).of_ok hg
    have hlexeme := (latches_lexeme t t.position c).of_ok hl
    rwa [hlexeme, hgap] at ih

theorem latches_scan (s : Scanner) : s.scan.Latches s.failed := by
  refine Scanned.Latches.andThen ?_ fun _ t => latches_nextToken t
  unfold prime
  split
  · exact latches_read s
  · rfl

end Scanner

/-! ## Items -/

namespace Lexer

variable {lx lx' : Lexer} {item : Item}

theorem latches_scan (lx : Lexer) : lx.scan.Latches lx.isFailed := by
  unfold scan
  split
  · exact (Scanner.latches_advance _).andThen fun _ t => Scanner.latches_scan t
  · exact Scanner.latches_scan _

/-- A lexer fails with an error and with nothing else. -/
theorem isFailed_of_next (h : lx.next = some (item, lx')) :
    lx'.isFailed = true ↔ lx.isFailed = true ∨ ∃ e, item = .error e := by
  have hlatches := latches_scan lx
  have hsettle := (settle_of_next h).2
  have hscanner : lx'.scanner = lx.scan.scanner := by
    rw [← scanner_settle lx.mode, hsettle]
  rw [isFailed, hscanner]
  generalize lx.scan = r at *
  cases r with
  | ok t s =>
    have hs : s.failed = lx.isFailed := hlatches
    cases hsettle
    simp [hs]
  | error e s =>
    have hs : s.failed = true := hlatches
    cases hsettle
    simp [hs]

/-- A lexer at its end has failed if and only if it had failed before or gave an error. -/
theorem isFailed_drain (lx : Lexer) (before : Array Item) :
    (lx.drain before).2.isFailed = true ↔
      lx.isFailed = true ∨ ∃ e, .error e ∈ lx.items := by
  fun_induction drain lx before with
  | case1 lx before hnone => simp [items_of_next_none hnone]
  | case2 lx before item lx' hsome ih =>
    rw [ih, isFailed_of_next hsome, items_of_next_some hsome]
    simp only [List.mem_cons, exists_or, or_assoc, eq_comm]

theorem next_drain (lx : Lexer) (before : Array Item) : (lx.drain before).2.next = none := by
  fun_induction drain lx before with
  | case1 lx before hnone => exact hnone
  | case2 lx before item lx' hsome ih => exact ih

end Lexer

end TinyLang

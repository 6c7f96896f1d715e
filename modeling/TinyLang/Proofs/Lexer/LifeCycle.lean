import TinyLang.Proofs.Lexer.Failure
import TinyLang.Proofs.Lexer.OpenComment

/-!
# The life of a lexer

A lexer is asked for items, and set to other sources, in any order. What it does with a source
is what a fresh lexer does with it, and the same holds of it each time (`Lexer.LifeCycle`): it
gives items, at most one more than there are characters, the last one once, and then nothing,
and it stays as it is. It has failed if and only if it gave an error, and it is inside a comment
if and only if the source could not be read in one that was not closed.

Each item but the last one takes a character off those that are left (`Lexer.left_next_lt`), also
where a character was reported and is still ahead. All else is kept by each call
(`Lexer.lifeCycle_step_next`), and so by all of them, one after the other
(`Lexer.lifeCycle_run`).
-/

namespace TinyLang

namespace Lexer

variable {lx lx' : Lexer} {item : Item} {e : LexError} {s t : Scanner} {mode : Mode}

/-! ## One item -/

/-- Makes the scanner ready for a token: passes over the character that was reported, or reads
    the first one. -/
def ready (lx : Lexer) : Scanned Unit :=
  if lx.skipPending then lx.scanner.advance else lx.scanner.prime

/-- The characters left for the next item and those behind it. -/
def left (lx : Lexer) : List Char := lx.ready.scanner.ahead

theorem scan_eq (lx : Lexer) : lx.scan = lx.ready.andThen fun _ t => t.nextToken := by
  unfold scan ready
  split
  · have hprimed := lx.scanner.primed_advance
    cases hs : lx.scanner.advance with
    | ok _ t =>
      rw [hs] at hprimed
      exact Scanner.scan_of_lookahead_ne hprimed
    | error e t => rfl
  · rfl

theorem of_ready_error (h : lx.ready = .error e t) :
    t.ahead = [] ∧ ∃ cause, e.fault = .unreadable cause := by
  unfold ready at h
  split at h
  · exact Scanner.ahead_of_advance_error h
  · unfold Scanner.prime at h
    split at h
    · exact Scanner.ahead_of_read_error h
    · cases h

theorem inComment_ready (lx : Lexer) : lx.ready.scanner.inComment = lx.isInComment := by
  unfold ready
  split
  · exact Scanner.inComment_advance _
  · unfold Scanner.prime
    split
    · exact Scanner.inComment_read _
    · rfl

/-- What is left without a character that was reported. -/
theorem left_le (hprimed : s.lookahead ≠ .unprimed) (mode : Mode) (skipPending finished : Bool) :
    (left { scanner := s, mode, skipPending, finished }).length ≤ s.ahead.length := by
  unfold left ready
  dsimp only
  split
  · cases hc : s.current with
    | some c => exact (Scanner.leaves_advance_self hc).ahead.length_le
    | none =>
      have heof : s.lookahead = .eof := by
        unfold Scanner.current at hc
        split at hc <;> simp_all
      rw [Scanner.advance, if_pos heof, Scanned.scanner_ok]
  · rw [Scanner.prime, if_neg hprimed, Scanned.scanner_ok]

theorem left_afterError_le (hprimed : s.lookahead ≠ .unprimed) (mode : Mode) (e : LexError) :
    (afterError mode e s).left.length ≤ s.ahead.length := by
  unfold afterError
  split <;> exact left_le hprimed _ _ _

/-- A character that was reported and is still ahead is not left. -/
theorem left_afterError_lt {c : Char} (hc : s.current = some c) :
    (afterError .collectAll ⟨s.position, .illegalCharacter c⟩ s).left.length <
      s.ahead.length := by
  have hpending : (s.current == some c && s.position == s.position) = true := by simp [hc]
  unfold afterError
  dsimp only
  rw [hpending, left, ready, if_pos rfl, Scanner.ahead_advance hc]
  exact Nat.lt_succ_self _

theorem finished_afterError (h : ∃ cause, e.fault = .unreadable cause) (mode : Mode)
    (s : Scanner) : (afterError mode e s).finished = true := by
  obtain ⟨cause, hcause⟩ := h
  obtain ⟨position, fault⟩ := e
  subst hcause
  exact finished_afterError_unreadable mode position s

/-- An item leaves fewer characters, unless it is the last. -/
theorem left_next_lt (h : lx.next = some (item, lx')) :
    lx'.finished = true ∨ lx'.left.length < lx.left.length := by
  have hsettle := (settle_of_next h).2
  rw [scan_eq] at hsettle
  unfold left
  cases hready : lx.ready with
  | error e t =>
    rw [hready] at hsettle
    cases hsettle
    exact .inl (finished_afterError (of_ready_error hready).2 _ _)
  | ok _ t =>
    rw [hready, Scanned.andThen_ok] at hsettle
    have hshrinks := t.shrinks_nextToken
    generalize t.nextToken = r at hsettle hshrinks
    cases r with
    | ok token u =>
      cases hsettle
      refine hshrinks.imp_right fun hfewer => ?_
      exact Nat.lt_of_le_of_lt (left_le hfewer.1 _ _ _) hfewer.2
    | error e u =>
      cases hsettle
      rcases hshrinks with hcause | hfewer | ⟨hle, c, rfl, hc⟩
      · exact .inl (finished_afterError hcause _ _)
      · exact .inr (Nat.lt_of_le_of_lt (left_afterError_le hfewer.1 _ _) hfewer.2)
      · -- the character at fault is still ahead, but a lexer that goes on passes over it
        cases lx.mode with
        | halt => exact .inl rfl
        | collectAll => exact .inr (Nat.lt_of_lt_of_le (left_afterError_lt hc) hle)

/-- A lexer is left inside a comment if and only if its source could not be read in one that
    was not closed. -/
theorem isInComment_next (h : lx.next = some (item, lx')) (hin : lx.isInComment = false) :
    lx'.isInComment = true ↔
      (∃ position cause, item = .error ⟨position, .unreadable cause⟩) ∧ EndsInComment lx.left := by
  have hsettle := (settle_of_next h).2
  have hready := inComment_ready lx
  have hscanner : lx'.isInComment = lx.scan.scanner.inComment := by
    rw [isInComment, ← scanner_settle lx.mode, hsettle]
  rw [scan_eq] at hsettle hscanner
  rw [hscanner, left]
  rw [hin] at hready
  cases hr : lx.ready with
  | error e t =>
    rw [hr, Scanned.scanner_error] at hready
    rw [Scanned.andThen_error, Scanned.scanner_error, Scanned.scanner_error, hready,
      (of_ready_error hr).1]
    simp [not_endsInComment_nil]
  | ok _ t =>
    rw [hr, Scanned.scanner_ok] at hready
    rw [hr, Scanned.andThen_ok] at hsettle
    rw [Scanned.andThen_ok, Scanned.scanner_ok]
    have hcloses := t.closes_nextToken
    have hunclosed : t.Unclosed ↔ EndsInComment t.ahead := by
      rw [Scanner.Unclosed, hready, if_neg Bool.false_ne_true]
    generalize t.nextToken = r at hsettle hcloses
    cases r with
    | ok token u =>
      cases hsettle
      have hu : u.inComment = false := hcloses
      simp [hu]
    | error e u =>
      cases hsettle
      obtain ⟨hiff, hcause⟩ := hcloses
      rw [hunclosed] at hiff
      refine ⟨fun hu => ⟨?_, hiff.1 hu⟩, fun h => hiff.2 h.2⟩
      obtain ⟨cause, hfault⟩ := hcause hu
      exact ⟨e.position, cause, by rw [← hfault]⟩

/-- Whether nothing comes behind an item: behind the end of the input, a source that cannot be
    read, and any error if the first one ends the lexer. -/
def Item.isLast (mode : Mode) : Item → Bool
  | .ok t => t.isEof
  | .error ⟨_, .unreadable _⟩ => true
  | .error ⟨_, .illegalCharacter _⟩ => mode == .halt

theorem finished_next (h : lx.next = some (item, lx')) :
    lx'.finished = item.isLast lx.mode ∧ lx'.mode = lx.mode := by
  have hsettle := (settle_of_next h).2
  cases hs : lx.scan with
  | ok token s =>
    rw [hs] at hsettle
    cases hsettle
    exact ⟨rfl, rfl⟩
  | error e s =>
    rw [hs] at hsettle
    cases hsettle
    obtain ⟨position, fault⟩ := e
    cases fault <;> cases lx.mode <;> exact ⟨rfl, rfl⟩

theorem finished_of_next_none (h : lx.next = none) : lx.finished = true := by
  by_contra hne
  rw [next, if_neg hne] at h
  cases h

/-! ## Histories -/

/-- What is done with a lexer. -/
inductive Call where
  /-- It is asked for the next item. -/
  | next
  /-- It is set to another source. -/
  | reset (source : Source)

/-- What became of a lexer since it was set to a source. -/
structure History where
  /-- The source that it was last set to. -/
  source : Source
  /-- What it gave since then. -/
  given : List (Option Item)
  /-- The lexer now. -/
  lexer : Lexer

namespace History

/-- The history of a lexer that was just made. -/
def start (mode : Mode) (source : Source) : History := ⟨source, [], ofSource mode source⟩

/-- The history after one more call. -/
def step (h : History) : Call → History
  | .next =>
    match h.lexer.next with
    | none => { h with given := h.given ++ [none] }
    | some (item, lexer) => { h with given := h.given ++ [some item], lexer }
  | .reset source => ⟨source, [], h.lexer.reset source⟩

/-- The history after more calls. -/
def run (h : History) (calls : List Call) : History := calls.foldl step h

/-- The history of a fresh lexer that was asked for items `n` times. -/
def fresh (mode : Mode) (source : Source) (n : Nat) : History :=
  (start mode source).run (.replicate n .next)

theorem step_next_none {h : History} (hnext : h.lexer.next = none) :
    h.step .next = { h with given := h.given ++ [none] } := by
  rw [step, hnext]

theorem step_next_some {h : History} (hnext : h.lexer.next = some (item, lx')) :
    h.step .next = { h with given := h.given ++ [some item], lexer := lx' } := by
  rw [step, hnext]

@[simp]
theorem source_step_next (h : History) : (h.step .next).source = h.source := by
  cases hnext : h.lexer.next with
  | none => rw [step_next_none hnext]
  | some given => rw [step_next_some hnext]

@[simp]
theorem length_step_next (h : History) :
    (h.step .next).given.length = h.given.length + 1 := by
  cases hnext : h.lexer.next with
  | none => rw [step_next_none hnext, List.length_append, List.length_singleton]
  | some given => rw [step_next_some hnext, List.length_append, List.length_singleton]

theorem fresh_succ (mode : Mode) (source : Source) (n : Nat) :
    fresh mode source (n + 1) = (fresh mode source n).step .next := by
  rw [fresh, run, List.replicate_succ', List.foldl_append]
  rfl

end History

open History

/-- Whether the source could not be read where the `i`-th item was asked for, in a comment that
    was not closed. -/
def FailsInComment (mode : Mode) (h : History) (i : Nat) : Prop :=
  (∃ position cause, h.given[i]? = some (some (.error ⟨position, .unreadable cause⟩))) ∧
    EndsInComment (fresh mode h.source i).lexer.left

/-- What is true of a lexer in a mode, counted from where it was last set to a source. -/
structure LifeCycle (mode : Mode) (h : History) : Prop where
  /-- It is as a fresh lexer of that source would be. -/
  same : h = fresh mode h.source h.given.length
  /-- It has failed if and only if it gave an error. -/
  failed : h.lexer.isFailed = true ↔ ∃ e, some (.error e) ∈ h.given
  /-- Behind the last item comes nothing, and so it goes on. -/
  last : h.given.Pairwise fun r r' => r.all (Item.isLast mode) = true → r' = none
  /-- There is at most one last item. -/
  once : h.given.countP (Option.any (Item.isLast mode)) ≤ 1
  /-- Once it gave nothing, it stays as it is. -/
  still : ∀ i : Nat, h.given[i]? = some none → (fresh mode h.source i).lexer = h.lexer
  /-- It gave at most one item more than there are characters. -/
  bound : h.given.countP Option.isSome ≤ h.source.readable.length + 1
  /-- It is inside a comment if and only if the source could not be read in one that was not
      closed. -/
  comment : h.lexer.isInComment = true ↔ ∃ i, FailsInComment mode h i

/-- A lexer is at its end if and only if it gave the last item, or nothing. Before that, what it
    gave are no more items than there were characters before those that are left. -/
structure RunsOut (mode : Mode) (h : History) : Prop where
  inMode : h.lexer.mode = mode
  finished : h.lexer.finished = true ↔ ∃ r ∈ h.given, r.all (Item.isLast mode) = true
  left : h.given.countP Option.isSome + (if h.lexer.finished then 0 else h.lexer.left.length + 1) ≤
    h.source.readable.length + 1

variable {h : History} {source : Source}

theorem left_ofSource (mode : Mode) (source : Source) :
    (ofSource mode source).left = source.readable :=
  Scanner.ahead_read _

theorem runsOut_start (mode : Mode) (source : Source) : RunsOut mode (start mode source) := by
  refine ⟨rfl, by simp [start, ofSource], ?_⟩
  rw [start, left_ofSource]
  simp [ofSource]

theorem runsOut_step_next (hruns : RunsOut mode h) : RunsOut mode (h.step .next) := by
  cases hnext : h.lexer.next with
  | none =>
    have hfinished := finished_of_next_none hnext
    rw [step_next_none hnext]
    refine ⟨hruns.inMode, ?_, ?_⟩
    · simp [hfinished]
    · have hleft := hruns.left
      rw [List.countP_append]
      simpa [hfinished] using hleft
  | some given =>
    obtain ⟨item, lx'⟩ := given
    have hfinished := (settle_of_next hnext).1
    obtain ⟨hlast, hmode⟩ := finished_next hnext
    rw [hruns.inMode] at hlast hmode
    rw [step_next_some hnext]
    refine ⟨hmode, ?_, ?_⟩
    · have hnone := hruns.finished
      simp only [hfinished, Bool.false_eq_true, false_iff] at hnone
      simp only [List.mem_append, List.mem_singleton, or_and_right, exists_or, exists_eq_left,
        hnone, false_or, Option.all_some, hlast]
    · have hleft := hruns.left
      rw [if_neg (by simp [hfinished])] at hleft
      rw [List.countP_append, List.countP_singleton, Option.isSome_some, if_pos rfl]
      dsimp only
      split
      · omega
      · next hne =>
        have := (left_next_lt hnext).resolve_left hne
        omega

theorem lifeCycle_start (mode : Mode) (source : Source) : LifeCycle mode (start mode source) where
  same := rfl
  failed := by simp [start, ofSource, isFailed, Scanner.ofSource]
  last := .nil
  once := Nat.zero_le _
  still := by simp [start]
  bound := Nat.zero_le _
  comment := by simp [start, ofSource, isInComment, Scanner.ofSource, FailsInComment]

/-- If nothing comes behind a last item, then there is at most one. -/
theorem countP_isLast_le {given : List (Option Item)}
    (h : given.Pairwise fun r r' => r.all (Item.isLast mode) = true → r' = none) :
    given.countP (Option.any (Item.isLast mode)) ≤ 1 := by
  induction h with
  | nil => exact Nat.zero_le _
  | @cons r given hr _ ih =>
    rw [List.countP_cons]
    split
    · next hlast =>
      have hall : r.all (Item.isLast mode) = true := by
        cases r with
        | none => rfl
        | some item => exact hlast
      have hzero : given.countP (Option.any (Item.isLast mode)) = 0 := by
        rw [List.countP_eq_zero]
        intro r' hr'
        rw [hr r' hr' hall]
        exact Bool.false_ne_true
      rw [hzero]
    · exact ih

/-- Behind the last item, and behind nothing, comes nothing. -/
theorem last_step_next (hruns : RunsOut mode h)
    (hlast : h.given.Pairwise fun r r' => r.all (Item.isLast mode) = true → r' = none) :
    (h.step .next).given.Pairwise fun r r' => r.all (Item.isLast mode) = true → r' = none := by
  have hend : ∀ r ∈ h.given, r.all (Item.isLast mode) = true → h.lexer.next = none :=
    fun r hr hall => next_of_finished (hruns.finished.2 ⟨r, hr, hall⟩)
  cases hnext : h.lexer.next with
  | none =>
    rw [step_next_none hnext]
    refine List.pairwise_append.2 ⟨hlast, List.pairwise_singleton _ _, ?_⟩
    rintro r - r' hr' -
    exact List.mem_singleton.1 hr'
  | some given =>
    rw [step_next_some hnext]
    refine List.pairwise_append.2 ⟨hlast, List.pairwise_singleton _ _, ?_⟩
    rintro r hr r' - hall
    rw [hend r hr hall] at hnext
    cases hnext

theorem failed_step_next
    (hfailed : h.lexer.isFailed = true ↔ ∃ e, some (.error e) ∈ h.given) :
    (h.step .next).lexer.isFailed = true ↔ ∃ e, some (.error e) ∈ (h.step .next).given := by
  cases hnext : h.lexer.next with
  | none =>
    rw [step_next_none hnext]
    simpa using hfailed
  | some given =>
    rw [step_next_some hnext, isFailed_of_next hnext, hfailed]
    simp only [List.mem_append, List.mem_singleton, Option.some.injEq, exists_or, eq_comm]

/-- What was given before is not changed by a further item. -/
theorem getElem?_append_singleton {given : List (Option Item)} {r r' : Option Item} {i : Nat} :
    (given ++ [r])[i]? = some r' ↔ given[i]? = some r' ∨ i = given.length ∧ r = r' := by
  rcases Nat.lt_trichotomy i given.length with hlt | rfl | hlt
  · rw [List.getElem?_append_left hlt]
    simp [Nat.ne_of_lt hlt]
  · simp
  · rw [List.getElem?_eq_none (by simp; omega), List.getElem?_eq_none (Nat.le_of_lt hlt)]
    simp [Nat.ne_of_gt hlt]

theorem still_step_next (hruns : RunsOut mode h)
    (hsame : h = fresh mode h.source h.given.length)
    (hstill : ∀ i : Nat, h.given[i]? = some none → (fresh mode h.source i).lexer = h.lexer) :
    ∀ i : Nat, (h.step .next).given[i]? = some none →
      (fresh mode h.source i).lexer = (h.step .next).lexer := by
  intro i hi
  cases hnext : h.lexer.next with
  | none =>
    rw [step_next_none hnext] at hi ⊢
    rcases getElem?_append_singleton.1 hi with hi | ⟨rfl, -⟩
    · exact hstill i hi
    · rw [← hsame]
  | some given =>
    rw [step_next_some hnext] at hi
    rcases getElem?_append_singleton.1 hi with hi | ⟨-, hi⟩
    · have hfinished : h.lexer.finished = true :=
        hruns.finished.2 ⟨none, List.mem_of_getElem? hi, rfl⟩
      rw [next_of_finished hfinished] at hnext
      cases hnext
    · cases hi

theorem comment_step_next (hruns : RunsOut mode h)
    (hsame : h = fresh mode h.source h.given.length)
    (hcomment : h.lexer.isInComment = true ↔ ∃ i, FailsInComment mode h i) :
    (h.step .next).lexer.isInComment = true ↔ ∃ i, FailsInComment mode (h.step .next) i := by
  cases hnext : h.lexer.next with
  | none =>
    rw [step_next_none hnext]
    simpa [FailsInComment, getElem?_append_singleton] using hcomment
  | some given =>
    obtain ⟨item, lx'⟩ := given
    -- the lexer was not at its end, so nothing before this item can have failed
    have hbefore (i : Nat) (position : Position) (cause : ReadError) :
        h.given[i]? ≠ some (some (.error ⟨position, .unreadable cause⟩)) := by
      intro hi
      have hfinished : h.lexer.finished = true :=
        hruns.finished.2 ⟨_, List.mem_of_getElem? hi, rfl⟩
      rw [next_of_finished hfinished] at hnext
      cases hnext
    have hin : h.lexer.isInComment = false := by
      rw [← Bool.not_eq_true, hcomment]
      rintro ⟨i, ⟨position, cause, hi⟩, -⟩
      exact hbefore i position cause hi
    rw [step_next_some hnext, isInComment_next hnext hin]
    simp only [FailsInComment, getElem?_append_singleton, hbefore, false_or, Option.some.injEq]
    constructor
    · rintro ⟨⟨position, cause, hitem⟩, hends⟩
      exact ⟨_, ⟨position, cause, rfl, hitem⟩, hsame ▸ hends⟩
    · rintro ⟨i, ⟨position, cause, rfl, hitem⟩, hends⟩
      rw [← hsame] at hends
      exact ⟨⟨position, cause, hitem⟩, hends⟩

theorem lifeCycle_step_next (hruns : RunsOut mode h) (hlife : LifeCycle mode h) :
    LifeCycle mode (h.step .next) := by
  have hlast := last_step_next hruns hlife.last
  refine ⟨?_, failed_step_next hlife.failed, hlast, countP_isLast_le hlast, ?_, ?_,
    comment_step_next hruns hlife.same hlife.comment⟩
  · rw [source_step_next, length_step_next, fresh_succ, ← hlife.same]
  · rw [source_step_next]
    exact still_step_next hruns hlife.same hlife.still
  · exact Nat.le_trans (Nat.le_add_right _ _) (runsOut_step_next hruns).left

/-- A lexer that is set to another source starts again. -/
theorem step_reset (hruns : RunsOut mode h) (source : Source) :
    h.step (.reset source) = start mode source := by
  rw [step, reset, hruns.inMode, start]

theorem lifeCycle_run (mode : Mode) (source : Source) (calls : List Call) :
    RunsOut mode ((start mode source).run calls) ∧
      LifeCycle mode ((start mode source).run calls) := by
  -- the induction is on the calls, the last one first
  induction calls using List.reverseRecOn with
  | nil => exact ⟨runsOut_start mode source, lifeCycle_start mode source⟩
  | append_singleton calls call ih =>
    obtain ⟨hruns, hlife⟩ := ih
    have hstep : (start mode source).run (calls ++ [call]) =
        ((start mode source).run calls).step call := List.foldl_append
    rw [hstep]
    cases call with
    | next => exact ⟨runsOut_step_next hruns, lifeCycle_step_next hruns hlife⟩
    | reset source' =>
      rw [step_reset hruns]
      exact ⟨runsOut_start mode source', lifeCycle_start mode source'⟩

end Lexer

/-- Whatever was done with a lexer, it is in one of the states that `Lexer.LifeCycle` tells of,
    and from the next source on it is as if it had been made for it. -/
theorem lexer_lifeCycle (mode : Lexer.Mode) (source : Source) (calls : List Lexer.Call) :
    Lexer.LifeCycle mode ((Lexer.History.start mode source).run calls) ∧
      ∀ (source' : Source) (more : List Lexer.Call),
        (Lexer.History.start mode source).run (calls ++ .reset source' :: more) =
          (Lexer.History.start mode source').run more := by
  obtain ⟨hruns, hlife⟩ := Lexer.lifeCycle_run mode source calls
  refine ⟨hlife, fun source' more => ?_⟩
  rw [Lexer.History.run, List.foldl_append, List.foldl_cons]
  exact congrArg (Lexer.History.run · more) (Lexer.step_reset hruns source')

end TinyLang

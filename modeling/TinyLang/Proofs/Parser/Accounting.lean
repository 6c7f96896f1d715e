import TinyLang.Proofs.Parser.Actions
import TinyLang.Proofs.Parser.Options

/-!
# Where the tokens go

Every token that a parser passes is matched or passed over, and none is passed over
without an error at the first token of its run (`parse_accounts`). The tokens before the
program are passed over without an error; there is no end of the input among the tokens
passed, and so they and those left behind the program are all that there are.

This is an invariant of the parser (`Parser.Accounted`), kept by each of its actions. Tokens
are passed over only where an error has been noted: the place of the last error is then that
of the parser, and an error that is not noted again is one that was noted there before.
-/

namespace TinyLang

open KindSet

/-- The kind of a token, and where it stands. -/
def Token.site (t : Token) : Kind × Position := (t.kind, t.position)

/-- The kind of a matched token, and where it stands. -/
def Match.site (m : Match) : Kind × Position := (m.kind, m.position)

/-! ## Cursors in a list -/

namespace Cursor

/-- The cursor stands at a place of the list `ts`, with no end of the input before it. -/
structure StandsIn (ts : TokenList) (c : Cursor) : Prop where
  rest : c.rest = ts.drop c.index
  index_le : c.index ≤ ts.length
  passed : ∀ t ∈ ts.take c.index, t.kind ≠ .eof

variable {ts : TokenList} {c : Cursor}

theorem standsIn_ofList (ts : TokenList) : (ofList ts).StandsIn ts :=
  ⟨rfl, Nat.zero_le _, nofun⟩

/-- At a token that is not the end of the input there is a token. -/
theorem head?_rest (hk : c.kind ≠ .eof) : c.rest.head? = some c.current := by
  cases h : c.rest with
  | nil =>
    rw [kind, current, h] at hk
    exact absurd rfl hk
  | cons t rest =>
    rw [current, h]
    rfl

namespace StandsIn

/-- The token at the cursor, if there is one, is that of the list. -/
theorem getElem? (h : c.StandsIn ts) : ts[c.index]? = c.rest.head? := by
  rw [h.rest, List.head?_drop]

theorem skip (h : c.StandsIn ts) {n : Nat} (hn : n ≤ c.rest.length)
    (hpassed : ∀ t ∈ c.rest.take n, t.kind ≠ .eof) : (c.skip n).StandsIn ts := by
  refine ⟨?_, ?_, ?_⟩
  · show c.rest.drop n = ts.drop (c.index + n)
    rw [h.rest, List.drop_drop]
  · show c.index + n ≤ ts.length
    rw [h.rest, List.length_drop] at hn
    have := h.index_le
    omega
  · show ∀ t ∈ ts.take (c.index + n), t.kind ≠ .eof
    rw [List.take_add, ← h.rest]
    exact List.forall_mem_append.2 ⟨h.passed, hpassed⟩

theorem advance (h : c.StandsIn ts) (hk : c.kind ≠ .eof) : c.advance.StandsIn ts := by
  have hhead := head?_rest hk
  rw [advance_eq_skip hk]
  cases hrest : c.rest with
  | nil =>
    rw [hrest] at hhead
    cases hhead
  | cons t rest =>
    rw [hrest] at hhead
    refine h.skip (by simp [hrest]) ?_
    rw [hrest, List.take_one, hhead, Option.toList_some, List.forall_mem_singleton]
    exact hk

theorem synchronize (h : c.StandsIn ts) (stops : KindSet) : (c.synchronize stops).StandsIn ts := by
  rw [synchronize_eq_skip]
  refine h.skip (List.takeWhile_prefix _).length_le ?_
  rw [← List.prefix_iff_eq_take.1 (List.takeWhile_prefix _)]
  intro t ht heof
  simpa [isSkipped, Token.isEof, heof] using List.mem_takeWhile_imp ht

/-- The tokens before the cursor and those from there on, without ends of the input, are
    all that there are. -/
theorem index_add_remaining (h : c.StandsIn ts) :
    c.index + c.remaining = ts.countP fun t => !t.isEof := by
  have hpassed : (ts.take c.index).countP (fun t => !t.isEof) = c.index := by
    rw [List.countP_eq_length.2 fun t ht => by simpa [Token.isEof] using h.passed t ht,
      List.length_take_of_le h.index_le]
  have hsplit := congrArg (List.countP fun t => !t.isEof) (List.take_append_drop c.index ts)
  rw [List.countP_append, hpassed, ← h.rest] at hsplit
  exact hsplit

end StandsIn

end Cursor

namespace Parser

/-! ## The invariant -/

theorem index_accept {p : Parser} (hk : p.kind ≠ .eof) (rule : Rule) :
    (p.accept rule).cursor.index = p.cursor.index + 1 := by
  show p.cursor.advance.index = _
  rw [Cursor.advance_eq_skip hk]
  rfl

/-- How a parser that stands at a place of the list `ts` dealt with the tokens before it,
    where those at the places in `matched` were matched. -/
structure Accounted (ts : TokenList) (matched : List Nat) (p : Parser) : Prop where
  cursor : p.cursor.StandsIn ts
  before : ∀ t ∈ ts.take p.skipped, t.kind ≠ .kwProgram
  skipped_le : p.skipped ≤ p.cursor.index
  increasing : matched.Pairwise (· < ·)
  within : ∀ i ∈ matched, p.skipped ≤ i ∧ i < p.cursor.index
  trace : p.options.recordMatches = true →
    p.trace.toList.map (fun m => some m.site) = matched.map fun i => ts[i]?.map Token.site
  whole : p.options.recovery = .halt ∨ p.errors = #[] →
    ∀ i, p.skipped ≤ i → i < p.cursor.index → i ∈ matched
  starts : ∀ i, p.skipped ≤ i → i < p.cursor.index → i ∉ matched →
    (∀ j, j + 1 = i → p.skipped ≤ j → j ∈ matched) → ∃ e ∈ p.errors, ts[i]? = some e.found
  last : ∀ i, p.lastErrorAt = some i → ∃ e ∈ p.errors, ∀ t, ts[i]? = some t → e.found = t

namespace Accounted

variable {ts : TokenList} {matched : List Nat} {p : Parser}

/-- A token that is matched is the next one in the record. -/
theorem accept (h : Accounted ts matched p) (hk : p.kind ≠ .eof) (rule : Rule) :
    Accounted ts (matched ++ [p.cursor.index]) (p.accept rule) where
  cursor := h.cursor.advance hk
  before := h.before
  skipped_le := by
    rw [index_accept hk]
    exact Nat.le_succ_of_le h.skipped_le
  increasing := by
    refine List.pairwise_append.2 ⟨h.increasing, List.pairwise_singleton _ _, fun i hi j hj => ?_⟩
    rw [List.mem_singleton.1 hj]
    exact (h.within i hi).2
  within := by
    rw [index_accept hk]
    intro i hi
    rcases List.mem_append.1 hi with hi | hi
    · exact ⟨(h.within i hi).1, Nat.lt_succ_of_lt (h.within i hi).2⟩
    · rw [List.mem_singleton.1 hi]
      exact ⟨h.skipped_le, Nat.lt_succ_self _⟩
  trace := by
    intro hrecord
    have htrace : (p.accept rule).trace =
        p.trace.push ⟨p.cursor.current.kind, rule.name, p.cursor.current.position⟩ := if_pos hrecord
    rw [htrace, Array.toList_push, List.map_append, h.trace hrecord, List.map_append,
      List.map_singleton, List.map_singleton, h.cursor.getElem?, Cursor.head?_rest hk]
    rfl
  whole := by
    rw [index_accept hk]
    intro hwhole i hle hlt
    rcases Nat.lt_or_eq_of_le (Nat.le_of_lt_succ hlt) with hlt | rfl
    · exact List.mem_append_left _ (h.whole hwhole i hle hlt)
    · simp
  starts := by
    rw [index_accept hk]
    intro i hle hlt hnot hstart
    have hne : i ≠ p.cursor.index := fun heq => hnot (by simp [heq])
    have hlt : i < p.cursor.index := by omega
    have hnot : i ∉ matched := fun hmem => hnot (List.mem_append_left _ hmem)
    refine h.starts i hle hlt hnot fun j hj hskipped => ?_
    rcases List.mem_append.1 (hstart j hj hskipped) with hmem | hmem
    · exact hmem
    · have := List.mem_singleton.1 hmem
      omega
  last := h.last

/-- An error that is not noted was noted at the same token before. -/
theorem note (h : Accounted ts matched p) (expected : Expected) (rule : Rule) (follow : KindSet) :
    Accounted ts matched (p.note expected rule follow) := by
  rw [Parser.note]
  split
  · exact h
  · refine ⟨h.cursor, h.before, h.skipped_le, h.increasing, h.within, h.trace, ?_, ?_, ?_⟩
    · rintro (hhalt | hnone)
      · exact h.whole (.inl hhalt)
      · exact absurd hnone (Array.push_ne_empty)
    · intro i hle hlt hnot hstart
      obtain ⟨e, he, hfound⟩ := h.starts i hle hlt hnot hstart
      exact ⟨e, Array.mem_push.2 (.inl he), hfound⟩
    · rintro i hi
      obtain rfl := Option.some.inj hi
      refine ⟨_, Array.mem_push_self, fun t ht => ?_⟩
      rw [h.cursor.getElem?] at ht
      simp [Cursor.current, ht]

/-- Tokens are passed over from one that an error is about. -/
theorem recover (h : Accounted ts matched p) (hpanic : p.options.recovery = .panic)
    (hlast : p.lastErrorAt = some p.cursor.index) (stops : KindSet) :
    Accounted ts matched (p.recover stops) where
  cursor := h.cursor.synchronize stops
  before := h.before
  skipped_le := h.skipped_le.trans (Nat.le_add_right _ _)
  increasing := h.increasing
  within i hi := ⟨(h.within i hi).1, (h.within i hi).2.trans_le (Nat.le_add_right _ _)⟩
  trace := h.trace
  whole := by
    rintro (hhalt | hnone)
    · have : p.options.recovery = .halt := hhalt
      rw [hpanic] at this
      cases this
    · obtain ⟨e, he, -⟩ := h.last _ hlast
      have : p.errors = #[] := hnone
      simp [this] at he
  starts := by
    -- a run that was not there before starts where the parser stood, which is where the
    -- last error is
    intro i hle hlt hnot hstart
    rcases Nat.lt_trichotomy i p.cursor.index with hbefore | rfl | hbehind
    · exact h.starts i hle hbefore hnot hstart
    · have hi := hlt.trans_le (h.cursor.synchronize stops).index_le
      obtain ⟨e, he, hfound⟩ := h.last _ hlast
      refine ⟨e, he, ?_⟩
      rw [List.getElem?_eq_getElem hi, hfound _ (List.getElem?_eq_getElem hi)]
    · have := h.skipped_le
      obtain ⟨j, rfl⟩ := Nat.exists_eq_add_one_of_ne_zero (Nat.ne_zero_of_lt hbehind)
      have hskipped : p.skipped ≤ j := by omega
      have := (h.within j (hstart j rfl hskipped)).2
      omega
  last := h.last

end Accounted

theorem skipped_seek_ofList (options : Options) (ts : TokenList) :
    (ofList options ts).seek.skipped = (ofList options ts).seek.cursor.index := by
  simp [seek, recover, ofList, Cursor.ofList, Cursor.distance]

/-- At the start of the program nothing is accounted for but what comes before it. -/
theorem accounted_seek (options : Options) (ts : TokenList) :
    Accounted ts [] (ofList options ts).seek where
  cursor := (Cursor.standsIn_ofList ts).synchronize _
  before := by
    have hindex : (ofList options ts).seek.cursor.index =
        (ts.takeWhile (Cursor.isSkipped (single .kwProgram))).length := Nat.zero_add _
    rw [skipped_seek_ofList, hindex, ← List.prefix_iff_eq_take.1 (List.takeWhile_prefix _)]
    intro t ht
    exact (Cursor.isSkipped_single.1 (List.mem_takeWhile_imp ht)).2
  skipped_le := (skipped_seek_ofList options ts).le
  increasing := .nil
  within := List.forall_mem_nil _
  trace _ := rfl
  whole _ i hle hlt := absurd hlt (Nat.not_lt.2 (skipped_seek_ofList options ts ▸ hle))
  starts i hle hlt := absurd hlt (Nat.not_lt.2 (skipped_seek_ofList options ts ▸ hle))
  last i hi := by cases hi

theorem Acts.options_eq {p q : Parser} (h : Acts p q) : q.options = p.options := by
  cases h with
  | accept | recover => rfl
  | note expected rule follow _ => exact options_note expected rule follow p

/-- Every action keeps account of the tokens. -/
theorem Acts.exists_accounted {ts : TokenList} {p q : Parser} (hact : Acts p q)
    (h : ∃ matched, Accounted ts matched p) : ∃ matched, Accounted ts matched q := by
  obtain ⟨matched, h⟩ := h
  cases hact with
  | accept rule hk => exact ⟨_, h.accept hk rule⟩
  | note expected rule follow _ => exact ⟨matched, h.note expected rule follow⟩
  | recover stops hpanic hlast => exact ⟨matched, h.recover hpanic hlast stops⟩

/-- A parser accounts for the tokens at the end of parsing. -/
theorem accounted_recognize (options : Options) (ts : TokenList) :
    ∃ matched, Accounted ts matched (recognize options .program ts).parser :=
  Acts.invariant (fun _ _ => Acts.exists_accounted) (recognize_acts options ts)
    ⟨[], accounted_seek options ts⟩

theorem options_recognize (options : Options) (ts : TokenList) :
    (recognize options .program ts).parser.options = options :=
  Acts.invariant (I := fun p => p.options = options) (fun _ _ hact h => hact.options_eq.trans h)
    (recognize_acts options ts) rfl

end Parser

/-! ## Outcomes -/

namespace Outcome

/-- Whether the token at a place was passed over by a parser that had found the program and
    matched the tokens at the places in `matched`. -/
def Drops (matched : List Nat) (i : Nat) (o : Outcome) : Prop :=
  o.summary.skipped ≤ i ∧ i < o.summary.consumed ∧ i ∉ matched

/-- What came of parsing the list `ts`, where the tokens at the places in `matched` were
    matched, accounts for the tokens: those matched are in the record in their order, and
    an error is about the first one of each run of tokens that were passed over. -/
structure Accounts (ts : TokenList) (matched : List Nat) (o : Outcome) : Prop where
  before : ∀ t ∈ ts.take o.summary.skipped, t.kind ≠ .kwProgram ∧ t.kind ≠ .eof
  skipped_le : o.summary.skipped ≤ o.summary.consumed
  consumed_le : o.summary.consumed ≤ ts.length
  increasing : matched.Pairwise (· < ·)
  within : ∀ i ∈ matched, o.summary.skipped ≤ i ∧ i < o.summary.consumed
  trace : o.trace.map (fun m => some m.site) = matched.map fun i => ts[i]?.map Token.site
  starts : ∀ i, o.Drops matched i → (∀ j, j + 1 = i → ¬ o.Drops matched j) →
    ∃ e ∈ o.errors, ts[i]? = some e.found

end Outcome

theorem Parser.Accounted.accounts {ts : TokenList} {matched : List Nat} {e : Parser.Ending}
    (h : Parser.Accounted ts matched e.parser) (hrecord : e.parser.options.recordMatches = true) :
    e.outcome.Accounts ts matched where
  before t ht := ⟨h.before t ht, h.cursor.passed t (List.take_subset_take_left ts h.skipped_le ht)⟩
  skipped_le := h.skipped_le
  consumed_le := h.cursor.index_le
  increasing := h.increasing
  within := h.within
  trace := h.trace hrecord
  starts := by
    rintro i ⟨hle, hlt, hnot⟩ hstart
    obtain ⟨e, he, hfound⟩ := h.starts i hle hlt hnot fun j hj hskipped => by
      by_contra hmem
      exact hstart j hj ⟨hskipped, by omega, hmem⟩
    exact ⟨e, Array.mem_toList_iff.2 he, hfound⟩

/-- No token is passed over without an error, and none is matched twice. The tokens before
    the program have no program and no end of the input among them. Behind it the tokens
    are matched or passed over: all are matched unless the parser goes on after an error,
    and each run of others starts with a token that an error is about. A parser that comes
    to an end of the program leaves the tokens that it did not pass, and one without a
    record of matches does the same. -/
theorem parse_accounts (ts : TokenList) (recovery : Parser.Recovery) (limit : Nat) :
    let o := parseWith ⟨recovery, limit, true⟩ ts
    (∃ matched, o.Accounts ts matched ∧
      (recovery = .halt ∨ o.errors = [] → ∀ i, ¬ o.Drops matched i)) ∧
    ((Parser.recognize ⟨recovery, limit, true⟩ .program ts).isCompleted = true →
      o.summary.consumed + o.summary.trailing = ts.countP fun t => !t.isEof) ∧
    parseWith ⟨recovery, limit, false⟩ ts = { o with trace := [] } := by
  intro o
  have hoptions := Parser.options_recognize ⟨recovery, limit, true⟩ ts
  obtain ⟨matched, h⟩ := Parser.accounted_recognize ⟨recovery, limit, true⟩ ts
  refine ⟨⟨matched, h.accounts (by rw [hoptions]), ?_⟩, fun hcompleted => ?_,
    parseWith_untraced ⟨recovery, limit, true⟩ ts⟩
  · rintro hwhole i ⟨hle, hlt, hnot⟩
    refine hnot (h.whole ?_ i hle hlt)
    rw [hoptions]
    exact hwhole.imp_right Array.toList_eq_nil_iff.1
  · have htrailing : o.summary.trailing =
        (Parser.recognize ⟨recovery, limit, true⟩ .program ts).parser.cursor.remaining :=
      if_pos hcompleted
    rw [htrailing]
    exact h.cursor.index_add_remaining

/-- The tokens of a program with a closing parenthesis where an expression should be. -/
def TokenList.strayParenthesis : TokenList :=
  [.bare .kwPrint ⟨1, 1⟩, .bare .kwProgram ⟨1, 7⟩, .of .ident "p" ⟨1, 15⟩, .bare .colon ⟨1, 16⟩,
    .bare .kwPrint ⟨1, 18⟩, .bare .rparen ⟨1, 24⟩, .of .num "1" ⟨1, 26⟩, .bare .dot ⟨1, 27⟩]

/-- The parenthesis and the number behind it are passed over, with an error about the
    parenthesis. -/
theorem drops_strayParenthesis :
    ∃ matched, (parseWith ⟨.panic, 10, true⟩ .strayParenthesis).Accounts .strayParenthesis matched ∧
      (parseWith ⟨.panic, 10, true⟩ .strayParenthesis).Drops matched 5 ∧
      (parseWith ⟨.panic, 10, true⟩ .strayParenthesis).Drops matched 6 := by
  obtain ⟨⟨matched, h, -⟩, -⟩ := parse_accounts .strayParenthesis .panic 10
  have hsummary : (parseWith ⟨.panic, 10, true⟩ .strayParenthesis).summary = ⟨8, 0, 1⟩ := by cbv
  have hsites : (parseWith ⟨.panic, 10, true⟩ .strayParenthesis).trace.map Match.site =
      [(.kwProgram, ⟨1, 7⟩), (.ident, ⟨1, 15⟩), (.colon, ⟨1, 16⟩), (.kwPrint, ⟨1, 18⟩),
        (.dot, ⟨1, 27⟩)] := by cbv
  have hnot : ∀ i ∈ matched, TokenList.strayParenthesis[i]?.map Token.site ∈
      [(.kwProgram, ⟨1, 7⟩), (.ident, ⟨1, 15⟩), (.colon, ⟨1, 16⟩), (.kwPrint, ⟨1, 18⟩),
        (.dot, ⟨1, 27⟩)].map some := by
    rw [← hsites, List.map_map]
    intro i hi
    have hmem :=
      List.mem_map_of_mem (f := fun i => TokenList.strayParenthesis[i]?.map Token.site) hi
    rwa [← h.trace] at hmem
  refine ⟨matched, h, ?_, ?_⟩
  · rw [Outcome.Drops, hsummary]
    exact ⟨by decide, by decide, fun hmem => absurd (hnot 5 hmem) (by decide)⟩
  · rw [Outcome.Drops, hsummary]
    exact ⟨by decide, by decide, fun hmem => absurd (hnot 6 hmem) (by decide)⟩

end TinyLang

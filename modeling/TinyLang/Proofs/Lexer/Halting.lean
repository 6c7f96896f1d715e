import TinyLang.Proofs.Lexer.Lossless

/-!
# Stopping at the first error

A lexer that stops at the first error gives what one that collects all errors gives,
up to and with the first error (`Lexer.items_halt`): what is scanned depends on the
scanner only, and the two lexers differ only in what they do behind an error. So the
tokens of a source, or its first error, can be read off the items in either mode
(`Lexing.result_ofSource`), and both modes agree on them (`lexer_modes_agree`).
-/

namespace TinyLang

namespace Lexer

variable {lx lx' : Lexer} {item : Item}

/-! ## Items one after the other -/

theorem scanner_settle (mode : Mode) (r : Scanned Token) :
    (settle mode r).2.scanner = r.scanner := by
  cases r with
  | ok t s => rfl
  | error e s => exact scanner_afterError mode e s

theorem settle_of_next (h : lx.next = some (item, lx')) :
    lx.finished = false ∧ settle lx.mode lx.scan = (item, lx') := by
  rw [next] at h
  split at h
  · cases h
  · next hf => exact ⟨Bool.eq_false_iff.2 hf, Option.some.inj h⟩

theorem drain_of_next_some (h : lx.next = some (item, lx')) (items : Array Item) :
    lx.drain items = lx'.drain (items.push item) := by
  rw [drain]
  split
  · next hnone =>
    rw [h] at hnone
    cases hnone
  · next hsome =>
    rw [h] at hsome
    cases hsome
    rfl

/-- The items to come do not depend on those that came before. -/
theorem drain_append (lx : Lexer) (before items : Array Item) :
    (lx.drain (before ++ items)).1 = before ++ (lx.drain items).1 := by
  fun_induction drain lx items with
  | case1 lx items hnone => rw [drain_of_next hnone]
  | case2 lx items item lx' hsome ih =>
    rw [drain_of_next_some hsome, ← Array.append_push]
    exact ih

theorem items_of_next_none (h : lx.next = none) : lx.items = [] := by
  rw [items, drain_of_next h]

theorem items_of_next_some (h : lx.next = some (item, lx')) : lx.items = item :: lx'.items := by
  have hitem : (#[].push item : Array Item) = #[item] ++ #[] := rfl
  rw [items, items, drain_of_next_some h, hitem, drain_append, Array.toList_append]
  rfl

theorem mem_filterMap_token?_iff {is : List Item} {t : Token} :
    t ∈ is.filterMap Item.token? ↔ .ok t ∈ is := by
  rw [List.mem_filterMap]
  constructor
  · rintro ⟨_ | u, hmem, hu⟩
    · cases hu
    · cases hu
      exact hmem
  · exact fun hmem => ⟨_, hmem, rfl⟩

/-- The items of a text, with all errors among them. -/
def collect (text : String) : List Item := (ofSource .collectAll (.ofText text)).items

/-! ## The first error -/

/-- The items up to and with the first error. -/
def uptoError : List Item → List Item
  | [] => []
  | .ok t :: is => .ok t :: uptoError is
  | .error e :: _ => [.error e]

theorem mem_of_mem_uptoError {is : List Item} (h : item ∈ uptoError is) : item ∈ is := by
  induction is with
  | nil => exact h
  | cons i is ih =>
    cases i with
    | ok t =>
      rcases List.mem_cons.1 h with rfl | h
      · exact List.mem_cons_self
      · exact List.mem_cons_of_mem _ (ih h)
    | error e =>
      rw [List.mem_singleton.1 h]
      exact List.mem_cons_self

/-- What comes behind an error is not given. -/
theorem uptoError_append_of_mem {is : List Item} {e : LexError} (h : .error e ∈ is)
    (js : List Item) : uptoError (is ++ js) = uptoError is := by
  induction is with
  | nil => cases h
  | cons i is ih =>
    cases i with
    | error => rfl
    | ok t =>
      rcases List.mem_cons.1 h with h | h
      · cases h
      · rw [List.cons_append, uptoError, uptoError, ih h]

/-- The lexer that collects all errors, at the same place. -/
def collecting (lx : Lexer) : Lexer := { lx with mode := .collectAll }

theorem finished_afterError_halt (e : LexError) (s : Scanner) :
    (afterError .halt e s).finished = true := by
  obtain ⟨_, fault⟩ := e
  cases fault <;> rfl

/-- A lexer that stops at the first error gives the items of one that collects all
    errors, up to and with the first error. -/
theorem items_halt (lx : Lexer) (hmode : lx.mode = .halt) :
    lx.items = uptoError lx.collecting.items := by
  by_cases hfinished : lx.finished = true
  · have hcollecting : lx.collecting.next = none := next_of_finished hfinished
    rw [items_of_next_none (next_of_finished hfinished), items_of_next_none hcollecting]
    rfl
  have hnext : lx.next = some (settle .halt lx.scan) := by
    rw [next, if_neg hfinished, hmode]
  have hcollecting : lx.collecting.next = some (settle .collectAll lx.scan) :=
    if_neg hfinished
  cases hscan : lx.scan with
  | ok t s =>
    rw [hscan] at hnext hcollecting
    have hlt := weight_next_lt hnext
    rw [items_of_next_some hnext, items_of_next_some hcollecting, uptoError]
    exact congrArg _ (items_halt _ rfl)
  | error e s =>
    rw [hscan] at hnext hcollecting
    rw [items_of_next_some hnext, items_of_next_some hcollecting, uptoError,
      items_of_next_none (next_of_finished (finished_afterError_halt e s))]
termination_by lx.weight

/-- What is given in a mode of items with all errors among them. -/
def Mode.given : Mode → List Item → List Item
  | .halt, is => uptoError is
  | .collectAll, is => is

theorem mem_of_mem_given {mode : Mode} {is : List Item} (h : item ∈ mode.given is) :
    item ∈ is := by
  cases mode with
  | halt => exact mem_of_mem_uptoError h
  | collectAll => exact h

/-- If there is an error, then one is given. -/
theorem exists_error_mem_given {mode : Mode} {is : List Item} {e : LexError}
    (h : .error e ∈ is) : ∃ e, .error e ∈ mode.given is := by
  cases mode with
  | collectAll => exact ⟨e, h⟩
  | halt =>
    induction is with
    | nil => cases h
    | cons i is ih =>
      cases i with
      | error e => exact ⟨e, List.mem_cons_self⟩
      | ok t =>
        rcases List.mem_cons.1 h with h | h
        · cases h
        · obtain ⟨e, he⟩ := ih h
          exact ⟨e, List.mem_cons_of_mem _ he⟩

/-- The items of a source in a mode, read off those with all errors among them. -/
theorem items_ofSource (mode : Mode) (source : Source) :
    (ofSource mode source).items = mode.given (ofSource .collectAll source).items := by
  cases mode with
  | halt => exact items_halt _ rfl
  | collectAll => rfl

/-- A lexer gives no other items of a text than one that collects all errors. -/
theorem mem_collect {mode : Mode} {text : String}
    (h : item ∈ (ofSource mode (.ofText text)).items) : item ∈ collect text := by
  rw [items_ofSource] at h
  exact mem_of_mem_given h

end Lexer

/-! ## Tokens and errors -/

namespace Lexing

@[simp]
theorem result_nil : (ofItems []).result = .ok [] := rfl

@[simp]
theorem result_cons_ok (t : Token) (is : List Lexer.Item) :
    (ofItems (.ok t :: is)).result = (ofItems is).result.map (t :: ·) := by
  have htokens : (ofItems (.ok t :: is)).tokens = t :: (ofItems is).tokens := rfl
  have herrors : (ofItems (.ok t :: is)).errors = (ofItems is).errors := rfl
  rw [result, result, htokens, herrors]
  cases (ofItems is).errors <;> rfl

/-- What stands behind the first error makes no difference. -/
theorem result_uptoError (is : List Lexer.Item) :
    (ofItems (Lexer.uptoError is)).result = (ofItems is).result := by
  induction is with
  | nil => rfl
  | cons i is ih =>
    cases i with
    | ok t => rw [Lexer.uptoError, result_cons_ok, result_cons_ok, ih]
    | error e => rfl

/-- The tokens of a source or its first error, read off the items in either mode. -/
theorem result_ofSource (mode : Lexer.Mode) (source : Source) :
    (ofSource mode source).result = lexSource source := by
  cases mode with
  | halt => rfl
  | collectAll =>
    rw [lexSource, ofSource, ofSource, Lexer.items_halt (.ofSource .halt source) rfl,
      result_uptoError]
    rfl

theorem ofSource_ofText (mode : Lexer.Mode) (text : String) :
    ofSource mode (.ofText text) = ofItems (mode.given (Lexer.collect text)) :=
  congrArg ofItems (Lexer.items_ofSource mode (.ofText text))

theorem lex_eq_result (text : String) : lex text = (ofItems (Lexer.collect text)).result :=
  (result_ofSource .collectAll (.ofText text)).symm

/-- The error is the first one. -/
theorem result_eq_error_iff {l : Lexing} {e : LexError} :
    l.result = .error e ↔ l.errors.head? = some e := by
  obtain ⟨tokens, errors⟩ := l
  cases errors <;> simp [result]

/-- The tokens are those that were given, if there is no error. -/
theorem result_eq_ok_iff {l : Lexing} {ts : TokenList} :
    l.result = .ok ts ↔ l.errors = [] ∧ l.tokens = ts := by
  obtain ⟨tokens, errors⟩ := l
  cases errors <;> simp [result]

/-- There are tokens if there is no error. -/
theorem exists_result_eq_ok_iff {l : Lexing} :
    (∃ ts, l.result = .ok ts) ↔ l.errors.head? = none := by
  obtain ⟨tokens, errors⟩ := l
  cases errors <;> simp [result]

theorem hasErrors_of_result_eq_error {l : Lexing} {e : LexError} (h : l.result = .error e) :
    l.hasErrors = true := by
  obtain ⟨tokens, errors⟩ := l
  cases errors with
  | nil => cases h
  | cons => rfl

theorem hasErrors_of_result_eq_ok {l : Lexing} {ts : TokenList} (h : l.result = .ok ts) :
    l.hasErrors = false ∧ l.tokens = ts := by
  obtain ⟨tokens, errors⟩ := l
  cases errors with
  | nil => exact ⟨rfl, Except.ok.inj h⟩
  | cons => cases h

end Lexing

/-- A lexer that stops at the first error gives what one that collects all errors gives, up
    to and with the first error. So a text has the tokens that were collected, if no error
    was, and else the first error that was. Among the tokens that were collected the end of
    the input comes once, behind all others. -/
theorem lexer_modes_agree :
    (∀ source : Source, (Lexer.ofSource .halt source).items =
      Lexer.uptoError (Lexer.ofSource .collectAll source).items) ∧
    ∀ text : String,
      (∀ ts, lex text = .ok ts ↔ (Lexing.ofSource .collectAll (.ofText text)).errors = [] ∧
        (Lexing.ofSource .collectAll (.ofText text)).tokens = ts) ∧
      (∀ e, lex text = .error e ↔
        (Lexing.ofSource .collectAll (.ofText text)).errors.head? = some e) ∧
      ∃ ts, (Lexing.ofSource .collectAll (.ofText text)).tokens =
          ts ++ [.eof (.behind text.toList)] ∧ ∀ t ∈ ts, t.isEof = false := by
  refine ⟨fun source => Lexer.items_halt (.ofSource .halt source) rfl, fun text => ?_⟩
  have hresult : lex text = (Lexing.ofSource .collectAll (.ofText text)).result :=
    Lexing.lex_eq_result text
  rw [hresult]
  refine ⟨fun ts => Lexing.result_eq_ok_iff, fun e => Lexing.result_eq_error_iff, ?_⟩
  obtain ⟨is, hitems, hdivides, -⟩ := Lexer.drain_of_stands _ #[] (Lexer.stands_ofText text)
  have hcollect : (Lexer.ofSource .collectAll (.ofText text)).items =
      is ++ [.ok (.eof (.behind text.toList))] := hitems
  refine ⟨is.filterMap Lexer.Item.token?, ?_, fun t ht =>
    hdivides.isEof_eq_false (Lexer.mem_filterMap_token?_iff.1 ht)⟩
  rw [Lexing.ofSource, hcollect, Lexing.ofItems, List.filterMap_append]
  rfl

end TinyLang

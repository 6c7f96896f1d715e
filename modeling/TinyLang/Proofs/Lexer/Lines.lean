import TinyLang.Proofs.Lexer.Boundary

/-!
# Lexing line by line

Nothing goes from one line into the next: two texts with a line end between them are
divided as each of them is on its own, with the positions of the second one moved down
by the lines of the first (`Lexer.Divides.append_newline`). A gap, a token or a fault at
the end of a text stays what it is if the line ends there, because no lexeme goes on across
a line end. As a text is divided in one way, this says what its lexer gives
(`lex_append_newline`).
-/

namespace TinyLang

/-! ## Further down -/

/-- The place some lines further down. -/
def Position.down (n : Nat) (p : Position) : Position := ⟨p.line + n, p.column⟩

/-- The token some lines further down. -/
def Token.down (n : Nat) (t : Token) : Token := { t with position := t.position.down n }

/-- The error some lines further down. -/
def LexError.down (n : Nat) (e : LexError) : LexError := { e with position := e.position.down n }

/-- The item some lines further down. -/
def Lexer.Item.down (n : Nat) : Item → Item
  | .ok t => .ok (t.down n)
  | .error e => .error (e.down n)

/-- Text before a line moves what is behind the line down. -/
theorem Position.behind_append_cons_newline (above text : List Char) :
    behind (above ++ '\n' :: text) = (behind text).down (above.count '\n' + 1) := by
  have hstops : Lexer.Stops (· != '\n') ('\n' :: above.reverse) := by
    rintro _ ⟨⟩
    rfl
  have hcolumn : (above ++ '\n' :: text).reverse.takeWhile (· != '\n') =
      text.reverse.takeWhile (· != '\n') := by
    rw [List.reverse_append, List.reverse_cons, List.append_assoc]
    exact Lexer.takeWhile_append_of_stops _ hstops
  simp only [behind, down, hcolumn, List.count_append, List.count_cons_self, mk.injEq, and_true]
  omega

namespace Lexer

variable {text rest s : List Char} {i : Item} {is js : List Item}

theorem Lexeme.down (h : Lexeme text s rest i) (above : List Char) :
    Lexeme (above ++ '\n' :: text) s rest (i.down (above.count '\n' + 1)) := by
  have hbehind := Position.behind_append_cons_newline above
  cases h with
  | token hspelling hk hposition =>
    exact .token hspelling hk (by rw [hbehind, ← hposition]; rfl)
  | illegal hs hblank hnone =>
    rw [Item.down, LexError.down, ← hbehind]
    exact .illegal hs hblank hnone
  | mark hs hrest =>
    rw [Item.down, LexError.down, ← hbehind]
    exact .mark hs hrest
  | half hs hblank hne =>
    rw [Item.down, LexError.down, ← hbehind, ← List.cons_append, ← List.append_assoc]
    exact .half hs hblank hne

/-- What a text is divided into does not depend on what is above it. -/
theorem Divides.down (h : Divides text rest is) (above : List Char) :
    Divides (above ++ '\n' :: text) rest (is.map (Item.down (above.count '\n' + 1))) := by
  induction h with
  | done hgap => exact .done hgap
  | item hgap hi _ ih =>
    refine .item hgap ?_ ?_
    · rw [List.append_assoc]
      exact hi.down above
    · rwa [List.append_assoc above, List.append_assoc above]

/-! ## Texts on lines of their own -/

/-- Two texts with a line end between them are divided as each of them is. -/
theorem Divides.append_newline {below : List Char} (h : Divides text rest is)
    (hbelow : Divides [] below js) :
    Divides text (rest ++ '\n' :: below)
      (is ++ js.map (Item.down ((text ++ rest).count '\n' + 1))) := by
  induction h with
  | @done text gap hgap =>
    -- the gap at the end and the line end come before the first gap of the text below
    have hline : Divides (text ++ (gap ++ ['\n'])) below
        (js.map (Item.down ((text ++ gap).count '\n' + 1))) := by
      have := hbelow.down (text ++ gap)
      rwa [List.append_assoc] at this
    have hgap' : Gap below (gap ++ ['\n']) :=
      (Gap.blank (by decide) .nil).append (hgap.append_cons (fun _ => rfl) below)
    have := hline.prepend_gap hgap'
    rwa [List.append_assoc] at this
  | @item text gap s rest i is hgap hi _ ih =>
    rw [List.append_assoc, List.append_assoc]
    refine .item ?_ (hi.append_cons (fun _ => ends_of_isBlank (by decide) s) below) ?_
    · rw [← List.append_assoc]
      exact hgap.append_cons (fun _ => rfl) below
    · rwa [List.append_assoc (text ++ gap) s rest, List.append_assoc text gap (s ++ rest)] at ih

/-- The items of two texts with a line end between them. -/
theorem Divides.collect_append_newline {a : String} (h : Divides [] a.toList is) (b : String) :
    collect (a ++ "\n" ++ b) = is ++ (collect b).map (Item.down (a.toList.count '\n' + 1)) := by
  obtain ⟨js, hb⟩ := exists_divides b
  have htext : (a ++ "\n" ++ b).toList = a.toList ++ '\n' :: b.toList := by simp
  have hboth : Divides [] (a ++ "\n" ++ b).toList
      (is ++ js.map (Item.down (a.toList.count '\n' + 1))) := by
    rw [htext]
    exact h.append_newline hb
  rw [collect_of_divides hboth, collect_of_divides hb, htext,
    Position.behind_append_cons_newline, List.map_append, List.append_assoc]
  rfl

end Lexer

/-! ## Results -/

namespace Lexing

/-- Items one after the other have the result of the first ones, and then that of the
    others. -/
theorem result_append (is js : List Lexer.Item) :
    (ofItems (is ++ js)).result =
      match (ofItems is).result, (ofItems js).result with
      | .error e, _ => .error e
      | .ok _, .error e => .error e
      | .ok ts, .ok us => .ok (ts ++ us) := by
  induction is with
  | nil =>
    rw [List.nil_append, result_nil]
    cases (ofItems js).result <;> rfl
  | cons i is ih =>
    cases i with
    | ok t =>
      rw [List.cons_append, result_cons_ok, result_cons_ok, ih]
      cases (ofItems is).result <;> cases (ofItems js).result <;> rfl
    | error e => rfl

theorem result_map_down (n : Nat) (is : List Lexer.Item) :
    (ofItems (is.map (Lexer.Item.down n))).result =
      match (ofItems is).result with
      | .error e => .error (e.down n)
      | .ok ts => .ok (ts.map (Token.down n)) := by
  induction is with
  | nil => rfl
  | cons i is ih =>
    cases i with
    | ok t =>
      rw [List.map_cons, Lexer.Item.down, result_cons_ok, result_cons_ok, ih]
      cases (ofItems is).result <;> rfl
    | error e => rfl

end Lexing

/-- What a lexer gives for two texts with a line end between them is what it gives for
    the first one, without the end of the input, and then what it gives for the second
    one, further down. So the tokens are those of both texts, or there is the first error
    of the first text, or else of the second. -/
theorem lex_append_newline (a b : String) :
    ∃ is, Lexer.collect a = is ++ [.ok (.eof (.behind a.toList))] ∧
      Lexer.collect (a ++ "\n" ++ b) =
        is ++ (Lexer.collect b).map (Lexer.Item.down (a.toList.count '\n' + 1)) ∧
      match lex a, lex b with
      | .error e, _ => lex (a ++ "\n" ++ b) = .error e
      | .ok _, .error e => lex (a ++ "\n" ++ b) = .error (e.down (a.toList.count '\n' + 1))
      | .ok ts, .ok us => ∃ ts', ts = ts' ++ [.eof (.behind a.toList)] ∧
          lex (a ++ "\n" ++ b) = .ok (ts' ++ us.map (Token.down (a.toList.count '\n' + 1))) := by
  obtain ⟨is, hdivides⟩ := Lexer.exists_divides a
  have ha := Lexer.collect_of_divides hdivides
  have hab := hdivides.collect_append_newline b
  refine ⟨is, ha, hab, ?_⟩
  rw [Lexing.lex_eq_result, Lexing.lex_eq_result b, Lexing.lex_eq_result (a ++ "\n" ++ b), hab, ha,
    Lexing.result_append, Lexing.result_append, Lexing.result_map_down]
  cases (Lexing.ofItems is).result with
  | error e => rfl
  | ok ts =>
    cases (Lexing.ofItems (Lexer.collect b)).result with
    | error e => rfl
    | ok us => exact ⟨ts, rfl, rfl⟩

end TinyLang

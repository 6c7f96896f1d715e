import TinyLang.Proofs.Lexer.Lines

/-!
# Comments

A comment makes no difference: a text with a comment behind it is divided as it is without
one (`Lexer.Divides.commented`), and what comes on the next line does not depend on the line
before it. So a line has the same tokens and errors, at the same places, with and without a
comment at its end (`lex_comment`). A comment does not start behind a slash, which makes it
start one character earlier, or behind an exclamation mark, which takes the first slash for
the second half of `!=`.
-/

namespace TinyLang

/-- What a token says, wherever it stands. -/
def Token.content (t : Token) : Kind × String := (t.kind, t.value)

namespace Lexer

variable {text rest gap body : List Char} {is : List Item}

/-- A comment behind the gap at the end of a text belongs to the gap. -/
theorem Gap.commented (h : Gap [] gap) (hbody : '\n' ∉ body) :
    Gap [] (gap ++ '/' :: '/' :: body) := by
  have hcomment : ∀ {line : List Char}, '\n' ∉ line → Gap [] ('/' :: '/' :: line) := by
    intro line hline
    have : Gap [] ('/' :: '/' :: line ++ []) := .comment hline nofun .nil
    rwa [List.append_nil] at this
  induction h with
  | nil => exact hcomment hbody
  | blank hc _ ih => exact .blank hc ih
  | @comment line gap hline hends _ ih =>
    rw [List.append_assoc]
    cases gap with
    | nil =>
      -- the text ends in a comment already, which goes on
      exact hcomment (by simp [hline, hbody])
    | cons => exact .comment hline hends ih

/-- A text with a comment behind it is divided as it is without. -/
theorem Divides.commented (h : Divides text rest is)
    (hlast : ∀ c, rest.getLast? = some c → c ≠ '/' ∧ c ≠ '!') (hbody : '\n' ∉ body) :
    Divides text (rest ++ '/' :: '/' :: body) is := by
  induction h with
  | done hgap => exact .done (hgap.commented hbody)
  | @item text gap s rest i is hgap hi _ ih =>
    have hends : rest = [] → Ends s '/' := by
      rintro rfl
      rw [List.append_nil] at hlast
      exact ends_slash fun c hc => hlast c (List.mem_getLast?_append_of_mem_getLast? hc)
    have hrest : ∀ c, rest.getLast? = some c → c ≠ '/' ∧ c ≠ '!' := fun c hc =>
      hlast c (List.mem_getLast?_append_of_mem_getLast?
        (List.mem_getLast?_append_of_mem_getLast? hc))
    have hne : s ++ rest ≠ [] := by
      obtain ⟨c, w, rfl, -⟩ := hi.exists_cons
      exact List.cons_ne_nil _ _
    rw [List.append_assoc, List.append_assoc]
    refine .item ?_ (hi.append_cons hends _) (ih hrest)
    rw [← List.append_assoc]
    exact hgap.append_cons (fun hnil => absurd hnil hne) _

end Lexer

/-- The tokens of a division and the end of the input say the same, wherever that stands. -/
theorem Lexing.content_result_append_eof (is : List Lexer.Item) (p q : Position) :
    (ofItems (is ++ [.ok (.eof p)])).result.map (·.map Token.content) =
      (ofItems (is ++ [.ok (.eof q)])).result.map (·.map Token.content) := by
  rw [result_append, result_append]
  cases (ofItems is).result with
  | error e => rfl
  | ok ts =>
    show Except.ok ((ts ++ [Token.eof p]).map Token.content) =
      .ok ((ts ++ [Token.eof q]).map Token.content)
    rw [List.map_append, List.map_append]
    rfl

/-- A comment at the end of a line makes no difference to the tokens and errors, nor to where
    they stand; at the end of a text it only moves the end of the input. -/
theorem lex_comment {a body : String}
    (ha : ∀ c, a.toList.getLast? = some c → c ≠ '/' ∧ c ≠ '!') (hbody : '\n' ∉ body.toList)
    (b : String) :
    lex (a ++ "//" ++ body ++ "\n" ++ b) = lex (a ++ "\n" ++ b) ∧
      (∀ mode, Lexing.ofSource mode (.ofText (a ++ "//" ++ body ++ "\n" ++ b)) =
        Lexing.ofSource mode (.ofText (a ++ "\n" ++ b))) ∧
      (lex (a ++ "//" ++ body)).map (·.map Token.content) =
        (lex a).map (·.map Token.content) := by
  obtain ⟨is, hdivides⟩ := Lexer.exists_divides a
  have htext : (a ++ "//" ++ body).toList = a.toList ++ '/' :: '/' :: body.toList := by simp
  have hdivides' : Lexer.Divides [] (a ++ "//" ++ body).toList is := by
    rw [htext]
    exact hdivides.commented ha hbody
  have hcount : (a ++ "//" ++ body).toList.count '\n' = a.toList.count '\n' := by
    have hcomment : '\n' ∉ '/' :: '/' :: body.toList := by simpa using hbody
    rw [htext, List.count_append, List.count_eq_zero_of_not_mem hcomment, Nat.add_zero]
  have hcollect : Lexer.collect (a ++ "//" ++ body ++ "\n" ++ b) =
      Lexer.collect (a ++ "\n" ++ b) := by
    rw [hdivides'.collect_append_newline b, hdivides.collect_append_newline b, hcount]
  refine ⟨?_, fun mode => ?_, ?_⟩
  · rw [Lexing.lex_eq_result, Lexing.lex_eq_result, hcollect]
  · rw [Lexing.ofSource_ofText, Lexing.ofSource_ofText, hcollect]
  · rw [Lexing.lex_eq_result, Lexing.lex_eq_result, Lexer.collect_of_divides hdivides,
      Lexer.collect_of_divides hdivides']
    exact Lexing.content_result_append_eof is _ _

/-- A comment with two more slashes in it, behind half of a symbol. -/
theorem lex_comment_behind_colon :
    (∀ c, "x :".toList.getLast? = some c → c ≠ '/' ∧ c ≠ '!') ∧
      '\n' ∉ "= 2 // !".toList ∧
      lex ("x :" ++ "//" ++ "= 2 // !" ++ "\n" ++ "= 3") = lex ("x :" ++ "\n" ++ "= 3") := by
  have hlast : "x :".toList.getLast? = some ':' := by decide
  have ha : ∀ c, "x :".toList.getLast? = some c → c ≠ '/' ∧ c ≠ '!' := by
    intro c hc
    obtain rfl := Option.some.inj (hlast.symm.trans hc)
    decide
  have hbody : '\n' ∉ "= 2 // !".toList := by decide
  exact ⟨ha, hbody, (lex_comment ha hbody "= 3").1⟩

end TinyLang

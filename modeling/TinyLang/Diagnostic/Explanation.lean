import TinyLang.Diagnostic.Code

/-!
# Explanations

Each code has an explanation, a short page with an example and a remedy.
-/

namespace TinyLang.Diagnostic.Code

/-- The explanation of a character that is part of no token, line by line. -/
def illegalCharacterPage : List String :=
  ["# E0001: Illegal Character",
    "",
    "The source contains a character that is not part of the language alphabet.",
    "",
    "Legal characters are ASCII letters, digits, `_` inside identifiers,",
    "whitespace, and the symbols:",
    "",
    "```text",
    ":  =  <  >  !  +  -  *  /  ;  )  (  .  ,",
    "```",
    "",
    "`!` is only legal as the first half of `!=`. When `!` is followed by anything",
    "else, the character standing where `=` was expected is reported.",
    "",
    "## Example",
    "",
    "```text",
    "program P: x := 1 !~ 2;.",
    "```",
    "",
    "```text",
    "1:20\t>>>>>> Illegal Character '~'",
    "```",
    "",
    "## Solution",
    "",
    "Remove the character, or replace it with the intended operator",
    "(`!=` for \"not equal\", `not` for logical negation)."]

/-- The explanation of a source that cannot be read, line by line. -/
def unreadablePage : List String :=
  ["# E0002: Source Could Not Be Read",
    "",
    "Reading the next character of the source failed. The most common cause is a",
    "file that is not valid UTF-8.",
    "",
    "Scanning stops at the first read failure; no further tokens are produced.",
    "",
    "## Solution",
    "",
    "Save the file as UTF-8 (plain ASCII is fine) and run again."]

/-- The explanation of a token that is not expected, line by line. -/
def unexpectedTokenPage : List String :=
  ["# E1001: Unexpected Token",
    "",
    "The parser required a specific token kind at this point of the grammar and",
    "found something else.",
    "",
    "The message names the expected kind, the grammar rule that was being",
    "recognized, and the token that was actually found:",
    "",
    "```text",
    "Syntax error expected ';' from method: statements Is kind: ID Is value: y Position: 2:1",
    "```",
    "",
    "## Common Causes",
    "",
    "- A missing `;` between two statements.",
    "- A missing `.` at the very end of the program.",
    "- `end` missing after the body of an `if` or `while`.",
    "- `=` used for assignment where `:=` is required.",
    "",
    "## Example",
    "",
    "```text",
    "program P:",
    "  int x;",
    "  x := 1",
    "  x := 2;.",
    "```",
    "",
    "## Solution",
    "",
    "```text",
    "program P:",
    "  int x;",
    "  x := 1;",
    "  x := 2;.",
    "```"]

/-- The explanation of a source without a program, line by line. -/
def missingProgramPage : List String :=
  ["# E1002: Missing Program Header",
    "",
    "Every source file must contain a `program` header of the form",
    "",
    "```text",
    "program Name:",
    "```",
    "",
    "Anything before the `program` keyword is ignored, but if the end of the",
    "input is reached without seeing it, parsing fails.",
    "",
    "## Solution",
    "",
    "Start the file with `program Name:` followed by the program body and a",
    "final `.`."]

/-- The explanation of tokens before the program, line by line. -/
def skippedTokensPage : List String :=
  ["# W1001: Tokens Before Program Header Ignored",
    "",
    "The parser skips every token that appears before the `program` keyword. The",
    "skipped text is not checked at all.",
    "",
    "## Example",
    "",
    "```text",
    "junk 42 program P: x := 1;.",
    "```",
    "",
    "`junk` and `42` are ignored; the rest of the program parses normally.",
    "",
    "## Solution",
    "",
    "Remove the text before `program`, or turn it into a `//` comment."]

/-- The explanation of a code, line by line. -/
def page : Code → List String
  | illegalCharacter => illegalCharacterPage
  | unreadable => unreadablePage
  | unexpectedToken => unexpectedTokenPage
  | missingProgram => missingProgramPage
  | skippedTokens => skippedTokensPage

/-- The explanation of a code. -/
def explanation (code : Code) : String := String.join (code.page.map (· ++ "\n"))

end TinyLang.Diagnostic.Code

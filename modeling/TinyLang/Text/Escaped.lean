import TinyLang.Text.Printable

/-!
# Escaped text

Text is escaped to be shown between quotes on one line: a backslash goes before
the quotes and the backslash, the usual controls get a letter, and every other
character that does not show as itself is written as its code point.
-/

namespace TinyLang.Text

/-- The code point of a character in hexadecimal, marked as such. -/
def codePoint (c : Char) : String :=
  "\\u\x7b" ++ String.ofList (Nat.toDigits 16 c.toNat) ++ "\x7d"

/-- A character escaped, with a backslash before each of `quotes`. -/
def escapeChar (quotes : List Char) (c : Char) : String :=
  if c == '\x00' then "\\0"
  else if c == '\t' then "\\t"
  else if c == '\n' then "\\n"
  else if c == '\r' then "\\r"
  else if c == '\\' || quotes.contains c then "\\" ++ c.toString
  else if isPrintable c then c.toString
  else codePoint c

/-- A character on its own, escaped: both quotes are marked. -/
def escapedChar (c : Char) : String := escapeChar ['\x27', '\x22'] c

/-- A text in double quotes, escaped. -/
def quoted (s : String) : String :=
  s.toList.foldl (fun t c => t ++ escapeChar ['\x22'] c) "\x22" ++ "\x22"

end TinyLang.Text

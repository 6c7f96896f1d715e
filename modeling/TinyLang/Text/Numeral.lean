/-!
# Numerals

Whole numbers in decimal, read from text.
-/

namespace TinyLang.Text

/-- The number that decimal digits stand for, most significant digit first. -/
def ofDigits (ds : List Char) : Nat :=
  ds.foldl (fun n d => 10 * n + (d.toNat - '0'.toNat)) 0

/-- Reads one or more decimal digits as a number below `bound`. A plus sign may
    come first; nothing else is allowed. -/
def unsigned? (bound : Nat) (s : String) : Option Nat :=
  let digits := match s.toList with
    | '+' :: ds => ds
    | ds => ds
  if digits.isEmpty || !digits.all Char.isDigit then none
  else
    let n := ofDigits digits
    if n < bound then some n else none

/-- Reads a number that fits a word of 64 bits. -/
def word64? (s : String) : Option Nat := unsigned? 0x10000000000000000 s

end TinyLang.Text

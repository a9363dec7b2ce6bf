/-
EffectHandlers/Text/Quoted.lean

Quoted text.

A text is quoted with apostrophes, unless it holds an apostrophe and no
quotation mark; then it is quoted with quotation marks.  Inside, the mark
in use and the backslash are escaped by a backslash, line feed, carriage
return and tab by a letter, and every other character that is not printable
by its code in two, four or eight hexadecimal digits.

`asciiOnly` is the same rule of codes applied to every character beyond
ASCII in a text that is already quoted.
-/
import EffectHandlers.Text.Printable

namespace EffectHandlers.Text

/-! ### Codes -/

/-- The digits of a number in a base, most significant first, at least `width` of them. -/
def digitsPadded (base width n : Nat) : List Char :=
  let ds := Nat.toDigits base n
  List.replicate (width - ds.length) '0' ++ ds

/-- The escape of a character by its code: two, four or eight hexadecimal digits. -/
def codeEscape (c : Char) : List Char :=
  let n := c.toNat
  if n < 0x100 then '\\' :: 'x' :: digitsPadded 16 2 n
  else if n < 0x10000 then '\\' :: 'u' :: digitsPadded 16 4 n
  else '\\' :: 'U' :: digitsPadded 16 8 n

/-! ### Quoting -/

/-- The mark that a text is quoted with. -/
def quoteMark (cs : List Char) : Char :=
  if cs.contains '\'' && !cs.contains '"' then '"' else '\''

/-- One character inside quotes made with `mark`. -/
def escapeChar (mark c : Char) : List Char :=
  if c = mark || c = '\\' then ['\\', c]
  else if c = '\n' then ['\\', 'n']
  else if c = '\r' then ['\\', 'r']
  else if c = '\t' then ['\\', 't']
  else if isPrintable c then [c]
  else codeEscape c

/-- A text between quotes. -/
def quoted (s : String) : String :=
  let cs := s.toList
  let mark := quoteMark cs
  String.ofList (mark :: cs.flatMap (escapeChar mark) ++ [mark])

/-- The text with every character beyond ASCII replaced by its code. -/
def asciiOnly (s : String) : String :=
  String.ofList (s.toList.flatMap fun c => if c.toNat < 128 then [c] else codeEscape c)

end EffectHandlers.Text

/-
  Rubric — quoted text: a text between double quotes in which every character
  that could be mistaken is escaped.

  * `escape`: double quotes and backslashes get a backslash, tab, line feed, carriage
    return and NUL their letters, and every other character that does not show
    is written by its code point;
  * `quote`: the escaped text between double quotes.
-/
import Rubric.Text.Unseen

namespace Rubric.Text

/-- A code point in lowercase hexadecimal digits. -/
def hexadecimal (n : Nat) : List Char :=
  Nat.toDigits 16 n

/-- The written form of one character inside quotes. -/
def escape (c : Char) : List Char :=
  if c = '\x00' then ['\\', '0']
  else if c = '\t' then ['\\', 't']
  else if c = '\n' then ['\\', 'n']
  else if c = '\r' then ['\\', 'r']
  else if c = '\x22' ∨ c = '\\' then ['\\', c]
  else if isUnseen c then ['\\', 'u', '{'] ++ hexadecimal c.toNat ++ ['}']
  else [c]

/-- The text between double quotes. -/
def quote (s : String) : String :=
  String.ofList ('\x22' :: s.toList.flatMap escape ++ ['\x22'])

end Rubric.Text

/-
  Rubric — blank characters, trimming and lines.

  Blank characters are those with the property White_Space.

  * `trim` and `trimEnd` drop blank characters at the ends of a text;
  * `trimNewlines` drops line feeds at the end only;
  * `lines` cuts a text after each line feed; a carriage return before the line
    feed belongs to the cut, and a last line without characters is no line.
-/
import Rubric.Text.Stretch

namespace Rubric.Text

/-- The code points of blank characters. -/
def blank : List Stretch :=
  [⟨0x9, 0xD, 1⟩, ⟨0x20, 0x20, 1⟩, ⟨0x85, 0x85, 1⟩, ⟨0xA0, 0xA0, 1⟩, ⟨0x1680, 0x1680, 1⟩,
   ⟨0x2000, 0x200A, 1⟩, ⟨0x2028, 0x2029, 1⟩, ⟨0x202F, 0x202F, 1⟩, ⟨0x205F, 0x205F, 1⟩,
   ⟨0x3000, 0x3000, 1⟩]

/-- White space of any script. -/
def isBlank (c : Char) : Bool :=
  Stretch.holds blank c.toNat

/-! ## Trimming -/

/-- The list without its longest suffix of elements that satisfy `p`. -/
def dropEndWhile (p : Char → Bool) (cs : List Char) : List Char :=
  (cs.reverse.dropWhile p).reverse

/-- The text without blank characters at its end. -/
def trimEnd (s : String) : String :=
  String.ofList (dropEndWhile isBlank s.toList)

/-- The text without blank characters at its ends. -/
def trim (s : String) : String :=
  String.ofList (dropEndWhile isBlank (s.toList.dropWhile isBlank))

/-- The text without line feeds at its end. -/
def trimNewlines (s : String) : String :=
  String.ofList (dropEndWhile (· == '\n') s.toList)

/-! ## Lines -/

/-- A line without the carriage return at its end. -/
def dropReturn (line : List Char) : List Char :=
  if line.getLast? = some '\r' then line.dropLast else line

/-- The lines of a text, `line` being what is read of the present one. -/
def linesFrom (line : List Char) : List Char → List (List Char)
  | [] => if line.isEmpty then [] else [line]
  | '\n' :: rest => dropReturn line :: linesFrom [] rest
  | c :: rest => linesFrom (line ++ [c]) rest

/-- The lines of a text. -/
def lines (s : String) : List String :=
  (linesFrom [] s.toList).map String.ofList

end Rubric.Text
